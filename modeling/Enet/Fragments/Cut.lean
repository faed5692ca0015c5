import Enet.Library.Pieces
import Enet.Runs.Incoming

/-!
# A packet cut into fragments

What `enet_peer_send` queues for a packet that is longer than one fragment: the
pieces of the packet in their order, numbered from zero, each with the number
that the first of them will have.
-/

set_option autoImplicit false

namespace Enet

open Library

/-! ## Cuts -/

/-- A way to send a packet in fragments on a channel, whose numbers were these
before the first of them. -/
structure Cut where
  packet : Packet
  channelID : Nat
  reliable : Bool
  fragmentLength : Nat
  reliableSequenceNumber : Nat
  unreliableSequenceNumber : Nat
  positive : 0 < fragmentLength
  short : fragmentLength < 65536
  long : fragmentLength < packet.dataLength
  addressable : packet.dataLength < 4294967296
  count : pieceCount packet.dataLength fragmentLength ≤ protocolMaximumFragmentCount
  reliableNumber : reliableSequenceNumber < 65536
  unreliableNumber : reliable = false → unreliableSequenceNumber < 65535

namespace Cut

/-- The number of fragments. -/
def fragmentCount (cut : Cut) : Nat := pieceCount cut.packet.dataLength cut.fragmentLength

/-- The number that the first fragment will have. -/
def startSequenceNumber (cut : Cut) : Nat :=
  if cut.reliable then u16 (cut.reliableSequenceNumber + 1)
  else u16 (cut.unreliableSequenceNumber + 1)

/-- The fields of a fragment. -/
def fields (cut : Cut) (number : Nat) : SendFragment where
  startSequenceNumber := cut.startSequenceNumber
  dataLength := pieceLength cut.packet.dataLength cut.fragmentLength number
  fragmentCount := cut.fragmentCount
  fragmentNumber := number
  totalLength := cut.packet.dataLength
  fragmentOffset := number * cut.fragmentLength

/-- The reliable number that a fragment carries. -/
def numberOf (cut : Cut) (number : Nat) : Nat :=
  if cut.reliable then u16 (cut.reliableSequenceNumber + 1 + number)
  else cut.reliableSequenceNumber

/-- The wire command of a fragment. -/
def command (cut : Cut) (number : Nat) : Protocol where
  command :=
    if cut.reliable then .sendFragment (cut.fields number)
    else .sendUnreliableFragment (cut.fields number)
  acknowledge := cut.reliable
  unsequenced := false
  channelID := cut.channelID
  reliableSequenceNumber := cut.numberOf number

/-- A command that carries the piece of the packet with a number. -/
structure IsPiece (cut : Cut) (number : Nat) (outgoing : OutgoingCommand) : Prop where
  packet : outgoing.packet = some cut.packet
  fragmentOffset : outgoing.fragmentOffset = number * cut.fragmentLength
  fragmentLength :
    outgoing.fragmentLength = pieceLength cut.packet.dataLength cut.fragmentLength number

/-- A queued command that is the fragment with a number. -/
structure IsFragment (cut : Cut) (number : Nat) (outgoing : OutgoingCommand) : Prop extends
    IsPiece cut number outgoing where
  command : outgoing.command = cut.command number

theorem lt_fragmentCount_iff (cut : Cut) (number : Nat) :
    number < cut.fragmentCount ↔ number * cut.fragmentLength < cut.packet.dataLength :=
  lt_pieceCount_iff cut.positive number

/-- There is a second fragment. -/
theorem one_lt_fragmentCount (cut : Cut) : 1 < cut.fragmentCount := by
  have long := cut.long
  rw [lt_fragmentCount_iff]
  omega

/-- No fragment is empty. -/
theorem fragmentCount_le (cut : Cut) : cut.fragmentCount ≤ cut.packet.dataLength :=
  pieceCount_le cut.positive

theorem startSequenceNumber_reliable {cut : Cut} (reliable : cut.reliable = true) :
    cut.startSequenceNumber = u16 (cut.reliableSequenceNumber + 1) := by
  rw [startSequenceNumber, if_pos reliable]

theorem startSequenceNumber_unreliable {cut : Cut} (reliable : cut.reliable = false) :
    cut.startSequenceNumber = cut.unreliableSequenceNumber + 1 := by
  have small := cut.unreliableNumber reliable
  rw [startSequenceNumber, if_neg (by simp [reliable])]
  exact Nat.mod_eq_of_lt (by omega)

/-- The bytes that are sent with a fragment. -/
theorem IsPiece.payload {cut : Cut} {number : Nat} {outgoing : OutgoingCommand}
    (fragment : cut.IsPiece number outgoing) :
    OutgoingScan.payload outgoing =
      some (pieceOf cut.packet.data cut.fragmentLength number) := by
  rw [OutgoingScan.payload, fragment.packet, fragment.fragmentOffset, fragment.fragmentLength,
    Option.map_some, Option.some.injEq, pieceOf, List.take_eq_take_iff, List.length_drop,
    pieceLength, Packet.dataLength]
  omega

end Cut

/-! ## The loop -/

namespace Host

/-- A packet whose offsets do not fit 32 bits is never cut to its end. -/
theorem makeFragments_wraps {packet : Packet}
    {make : Nat → Nat → Nat → Nat → OutgoingCommand} (long : 4294967296 ≤ packet.dataLength)
    (fuel : Nat) : ∀ (heap : Heap) (length number offset : Nat)
      (fragments : List OutgoingCommand), offset < 4294967296 →
      (makeFragments packet make fuel heap length number offset fragments).2 = none := by
  induction fuel with
  | zero => intro heap length number offset fragments inside; rfl
  | succ fuel ih =>
      intro heap length number offset fragments inside
      unfold makeFragments
      rw [if_pos (by omega)]
      dsimp only
      split
      · rfl
      · exact ih _ _ _ _ _ (Nat.mod_lt _ (by decide))

/-- A packet is never cut to its end by fragments of no length. -/
theorem makeFragments_stops {packet : Packet}
    {make : Nat → Nat → Nat → Nat → OutgoingCommand} (fuel : Nat) :
    ∀ (heap : Heap) (number offset : Nat) (fragments : List OutgoingCommand),
      offset < packet.dataLength →
      (makeFragments packet make fuel heap 0 number offset fragments).2 = none := by
  induction fuel with
  | zero => intro heap number offset fragments inside; rfl
  | succ fuel ih =>
      intro heap number offset fragments inside
      unfold makeFragments
      rw [if_pos inside]
      dsimp only
      split
      · rfl
      · refine ih _ _ _ _ ?_
        exact Nat.lt_of_le_of_lt (Nat.mod_le _ _) inside

/-- The variables of the loop before the piece with a number. -/
structure AtPiece (packet : Packet) (length current number offset : Nat) : Prop where
  within : number ≤ pieceCount packet.dataLength length
  place : offset = min (number * length) packet.dataLength
  full : number < pieceCount packet.dataLength length → current = length

namespace AtPiece

variable {packet : Packet} {make : Nat → Nat → Nat → Nat → OutgoingCommand}
  {length current number offset : Nat}

theorem start (packet : Packet) (length : Nat) : AtPiece packet length length 0 0 :=
  ⟨Nat.zero_le _, by simp, fun _ => rfl⟩

/-- One round of the loop: a command is allocated for the piece. -/
theorem makeFragments_next (atPiece : AtPiece packet length current number offset)
    (positive : 0 < length) (addressable : packet.dataLength < 4294967296)
    (inside : number < pieceCount packet.dataLength length) (fuel : Nat) (heap : Heap)
    (fragments : List OutgoingCommand) :
    ∃ current offset', AtPiece packet length current (number + 1) offset' ∧
      makeFragments packet make (fuel + 1) heap length number offset fragments =
        match heap.malloc with
        | (heap, none) => (freeFragments heap fragments, none)
        | (heap, some address) =>
          makeFragments packet make fuel heap current (number + 1) offset'
            (fragments ++ [make address number (number * length)
              (pieceLength packet.dataLength length number)]) := by
  have begins := (lt_pieceCount_iff positive number).mp inside
  have place : offset = number * length := by
    rw [atPiece.place]
    exact Nat.min_eq_left (Nat.le_of_lt begins)
  have size : (if packet.dataLength - offset < length then packet.dataLength - offset
      else length) = pieceLength packet.dataLength length number := by
    rw [place, pieceLength]
    split <;> omega
  have smaller : number < 4294967295 := by
    have larger : number * 1 ≤ number * length := Nat.mul_le_mul_left _ positive
    omega
  have counted : u32 (number + 1) = number + 1 := Nat.mod_eq_of_lt (by omega)
  have ends := pieceLength_step positive inside
  have reached : u32 (number * length + pieceLength packet.dataLength length number) =
      min ((number + 1) * length) packet.dataLength := by
    rw [ends]
    exact Nat.mod_eq_of_lt (by omega)
  refine ⟨_, _, ⟨inside, rfl, pieceLength_of_next positive⟩, ?_⟩
  conv => lhs; unfold makeFragments
  rw [if_pos (by omega), size, place]
  dsimp only
  rewrite [reached, counted]
  rcases heap.malloc with ⟨first, _ | address⟩
  · rfl
  · rfl

/-- The loop is left behind the last piece. -/
theorem makeFragments_done (atPiece : AtPiece packet length current number offset)
    (positive : 0 < length) (outside : ¬number < pieceCount packet.dataLength length)
    (fuel : Nat) (heap : Heap) (fragments : List OutgoingCommand) :
    makeFragments packet make (fuel + 1) heap current number offset fragments =
      (heap, some fragments) := by
  have ends := (lt_pieceCount_iff positive number).not.mp outside
  have place := atPiece.place
  unfold makeFragments
  rw [if_neg (by omega)]

end AtPiece

/-- **The loop makes the pieces of the packet**, each at the next address. -/
theorem makeFragments_pieces {packet : Packet}
    {make : Nat → Nat → Nat → Nat → OutgoingCommand} {length : Nat} (positive : 0 < length)
    (addressable : packet.dataLength < 4294967296) (base fuel : Nat) :
    ∀ (heap heap' : Heap) (current number offset : Nat) (fragments made : List OutgoingCommand),
      AtPiece packet length current number offset → heap.nextAddress = base + number →
      makeFragments packet make fuel heap current number offset fragments =
        (heap', some made) →
      made = fragments ++
        (List.range' number (pieceCount packet.dataLength length - number)).map fun piece =>
          make (base + piece) piece (piece * length)
            (pieceLength packet.dataLength length piece) := by
  induction fuel with
  | zero => intro heap heap' current number offset fragments made _ _ makes; cases makes
  | succ fuel ih =>
      intro heap heap' current number offset fragments made atPiece next makes
      by_cases inside : number < pieceCount packet.dataLength length
      · obtain ⟨current', offset', behind, round⟩ := atPiece.makeFragments_next positive
          addressable inside fuel heap fragments
        rw [atPiece.full inside, round] at makes
        split at makes
        · cases makes
        next first address allocated =>
            obtain ⟨taken, grown⟩ := Heap.malloc_some allocated
            have more : pieceCount packet.dataLength length - number =
                pieceCount packet.dataLength length - (number + 1) + 1 := by omega
            have rest := ih _ _ _ _ _ _ _ behind (by omega) makes
            rw [rest, List.append_assoc, taken, next, more, List.range'_succ, List.map_cons,
              List.singleton_append]
      · rw [atPiece.makeFragments_done positive inside] at makes
        cases makes
        rw [Nat.sub_eq_zero_of_le (Nat.le_of_not_lt inside)]
        simp

/-- With memory enough, the loop makes all the pieces. -/
theorem makeFragments_of_memory {packet : Packet}
    {make : Nat → Nat → Nat → Nat → OutgoingCommand} {length : Nat} (positive : 0 < length)
    (addressable : packet.dataLength < 4294967296) (fuel : Nat) :
    ∀ (heap : Heap) (current number offset : Nat) (fragments : List OutgoingCommand),
      AtPiece packet length current number offset →
      (∀ allocation, heap.mallocSucceeds allocation = true) →
      pieceCount packet.dataLength length - number < fuel →
      ∃ heap' made, makeFragments packet make fuel heap current number offset fragments =
        (heap', some made) := by
  induction fuel with
  | zero => intro heap current number offset fragments _ _ enough; cases enough
  | succ fuel ih =>
      intro heap current number offset fragments atPiece memory enough
      by_cases inside : number < pieceCount packet.dataLength length
      · obtain ⟨current', offset', behind, round⟩ := atPiece.makeFragments_next positive
          addressable inside fuel heap fragments
        obtain ⟨first, address, allocated, memory⟩ := Heap.malloc_of_memory memory
        rw [atPiece.full inside, round, allocated]
        exact ih _ _ _ _ _ behind memory (by omega)
      · rw [atPiece.makeFragments_done positive inside]
        exact ⟨_, _, rfl⟩

end Host

/-! ## Queueing -/

/-- The queue that `enet_peer_setup_outgoing_command` puts a command with a packet in. -/
def Peer.outgoingQueue (peer : Peer) (reliable : Bool) : List OutgoingCommand :=
  if reliable then peer.outgoingSendReliableCommands else peer.outgoingCommands

namespace Peer

theorem enqueueOutgoing_channels (peer : Peer) (outgoing : OutgoingCommand) :
    (peer.enqueueOutgoing outgoing).channels = peer.channels := by
  unfold enqueueOutgoing
  split <;> rfl

theorem enqueueOutgoing_queue (peer : Peer) {outgoing : OutgoingCommand} {packet : Packet}
    (carries : outgoing.packet = some packet) :
    (peer.enqueueOutgoing outgoing).outgoingQueue outgoing.command.acknowledge =
      peer.outgoingQueue outgoing.command.acknowledge ++ [outgoing] := by
  unfold enqueueOutgoing
  rw [carries]
  cases outgoing.command.acknowledge <;> rfl

end Peer

/-- The numbers of the channel of a cut when some of its fragments are queued. -/
def Cut.Numbered (cut : Cut) (queued : Nat) (peer : Peer) : Prop :=
  (peer.channels cut.channelID).outgoingReliableSequenceNumber =
    if cut.reliable then u16 (cut.reliableSequenceNumber + queued)
    else cut.reliableSequenceNumber

namespace Cut

variable {cut : Cut}

/-- A fragment is given the number of its place. -/
theorem Numbered.numberOutgoingCommand {peer : Peer} {number : Nat} {outgoing : OutgoingCommand}
    (numbered : cut.Numbered number peer) (channel : cut.channelID ≠ 0xFF)
    (made : outgoing.command = { cut.command number with reliableSequenceNumber := 0 }) :
    cut.Numbered (number + 1) (peer.numberOutgoingCommand outgoing).1 ∧
      (∀ reliable, (peer.numberOutgoingCommand outgoing).1.outgoingQueue reliable =
        peer.outgoingQueue reliable) ∧
      ∃ unreliableNumber, (peer.numberOutgoingCommand outgoing).2 =
        { outgoing with
          reliableSequenceNumber := cut.numberOf number
          unreliableSequenceNumber := unreliableNumber } := by
  have next : u16 (u16 (cut.reliableSequenceNumber + number) + 1) =
      u16 (cut.reliableSequenceNumber + 1 + number) := by
    simp only [u16]
    omega
  have channelID : outgoing.command.channelID = cut.channelID := by rw [made]; rfl
  have acknowledge : outgoing.command.acknowledge = cut.reliable := by rw [made]; rfl
  have unsequenced : outgoing.command.unsequenced = false := by rw [made]; rfl
  unfold Numbered at numbered ⊢
  unfold Peer.numberOutgoingCommand
  rw [channelID, acknowledge, unsequenced, if_neg channel]
  dsimp only
  unfold numberOf
  cases reliable : cut.reliable with
  | true =>
      rw [reliable, if_pos rfl] at numbered
      rw [if_pos rfl, numbered, next]
      refine ⟨?_, fun _ => rfl, 0, rfl⟩
      rw [Peer.setChannel_channels, Function.update_self, if_pos rfl, Nat.add_assoc,
        Nat.add_comm 1]
  | false =>
      rw [reliable, if_neg (by decide)] at numbered
      simp only [Bool.false_eq_true, if_false, numbered]
      refine ⟨?_, fun _ => rfl, _, rfl⟩
      rw [Peer.setChannel_channels, Function.update_self]

theorem stampCommand_command (cut : Cut) (number unreliableNumber group : Nat) :
    Peer.stampCommand { cut.command number with reliableSequenceNumber := 0 }
      (cut.numberOf number) unreliableNumber group = cut.command number := by
  unfold Peer.stampCommand command
  cases cut.reliable <;> rfl

/-- One more fragment is numbered and queued. -/
theorem Numbered.setupOutgoingCommand {peer : Peer} {number : Nat} {outgoing : OutgoingCommand}
    (numbered : cut.Numbered number peer) (totalQueued : Nat) (channel : cut.channelID ≠ 0xFF)
    (piece : cut.IsPiece number outgoing)
    (made : outgoing.command = { cut.command number with reliableSequenceNumber := 0 }) :
    cut.Numbered (number + 1) (peer.setupOutgoingCommand totalQueued outgoing) ∧
      ∃ fragment, cut.IsFragment number fragment ∧
        (peer.setupOutgoingCommand totalQueued outgoing).outgoingQueue cut.reliable =
          peer.outgoingQueue cut.reliable ++ [fragment] := by
  obtain ⟨after, queues, unreliableNumber, result⟩ :=
    (show cut.Numbered number (peer.countOutgoingData outgoing) from
      numbered).numberOutgoingCommand channel made
  unfold Peer.setupOutgoingCommand
  generalize (peer.countOutgoingData outgoing).numberOutgoingCommand outgoing = numbering at *
  obtain ⟨installed, numberedCommand⟩ := numbering
  dsimp only at after queues result ⊢
  subst result
  have fragment : cut.IsFragment number
      (Peer.stampOutgoing
        { outgoing with
          reliableSequenceNumber := cut.numberOf number
          unreliableSequenceNumber := unreliableNumber }
        totalQueued installed.outgoingUnsequencedGroup) :=
    { packet := piece.packet
      fragmentOffset := piece.fragmentOffset
      fragmentLength := piece.fragmentLength
      command := by
        rw [← stampCommand_command cut number unreliableNumber
          installed.outgoingUnsequencedGroup, ← made]
        rfl }
  refine ⟨?_, _, fragment, ?_⟩
  · unfold Numbered at after ⊢
    rw [Peer.enqueueOutgoing_channels]
    exact after
  · have queued := installed.enqueueOutgoing_queue fragment.packet
    rw [fragment.command, show (cut.command number).acknowledge = cut.reliable from rfl] at queued
    rw [queued, queues]
    rfl

end Cut

namespace Host

/-- The cut that `enet_peer_send` makes of a packet. -/
structure Cuts (host : Host) (index channelID : Nat) (packet : Packet) (cut : Cut) : Prop where
  samePacket : cut.packet = packet
  sameChannel : cut.channelID = channelID
  fragmentLength : cut.fragmentLength = host.fragmentLength index
  reliable : cut.reliable =
    !sendsUnreliableFragments ((host.peers index).channels channelID) packet
  reliableSequenceNumber : cut.reliableSequenceNumber =
    ((host.peers index).channels channelID).outgoingReliableSequenceNumber
  unreliableSequenceNumber : cut.unreliableSequenceNumber =
    ((host.peers index).channels channelID).outgoingUnreliableSequenceNumber

namespace Cuts

variable {host : Host} {index channelID : Nat} {packet : Packet} {cut : Cut}

/-- The loop makes the commands of the fragments. -/
theorem makeFragment (cuts : host.Cuts index channelID packet cut) (address number : Nat) :
    let made := Host.makeFragment ((host.peers index).channels channelID) channelID packet
      cut.fragmentCount address number (number * cut.fragmentLength)
      (pieceLength packet.dataLength cut.fragmentLength number)
    cut.IsPiece number made ∧
      made.command = { cut.command number with reliableSequenceNumber := 0 } := by
  obtain ⟨rfl, rfl, length, reliable, reliableNumber, unreliableNumber⟩ := cuts
  have shorter : pieceLength cut.packet.dataLength cut.fragmentLength number ≤
      cut.fragmentLength := Nat.min_le_left _ _
  have short := cut.short
  have size : u16 (pieceLength cut.packet.dataLength cut.fragmentLength number) =
      pieceLength cut.packet.dataLength cut.fragmentLength number := Nat.mod_eq_of_lt (by omega)
  have total : u32 cut.packet.dataLength = cut.packet.dataLength :=
    Nat.mod_eq_of_lt cut.addressable
  refine ⟨⟨rfl, rfl, size⟩, ?_⟩
  unfold Host.makeFragment Cut.command Cut.fields Cut.startSequenceNumber
  rw [reliableNumber, unreliableNumber, reliable, size, total]
  cases sendsUnreliableFragments ((host.peers index).channels cut.channelID) cut.packet <;> rfl

/-- The fragments are queued in their order. -/
theorem setupOutgoingCommands (cuts : host.Cuts index channelID packet cut)
    (channel : channelID ≠ 0xFF) (base count : Nat) : ∀ (number : Nat) (host' : Host),
    cut.Numbered number (host'.peers index) →
    ∃ fragments, List.Forall₂ cut.IsFragment (List.range' number count) fragments ∧
      ((((List.range' number count).map fun piece =>
          Host.makeFragment ((host.peers index).channels channelID) channelID packet
            cut.fragmentCount (base + piece) piece (piece * cut.fragmentLength)
            (pieceLength packet.dataLength cut.fragmentLength piece)).foldl
        (fun host fragment => host.setupOutgoingCommand index fragment) host').peers
          index).outgoingQueue cut.reliable =
        (host'.peers index).outgoingQueue cut.reliable ++ fragments := by
  induction count with
  | zero =>
      intro number host' numbered
      exact ⟨[], .nil, (List.append_nil _).symm⟩
  | succ count ih =>
      intro number host' numbered
      obtain ⟨piece, made⟩ := cuts.makeFragment (base + number) number
      rw [List.range'_succ, List.map_cons, List.foldl_cons]
      obtain ⟨after, fragment, isFragment, queued⟩ :=
        numbered.setupOutgoingCommand host'.countQueued.totalQueued
          (by rw [cuts.sameChannel]; exact channel) piece made
      have first : (host'.setupOutgoingCommand index (Host.makeFragment
          ((host.peers index).channels channelID) channelID packet cut.fragmentCount
          (base + number) number (number * cut.fragmentLength)
          (pieceLength packet.dataLength cut.fragmentLength number))).peers index = _ :=
        setPeer_self ..
      rw [← first] at after queued
      obtain ⟨fragments, all, same⟩ := ih (number + 1) _ after
      refine ⟨fragment :: fragments, .cons isFragment all, ?_⟩
      rw [same, queued, List.append_assoc, List.singleton_append]

end Cuts

/-- What the types and the handshake give a sender: 16-bit numbers, a channel that
is not that of the connection, and an mtu below the maximum. -/
structure SendsOn (host : Host) (index channelID : Nat) : Prop where
  mtu : (host.peers index).mtu ≤ protocolMaximumMtu
  channelCount : (host.peers index).channelCount ≤ protocolMaximumChannelCount
  reliableNumber : ((host.peers index).channels channelID).outgoingReliableSequenceNumber < 65536
  unreliableNumber :
    ((host.peers index).channels channelID).outgoingUnreliableSequenceNumber < 65536

theorem fragmentLength_le {host : Host} {index : Nat}
    (small : host.fragmentLength index < 4294967296) :
    host.fragmentLength index ≤ (host.peers index).mtu := by
  unfold fragmentLength sub64 at small ⊢
  dsimp only at small ⊢
  grind

/-- The count of the fragments of a packet fits its register. -/
theorem u32_pieceCount {total length : Nat} (positive : 0 < length) (small : total < 4294967296) :
    u32 ((total + length - 1) / length) = pieceCount total length :=
  Nat.mod_eq_of_lt (Nat.lt_of_le_of_lt (pieceCount_le positive) small)

/-- What the loop makes are the pieces of a packet whose offsets fit 32 bits. -/
theorem made_of_makeFragments {packet : Packet}
    {make : Nat → Nat → Nat → Nat → OutgoingCommand} {heap heap' : Heap} {length : Nat}
    {made : List OutgoingCommand} (long : length < packet.dataLength)
    (makes : makeFragments packet make (packet.dataLength + 1) heap length 0 0 [] =
      (heap', some made)) :
    0 < length ∧ packet.dataLength < 4294967296 ∧
      made = (List.range' 0 (pieceCount packet.dataLength length)).map fun piece =>
        make (heap.nextAddress + piece) piece (piece * length)
          (pieceLength packet.dataLength length piece) := by
  have addressable : packet.dataLength < 4294967296 := by
    by_contra wraps
    have fails := @makeFragments_wraps packet make (Nat.le_of_not_lt wraps)
      (packet.dataLength + 1) heap length 0 0 [] (by decide)
    rw [makes] at fails
    cases fails
  have positive : 0 < length := by
    by_contra empty
    rw [Nat.eq_zero_of_not_pos empty] at makes
    have fails := @makeFragments_stops packet make (packet.dataLength + 1) heap 0 0 [] (by omega)
    rw [makes] at fails
    cases fails
  have pieces := makeFragments_pieces positive addressable heap.nextAddress _ _ _ _ _ _ _ _
    (.start packet _) rfl makes
  exact ⟨positive, addressable, by rw [pieces, List.nil_append, Nat.sub_zero]⟩

/-- The fragments that are made for an accepted packet are the pieces of a cut. -/
theorem cut_of_makeFragments {host : Host} {index channelID : Nat} {packet : Packet}
    {make : Nat → Nat → Nat → Nat → OutgoingCommand} {heap' : Heap} {made : List OutgoingCommand}
    (sends : host.SendsOn index channelID) (long : host.fragmentLength index < packet.dataLength)
    (few : u32 ((packet.dataLength + host.fragmentLength index - 1) / host.fragmentLength index) ≤
      protocolMaximumFragmentCount)
    (makes : makeFragments packet make (packet.dataLength + 1) host.heap
      (host.fragmentLength index) 0 0 [] = (heap', some made)) :
    ∃ cut, host.Cuts index channelID packet cut ∧
      u32 ((packet.dataLength + host.fragmentLength index - 1) / host.fragmentLength index) =
        cut.fragmentCount ∧
      made = (List.range' 0 cut.fragmentCount).map fun piece =>
        make (host.heap.nextAddress + piece) piece (piece * cut.fragmentLength)
          (pieceLength packet.dataLength cut.fragmentLength piece) := by
  obtain ⟨positive, addressable, pieces⟩ := made_of_makeFragments long makes
  have small := @fragmentLength_le host index (by omega)
  have mtu : (host.peers index).mtu ≤ 4096 := sends.mtu
  have count := u32_pieceCount positive addressable
  refine ⟨{
      packet := packet
      channelID := channelID
      reliable := !sendsUnreliableFragments ((host.peers index).channels channelID) packet
      fragmentLength := host.fragmentLength index
      reliableSequenceNumber :=
        ((host.peers index).channels channelID).outgoingReliableSequenceNumber
      unreliableSequenceNumber :=
        ((host.peers index).channels channelID).outgoingUnreliableSequenceNumber
      positive := positive
      short := by omega
      long := long
      addressable := addressable
      count := by rw [← count]; exact few
      reliableNumber := sends.reliableNumber
      unreliableNumber := ?_ }, ⟨rfl, rfl, rfl, rfl, rfl, rfl⟩, count, pieces⟩
  intro unreliable
  rw [Bool.not_eq_false'] at unreliable
  unfold sendsUnreliableFragments at unreliable
  simp only [Bool.and_eq_true, decide_eq_true_eq] at unreliable
  exact unreliable.2

/-- **A packet longer than one fragment is queued as its pieces**, when
`enet_peer_send` accepts it. -/
theorem peerSend_cut {host : Host} {index channelID : Nat} {packet : Packet}
    (sends : host.SendsOn index channelID) (long : host.fragmentLength index < packet.dataLength)
    (accepted : (host.peerSend index channelID packet).2 = 0) :
    ∃ cut, host.Cuts index channelID packet cut ∧
      ∃ fragments, List.Forall₂ cut.IsFragment (List.range cut.fragmentCount) fragments ∧
        ((host.peerSend index channelID packet).1.peers index).outgoingQueue cut.reliable =
          (host.peers index).outgoingQueue cut.reliable ++ fragments := by
  have channelCount : (host.peers index).channelCount ≤ 255 := sends.channelCount
  unfold peerSend at accepted ⊢
  dsimp only at accepted ⊢
  split at accepted
  · cases accepted
  next taken =>
    rw [if_neg taken, if_pos long]
    unfold sendFragments at accepted ⊢
    dsimp only at accepted ⊢
    split at accepted
    · cases accepted
    next few =>
      rw [if_neg few]
      split at accepted
      · cases accepted
      next heap made makes =>
        obtain ⟨cut, cuts, count, same⟩ :=
          cut_of_makeFragments sends long (Nat.le_of_not_lt few) makes
        refine ⟨cut, cuts, ?_⟩
        dsimp only
        have start : ∀ heap, cut.Numbered 0 ((host.setHeap heap).peers index) := by
          intro heap
          have small := cut.reliableNumber
          unfold Cut.Numbered
          rw [setHeap_peers, cuts.sameChannel, ← cuts.reliableSequenceNumber, Nat.add_zero,
            show u16 cut.reliableSequenceNumber = _ from Nat.mod_eq_of_lt small]
          cases cut.reliable <;> rfl
        have queued := cuts.setupOutgoingCommands (by omega) host.heap.nextAddress
          cut.fragmentCount 0 _ (start (made.foldl (fun heap _ => heap.acquire packet) heap))
        rw [List.range_eq_range']
        rw [count] at same
        rw [← same] at queued
        exact queued

/-- A packet of not too many fragments is accepted when memory suffices. -/
theorem peerSend_of_memory {host : Host} {index channelID : Nat} {packet : Packet}
    (connected : (host.peers index).state = .connected)
    (hasChannel : channelID < (host.peers index).channelCount)
    (room : packet.dataLength ≤ host.maximumPacketSize)
    (long : host.fragmentLength index < packet.dataLength)
    (positive : 0 < host.fragmentLength index) (addressable : packet.dataLength < 4294967296)
    (few : pieceCount packet.dataLength (host.fragmentLength index) ≤
      protocolMaximumFragmentCount)
    (memory : ∀ allocation, host.heap.mallocSucceeds allocation = true) :
    (host.peerSend index channelID packet).2 = 0 := by
  have count := u32_pieceCount positive addressable
  have bound := @pieceCount_le packet.dataLength _ positive
  obtain ⟨heap, made, makes⟩ := @makeFragments_of_memory packet
    (makeFragment ((host.peers index).channels channelID) channelID packet
      (pieceCount packet.dataLength (host.fragmentLength index)))
    _ positive addressable (packet.dataLength + 1) host.heap _ _ _ [] (.start packet _) memory
    (by omega)
  unfold peerSend
  dsimp only
  rw [if_neg (by rw [connected]; simp; omega), if_pos long]
  unfold sendFragments
  dsimp only
  rw [count, if_neg (Nat.not_lt_of_le few), makes]

end Host

end Enet
