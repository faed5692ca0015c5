import Enet.Runs.Ownership
import Enet.Fragments.Cut

/-!
# A packet is sent whole or not at all

`enet_peer_send` allocates a command for each fragment of a packet before it
numbers the first of them. When an allocation fails, the commands made so far
are freed and nothing else has changed; when none fails, all of them are
numbered and queued, and the packet has a reference for each.
-/

set_option autoImplicit false

namespace Enet

open Library

/-! ## What a failed call leaves -/

/-- A heap on which every allocation made since was given back. -/
structure Heap.GivesBack (heap heap' : Heap) : Prop where
  mallocs : heap'.mallocSucceeds = heap.mallocSucceeds
  references : heap'.referenceCount = heap.referenceCount
  destroyed : heap'.destroyed = heap.destroyed
  freed : ∀ address, heap.nextAddress ≤ address → address < heap'.nextAddress →
    heap.mallocSucceeds address = true → address ∈ heap'.freed
  kept : ∀ address, address < heap.nextAddress → address ∈ heap'.freed → address ∈ heap.freed

namespace Heap.GivesBack

theorem refl (heap : Heap) : heap.GivesBack heap :=
  ⟨rfl, rfl, rfl, fun _ from_ below => absurd below (Nat.not_lt.mpr from_), fun _ _ freed => freed⟩

/-- A failed allocation gives nothing to free. -/
theorem malloc {heap heap' : Heap} (fails : heap.malloc = (heap', none)) :
    heap.GivesBack heap' := by
  unfold Heap.malloc at fails
  split at fails
  · cases fails
  next refused =>
      cases fails
      refine ⟨rfl, rfl, rfl, fun address low high succeeds => ?_, fun _ _ freed => freed⟩
      have same : address = heap.nextAddress := Nat.le_antisymm (Nat.lt_succ_iff.mp high) low
      rw [same] at succeeds
      exact absurd succeeds refused

end Heap.GivesBack

namespace Host

/-- Freeing fragments writes their addresses down. -/
theorem freeFragments_eq (fragments : List OutgoingCommand) : ∀ heap : Heap,
    freeFragments heap fragments =
      { heap with freed := (fragments.map OutgoingCommand.address).reverse ++ heap.freed } := by
  induction fragments with
  | nil => intro heap; rfl
  | cons fragment rest ih =>
      intro heap
      rw [show freeFragments heap (fragment :: rest) =
        freeFragments (heap.free fragment.address) rest from rfl, ih]
      unfold Heap.free
      simp only [List.map_cons, List.reverse_cons, List.append_assoc, List.singleton_append]

/-- The fragments made since a heap are what was allocated on it. -/
structure MadeSince (heap : Heap) (current : Heap) (fragments : List OutgoingCommand) : Prop where
  mallocs : current.mallocSucceeds = heap.mallocSucceeds
  references : current.referenceCount = heap.referenceCount
  destroyed : current.destroyed = heap.destroyed
  freed : current.freed = heap.freed
  grown : heap.nextAddress ≤ current.nextAddress
  allocated : ∀ address, heap.nextAddress ≤ address → address < current.nextAddress →
    heap.mallocSucceeds address = true → address ∈ fragments.map OutgoingCommand.address
  new : ∀ address ∈ fragments.map OutgoingCommand.address, heap.nextAddress ≤ address

namespace MadeSince

variable {heap current : Heap} {fragments : List OutgoingCommand}

theorem start (heap : Heap) : MadeSince heap heap [] :=
  ⟨rfl, rfl, rfl, rfl, Nat.le_refl _, fun _ low high => absurd high (Nat.not_lt.mpr low),
    fun _ member => absurd member List.not_mem_nil⟩

/-- One fragment more is allocated. -/
theorem more (since : MadeSince heap current fragments) {current' : Heap} {address : Nat}
    (allocates : current.malloc = (current', some address)) {fragment : OutgoingCommand}
    (placed : fragment.address = address) :
    MadeSince heap current' (fragments ++ [fragment]) := by
  obtain ⟨mallocs, references, destroyed, freed, grown, allocated, new⟩ := since
  unfold Heap.malloc at allocates
  split at allocates
  · cases allocates
    refine ⟨mallocs, references, destroyed, freed, Nat.le_succ_of_le grown, ?_, ?_⟩
    · intro other low high succeeds
      rw [List.map_append, List.mem_append]
      rcases Nat.lt_succ_iff_lt_or_eq.mp high with earlier | same
      · exact .inl (allocated other low earlier succeeds)
      · exact .inr (by rw [same, List.map_singleton, placed]; exact List.mem_singleton_self _)
    · intro other member
      rw [List.map_append, List.mem_append] at member
      rcases member with earlier | same
      · exact new other earlier
      · rw [List.map_singleton, List.mem_singleton, placed] at same
        rw [same]
        exact grown
  · cases allocates

/-- Freeing the fragments gives back what was allocated. -/
theorem givesBack (since : MadeSince heap current fragments) :
    heap.GivesBack (freeFragments current fragments) := by
  obtain ⟨mallocs, references, destroyed, freed, grown, allocated, new⟩ := since
  rw [freeFragments_eq]
  refine ⟨mallocs, references, destroyed, fun address low high succeeds => ?_,
    fun address low member => ?_⟩
  · exact List.mem_append_left _ (List.mem_reverse.mpr (allocated address low high succeeds))
  · rcases List.mem_append.mp member with made | old
    · exact absurd low (Nat.not_lt.mpr (new address (List.mem_reverse.mp made)))
    · rwa [freed] at old

/-- A refused allocation, and the fragments freed. -/
theorem givesBack_of_refused (since : MadeSince heap current fragments) {current' : Heap}
    (refused : current.malloc = (current', none)) :
    heap.GivesBack (freeFragments current' fragments) := by
  obtain ⟨mallocs, references, destroyed, freed, grown, allocated, new⟩ := since
  unfold Heap.malloc at refused
  split at refused
  · cases refused
  next fails =>
      cases refused
      refine givesBack ⟨mallocs, references, destroyed, freed, Nat.le_succ_of_le grown,
        fun address low high succeeds => ?_, new⟩
      rcases Nat.lt_succ_iff_lt_or_eq.mp high with earlier | same
      · exact allocated address low earlier succeeds
      · rw [mallocs, ← same] at fails
        exact absurd succeeds fails

end MadeSince

/-- **The loop that makes the fragments gives everything back where it fails.** -/
theorem makeFragments_givesBack {packet : Packet}
    {make : Nat → Nat → Nat → Nat → OutgoingCommand}
    (placed : ∀ address number offset length, (make address number offset length).address = address)
    {heap heap' : Heap} (fuel : Nat) : ∀ (current : Heap) (length number offset : Nat)
      (fragments : List OutgoingCommand), MadeSince heap current fragments →
      makeFragments packet make fuel current length number offset fragments = (heap', none) →
      heap.GivesBack heap' := by
  induction fuel with
  | zero =>
      intro current length number offset fragments since fails
      cases fails
      exact since.givesBack
  | succ fuel ih =>
      intro current length number offset fragments since fails
      unfold makeFragments at fails
      split at fails
      · dsimp only at fails
        split at fails
        next refused =>
            cases fails
            exact since.givesBack_of_refused refused
        next allocates => exact ih _ _ _ _ _ (since.more allocates (placed ..)) fails
      · cases fails

/-- Nothing was sent: no peer changed, no count of the host, and no reference. -/
structure NothingSent (host host' : Host) : Prop where
  peers : host'.peers = host.peers
  totalQueued : host'.totalQueued = host.totalQueued
  heap : host.heap.GivesBack host'.heap

end Host

/-! ## What a call that succeeds queues -/

/-- The two numbers that the command with a place among the commands of a packet has. -/
def Peer.numbersAt (peer : Peer) (command : Protocol) (place : Nat) : Nat × Nat :=
  let channel := peer.channels command.channelID
  if command.channelID = 0xFF then (u16 (peer.outgoingReliableSequenceNumber + 1 + place), 0)
  else if command.acknowledge then
    (u16 (channel.outgoingReliableSequenceNumber + 1 + place), 0)
  else if command.unsequenced then (0, 0)
  else
    (channel.outgoingReliableSequenceNumber, u16 (channel.outgoingUnreliableSequenceNumber + 1))

/-- A peer, once it numbered some commands of a packet. -/
def Peer.Numbers (peer : Peer) (command : Protocol) (place : Nat) (peer' : Peer) : Prop :=
  let channel := peer.channels command.channelID
  let channel' := peer'.channels command.channelID
  if command.channelID = 0xFF then
    u16 (peer'.outgoingReliableSequenceNumber + 1) =
      u16 (peer.outgoingReliableSequenceNumber + 1 + place)
  else if command.acknowledge then
    u16 (channel'.outgoingReliableSequenceNumber + 1) =
      u16 (channel.outgoingReliableSequenceNumber + 1 + place)
  else if command.unsequenced then True
  else
    channel'.outgoingReliableSequenceNumber = channel.outgoingReliableSequenceNumber ∧
      channel'.outgoingUnreliableSequenceNumber =
        if place = 0 then channel.outgoingUnreliableSequenceNumber
        else u16 (channel.outgoingUnreliableSequenceNumber + 1)

namespace Peer

theorem u16_next {current start place : Nat} (same : u16 (current + 1) = u16 (start + 1 + place)) :
    u16 (u16 (current + 1) + 1) = u16 (start + 1 + (place + 1)) := by
  unfold u16 at same ⊢
  omega

theorem u32_next {current start place : Nat}
    (same : u32 (current + 1) = u32 (start + 1 + place)) :
    u32 (u32 (current + 1) + 1) = u32 (start + 1 + (place + 1)) := by
  unfold u32 at same ⊢
  omega

theorem enqueueOutgoing_other (peer : Peer) {outgoing : OutgoingCommand} {packet : Packet}
    {reliable : Bool} (carries : outgoing.packet = some packet)
    (acknowledge : outgoing.command.acknowledge = reliable) :
    (peer.enqueueOutgoing outgoing).outgoingQueue (!reliable) =
      peer.outgoingQueue (!reliable) := by
  unfold enqueueOutgoing
  rw [carries, acknowledge]
  cases reliable <;> rfl

theorem Numbers.refl (peer : Peer) (command : Protocol) : peer.Numbers command 0 peer := by
  unfold Numbers
  dsimp only
  split
  · rfl
  · split
    · rfl
    · split
      · trivial
      · exact ⟨rfl, rfl⟩

/-- A command is given the numbers of its place. -/
theorem Numbers.numberOutgoingCommand {peer peer' : Peer} {command : Protocol} {place : Nat}
    (numbers : peer.Numbers command place peer') {outgoing : OutgoingCommand}
    (channelID : outgoing.command.channelID = command.channelID)
    (acknowledge : outgoing.command.acknowledge = command.acknowledge)
    (unsequenced : outgoing.command.unsequenced = command.unsequenced)
    (first : outgoing.fragmentOffset = 0 ↔ place = 0) :
    peer.Numbers command (place + 1) (peer'.numberOutgoingCommand outgoing).1 ∧
      (∀ reliable, (peer'.numberOutgoingCommand outgoing).1.outgoingQueue reliable =
        peer'.outgoingQueue reliable) ∧
      (peer'.numberOutgoingCommand outgoing).2 =
        { outgoing with
          reliableSequenceNumber := (peer.numbersAt command place).1
          unreliableSequenceNumber := (peer.numbersAt command place).2 } := by
  unfold Numbers at numbers ⊢
  unfold Peer.numberOutgoingCommand numbersAt
  rw [channelID, acknowledge, unsequenced]
  dsimp only at numbers ⊢
  split
  next connection =>
      rw [if_pos connection] at numbers
      dsimp only
      rw [numbers]
      exact ⟨by rw [← numbers]; exact u16_next numbers, fun _ => rfl, rfl⟩
  next channel =>
      rw [if_neg channel] at numbers
      split
      next reliable =>
          rw [if_pos reliable] at numbers
          dsimp only
          rw [setChannel_channels, Function.update_self, numbers]
          exact ⟨by rw [← numbers]; exact u16_next numbers, fun _ => rfl, rfl⟩
      next unreliable =>
          rw [if_neg unreliable] at numbers
          split
          next => exact ⟨trivial, fun _ => rfl, rfl⟩
          next sequenced =>
              rw [if_neg sequenced] at numbers
              obtain ⟨reliableNumber, unreliableNumber⟩ := numbers
              dsimp only
              rw [setChannel_channels, Function.update_self]
              have given : (if outgoing.fragmentOffset = 0 then
                    u16 ((peer'.channels command.channelID).outgoingUnreliableSequenceNumber + 1)
                  else (peer'.channels command.channelID).outgoingUnreliableSequenceNumber) =
                  u16 ((peer.channels command.channelID).outgoingUnreliableSequenceNumber + 1) := by
                rw [unreliableNumber]
                by_cases start : place = 0
                · rw [if_pos (first.mpr start), if_pos start]
                · rw [if_neg fun none => start (first.mp none), if_neg start]
              dsimp only
              rw [given, reliableNumber]
              exact ⟨⟨rfl, rfl⟩, fun _ => rfl, rfl⟩

end Peer

/-- The number of the fragment that a command carries. -/
def Protocol.fragmentNumber (protocol : Protocol) : Nat :=
  match protocol.command with
  | .sendFragment fields => fields.fragmentNumber
  | .sendUnreliableFragment fields => fields.fragmentNumber
  | _ => 0

/-- A command made for a place among the commands of a packet, all of which are
of the kind of `command` and but for the last have a length. -/
structure OutgoingCommand.IsMadeFor (command : Protocol) (packet : Packet) (length place : Nat)
    (outgoing : OutgoingCommand) : Prop where
  packet : outgoing.packet = some packet
  channelID : outgoing.command.channelID = command.channelID
  acknowledge : outgoing.command.acknowledge = command.acknowledge
  unsequenced : outgoing.command.unsequenced = command.unsequenced
  offset : outgoing.fragmentOffset = place * length
  number : outgoing.command.fragmentNumber = place

/-- Such a command once it is queued: it has the numbers of its place. -/
structure Host.Queues (host : Host) (index : Nat) (command : Protocol) (packet : Packet)
    (length place : Nat) (outgoing : OutgoingCommand) : Prop extends
    OutgoingCommand.IsMadeFor command packet length place outgoing where
  numbers : (outgoing.reliableSequenceNumber, outgoing.unreliableSequenceNumber) =
    (host.peers index).numbersAt command place
  header : outgoing.command.reliableSequenceNumber = outgoing.reliableSequenceNumber
  queueTime : outgoing.queueTime = u32 (host.totalQueued + 1 + place)

theorem Peer.stampCommand_fragmentNumber (command : Protocol)
    (number unreliableNumber group : Nat) :
    (stampCommand command number unreliableNumber group).fragmentNumber =
      command.fragmentNumber := by
  obtain ⟨kind, acknowledge, unsequenced, channelID, header⟩ := command
  cases kind <;> rfl

namespace Host

variable {host : Host} {index : Nat} {command : Protocol} {packet : Packet} {length place : Nat}

/-- One command more is numbered and queued. -/
theorem setupOutgoingCommand_queues {host' : Host}
    (numbers : (host.peers index).Numbers command place (host'.peers index))
    (counted : u32 (host'.totalQueued + 1) = u32 (host.totalQueued + 1 + place))
    (positive : 0 < place → 0 < length) {outgoing : OutgoingCommand}
    (made : outgoing.IsMadeFor command packet length place) :
    (host.peers index).Numbers command (place + 1)
        ((host'.setupOutgoingCommand index outgoing).peers index) ∧
      u32 ((host'.setupOutgoingCommand index outgoing).totalQueued + 1) =
        u32 (host.totalQueued + 1 + (place + 1)) ∧
      ∃ queued, host.Queues index command packet length place queued ∧
        ((host'.setupOutgoingCommand index outgoing).peers index).outgoingQueue
            command.acknowledge =
          (host'.peers index).outgoingQueue command.acknowledge ++ [queued] ∧
        ((host'.setupOutgoingCommand index outgoing).peers index).outgoingQueue
            (!command.acknowledge) =
          (host'.peers index).outgoingQueue (!command.acknowledge) := by
  have first : outgoing.fragmentOffset = 0 ↔ place = 0 := by
    rw [made.offset, Nat.mul_eq_zero]
    omega
  have total : (host'.setupOutgoingCommand index outgoing).totalQueued =
      u32 (host'.totalQueued + 1) := rfl
  obtain ⟨after, queues, result⟩ :=
    (show (host.peers index).Numbers command place ((host'.peers index).countOutgoingData outgoing)
      from numbers).numberOutgoingCommand made.channelID made.acknowledge made.unsequenced first
  unfold setupOutgoingCommand at total ⊢
  rw [setPeer_self, total]
  unfold Peer.setupOutgoingCommand
  generalize ((host'.peers index).countOutgoingData outgoing).numberOutgoingCommand outgoing =
    numbering at *
  obtain ⟨installed, numbered⟩ := numbering
  dsimp only at after queues result ⊢
  subst result
  have queued : host.Queues index command packet length place
      (Peer.stampOutgoing
        { outgoing with
          reliableSequenceNumber := ((host.peers index).numbersAt command place).1
          unreliableSequenceNumber := ((host.peers index).numbersAt command place).2 }
        host'.countQueued.totalQueued installed.outgoingUnsequencedGroup) :=
    { packet := made.packet
      channelID := made.channelID
      acknowledge := made.acknowledge
      unsequenced := made.unsequenced
      offset := made.offset
      number := (Peer.stampCommand_fragmentNumber ..).trans made.number
      numbers := rfl
      header := rfl
      queueTime := counted }
  have own := installed.enqueueOutgoing_queue queued.packet
  rw [queued.acknowledge, queues] at own
  refine ⟨?_, Peer.u32_next counted, _, queued, own, ?_⟩
  · unfold Peer.Numbers at after ⊢
    rw [Peer.enqueueOutgoing_channels]
    rw [show (installed.enqueueOutgoing _).outgoingReliableSequenceNumber =
      installed.outgoingReliableSequenceNumber by unfold Peer.enqueueOutgoing; split <;> rfl]
    exact after
  · have other := installed.enqueueOutgoing_other queued.packet queued.acknowledge
    rw [queues] at other
    exact other

/-- The commands of a packet are numbered and queued one after the other. -/
theorem setupOutgoingCommands_queue (positive : 0 < length) (made : List OutgoingCommand) :
    ∀ (place : Nat) (host' : Host),
      (host.peers index).Numbers command place (host'.peers index) →
      u32 (host'.totalQueued + 1) = u32 (host.totalQueued + 1 + place) →
      List.Forall₂ (OutgoingCommand.IsMadeFor command packet length)
        (List.range' place made.length) made →
      ∃ queued, List.Forall₂ (host.Queues index command packet length)
          (List.range' place made.length) queued ∧
        ((made.foldl (fun host outgoing => host.setupOutgoingCommand index outgoing)
            host').peers index).outgoingQueue command.acknowledge =
          (host'.peers index).outgoingQueue command.acknowledge ++ queued ∧
        ((made.foldl (fun host outgoing => host.setupOutgoingCommand index outgoing)
            host').peers index).outgoingQueue (!command.acknowledge) =
          (host'.peers index).outgoingQueue (!command.acknowledge) := by
  induction made with
  | nil =>
      intro place host' numbers counted all
      exact ⟨[], .nil, (List.append_nil _).symm, rfl⟩
  | cons outgoing rest ih =>
      intro place host' numbers counted all
      rw [List.length_cons, List.range'_succ] at all ⊢
      obtain ⟨first, others⟩ := List.forall₂_cons.mp all
      obtain ⟨after, counts, command', queues, own, other⟩ :=
        setupOutgoingCommand_queues numbers counted (fun _ => positive) first
      obtain ⟨queued, behind, grown, same⟩ := ih _ _ after counts others
      refine ⟨command' :: queued, .cons queues behind, ?_, ?_⟩
      · rw [List.foldl_cons, grown, own, List.append_assoc, List.singleton_append]
      · rw [List.foldl_cons, same, other]

end Host

/-! ## The call -/

namespace Host

/-- The number of commands that `enet_peer_send` makes of a packet. -/
def commandsFor (host : Host) (index : Nat) (packet : Packet) : Nat :=
  if host.fragmentLength index < packet.dataLength then
    pieceCount packet.dataLength (host.fragmentLength index)
  else 1

/-- All commands of a packet are queued, each with the numbers of its place, and
the packet has one reference more for each. -/
structure WholeSent (host host' : Host) (index channelID : Nat) (packet : Packet) : Prop where
  queued : ∃ (command : Protocol) (commands : List OutgoingCommand),
    command.channelID = channelID ∧
    List.Forall₂ (host.Queues index command packet (host.fragmentLength index))
      (List.range (host.commandsFor index packet)) commands ∧
    (host'.peers index).outgoingQueue command.acknowledge =
      (host.peers index).outgoingQueue command.acknowledge ++ commands ∧
    (host'.peers index).outgoingQueue (!command.acknowledge) =
      (host.peers index).outgoingQueue (!command.acknowledge)
  references : host'.heap.referenceCount =
    Function.update host.heap.referenceCount packet.address
      (host.heap.referenceCount packet.address + host.commandsFor index packet)

theorem foldl_acquire_referenceCount {α : Type} (packet : Packet) (items : List α) : ∀ heap : Heap,
    (items.foldl (fun heap _ => heap.acquire packet) heap).referenceCount =
      Function.update heap.referenceCount packet.address
        (heap.referenceCount packet.address + items.length) := by
  induction items with
  | nil => intro heap; exact (Function.update_eq_self _ _).symm
  | cons item rest ih =>
      intro heap
      rw [List.foldl_cons, ih]
      unfold Heap.acquire
      dsimp only
      rw [Function.update_self, Function.update_idem, List.length_cons, Nat.add_assoc,
        Nat.add_comm 1]

/-- The commands that are made for the fragments. -/
theorem forall₂_makeFragment (host : Host) (index channelID : Nat) (packet : Packet)
    (fragmentCount count : Nat) : ∀ place : Nat,
    List.Forall₂
      (OutgoingCommand.IsMadeFor
        (makeFragment ((host.peers index).channels channelID) channelID packet 0 0 0 0 0).command
        packet (host.fragmentLength index))
      (List.range' place count)
      ((List.range' place count).map fun piece =>
        makeFragment ((host.peers index).channels channelID) channelID packet fragmentCount
          (host.heap.nextAddress + piece) piece (piece * host.fragmentLength index)
          (pieceLength packet.dataLength (host.fragmentLength index) piece)) := by
  induction count with
  | zero => intro place; exact .nil
  | succ count ih =>
      intro place
      rw [List.range'_succ, List.map_cons]
      refine .cons ⟨rfl, rfl, rfl, rfl, rfl, ?_⟩ (ih (place + 1))
      unfold makeFragment Protocol.fragmentNumber
      dsimp only
      cases sendsUnreliableFragments ((host.peers index).channels channelID) packet <;> rfl

/-- A call that sends fragments sends all of them or none. -/
theorem sendFragments_whole {host : Host} {index channelID : Nat} {packet : Packet}
    (long : host.fragmentLength index < packet.dataLength) :
    (host.sendFragments index channelID packet).2 = -1 ∧
        host.NothingSent (host.sendFragments index channelID packet).1 ∨
      (host.sendFragments index channelID packet).2 = 0 ∧
        host.WholeSent (host.sendFragments index channelID packet).1 index channelID packet := by
  unfold sendFragments
  dsimp only
  split
  · exact .inl ⟨rfl, rfl, rfl, .refl _⟩
  · split
    next fails =>
        exact .inl ⟨rfl, rfl, rfl, makeFragments_givesBack (fun _ _ _ _ => rfl) _ _ _ _ _ _
          (.start host.heap) fails⟩
    next heap made makes =>
        obtain ⟨positive, addressable, pieces⟩ := made_of_makeFragments long makes
        have ledger := makeFragments_ledger packet
          (makeFragment ((host.peers index).channels channelID) channelID packet
            (u32 ((packet.dataLength + host.fragmentLength index - 1) /
              host.fragmentLength index)))
          (packet.dataLength + 1) host.heap (host.fragmentLength index) 0 0 []
        rw [makes] at ledger
        have counts : heap.referenceCount = host.heap.referenceCount :=
          congrArg Ledger.count ledger
        have number : made.length = host.commandsFor index packet := by
          rw [pieces, List.length_map, List.length_range', commandsFor, if_pos long]
        have all := forall₂_makeFragment host index channelID packet
          (u32 ((packet.dataLength + host.fragmentLength index - 1) / host.fragmentLength index))
          (pieceCount packet.dataLength (host.fragmentLength index)) 0
        rw [← pieces, show pieceCount packet.dataLength (host.fragmentLength index) = made.length by
          rw [pieces, List.length_map, List.length_range']] at all
        obtain ⟨queued, queues, own, other⟩ := setupOutgoingCommands_queue positive made 0
          (host.setHeap (made.foldl (fun heap _ => heap.acquire packet) heap))
          (.refl (host.peers index) _) rfl all
        rw [number, ← List.range_eq_range'] at queues
        refine .inr ⟨rfl, ⟨_, queued, rfl, queues, own, other⟩, ?_⟩
        dsimp only
        rw [(foldl_setupOutgoingCommand_references index made _).1, setHeap_heap,
          foldl_acquire_referenceCount, counts, number]

/-- A command for a whole packet is queued, or nothing is. -/
theorem queueOutgoingCommand_whole (host : Host) (index : Nat) {command : Protocol}
    (unnumbered : command.fragmentNumber = 0) (packet : Packet) (length dataLength : Nat) :
    (host.queueOutgoingCommand index command (some packet) 0 dataLength).2 = false ∧
        host.NothingSent
          (host.queueOutgoingCommand index command (some packet) 0 dataLength).1 ∨
      (host.queueOutgoingCommand index command (some packet) 0 dataLength).2 = true ∧
        (∃ queued, host.Queues index command packet length 0 queued ∧
          ((host.queueOutgoingCommand index command (some packet) 0 dataLength).1.peers
              index).outgoingQueue command.acknowledge =
            (host.peers index).outgoingQueue command.acknowledge ++ [queued] ∧
          ((host.queueOutgoingCommand index command (some packet) 0 dataLength).1.peers
              index).outgoingQueue (!command.acknowledge) =
            (host.peers index).outgoingQueue (!command.acknowledge)) ∧
        (host.queueOutgoingCommand index command (some packet) 0
            dataLength).1.heap.referenceCount =
          Function.update host.heap.referenceCount packet.address
            (host.heap.referenceCount packet.address + 1) := by
  unfold queueOutgoingCommand
  rcases allocated : host.heap.malloc with ⟨heap, _ | address⟩
  · exact .inl ⟨rfl, rfl, rfl, .malloc allocated⟩
  · have counts : heap.referenceCount = host.heap.referenceCount :=
      congrArg Ledger.count (Heap.ledger_of_malloc allocated)
    obtain ⟨-, -, queued⟩ :=
      @setupOutgoingCommand_queues host index command packet length 0
        (host.setHeap (heap.acquire packet)) (.refl (host.peers index) _) rfl
        (fun more => absurd more (Nat.lt_irrefl 0))
        { address := address
          reliableSequenceNumber := 0
          unreliableSequenceNumber := 0
          sentTime := 0
          roundTripTimeout := 0
          queueTime := 0
          fragmentOffset := 0
          fragmentLength := u16 dataLength
          sendAttempts := 0
          command := command
          packet := some packet }
        ⟨rfl, rfl, rfl, rfl, (Nat.zero_mul _).symm, unnumbered⟩
    refine .inr ⟨rfl, queued, ?_⟩
    change (heap.acquire packet).referenceCount = _
    unfold Heap.acquire
    dsimp only
    rw [counts]

theorem sendCommand_channelID (channel : Channel) (channelID : Nat) (packet : Packet) :
    (sendCommand channel channelID packet).channelID = channelID := by
  unfold sendCommand
  split
  · rfl
  · split <;> rfl

theorem sendCommand_fragmentNumber (channel : Channel) (channelID : Nat) (packet : Packet) :
    (sendCommand channel channelID packet).fragmentNumber = 0 := by
  unfold sendCommand
  split
  · rfl
  · split <;> rfl

/-- A call sends a packet whole, or nothing. -/
theorem peerSend_whole (host : Host) (index channelID : Nat) (packet : Packet) :
    (host.peerSend index channelID packet).2 = -1 ∧
        host.NothingSent (host.peerSend index channelID packet).1 ∨
      (host.peerSend index channelID packet).2 = 0 ∧
        host.WholeSent (host.peerSend index channelID packet).1 index channelID packet := by
  have single := queueOutgoingCommand_whole host index
    (sendCommand_fragmentNumber ((host.peers index).channels channelID) channelID packet) packet
    (host.fragmentLength index) packet.dataLength
  unfold peerSend
  dsimp only
  split
  · exact .inl ⟨rfl, rfl, rfl, .refl _⟩
  · split
    next long => exact sendFragments_whole long
    next short =>
        have one : host.commandsFor index packet = 1 := if_neg short
        split
        next refused =>
            rw [refused] at single
            rcases single with ⟨-, nothing⟩ | ⟨queued, -⟩
            · exact .inl ⟨rfl, nothing⟩
            · cases queued
        next accepted =>
            rw [accepted] at single
            rcases single with ⟨refused, -⟩ | ⟨-, ⟨queued, queues, own, other⟩, references⟩
            · cases refused
            · refine .inr ⟨rfl, ⟨_, [queued], sendCommand_channelID .., ?_, own, other⟩, ?_⟩
              · rw [one]
                exact .cons queues .nil
              · rw [one]
                exact references

/-- **`enet_peer_send` is all or nothing.** Where it returns a negative value nothing is
sent and all memory is given back; where it returns zero the packet is queued whole. -/
theorem peerSend_allOrNothing (host : Host) (index channelID : Nat) (packet : Packet) :
    ((host.peerSend index channelID packet).2 < 0 →
      host.NothingSent (host.peerSend index channelID packet).1) ∧
    ((host.peerSend index channelID packet).2 = 0 →
      host.WholeSent (host.peerSend index channelID packet).1 index channelID packet) ∧
    (host.peerSend index channelID packet).2 ≤ 0 := by
  rcases peerSend_whole host index channelID packet with ⟨value, nothing⟩ | ⟨value, sent⟩
  · refine ⟨fun _ => nothing, fun zero => ?_, by rw [value]; decide⟩
    rw [value] at zero
    cases zero
  · refine ⟨fun negative => ?_, fun _ => sent, by rw [value]⟩
    rw [value] at negative
    exact absurd negative (by decide)

end Host

end Enet
