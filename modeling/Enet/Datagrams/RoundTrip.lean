import Enet.Datagrams.Reading

/-!
# The round trip of a datagram

A receiver that knows the sender takes a datagram apart into the commands that were
packed, with the fields and the data that they were packed with, and uses all of it.
The one exception is a compressed datagram whose commands do not fit behind their
header in the buffer they are expanded into.
-/

set_option autoImplicit false

namespace Enet

open Library

namespace Host

variable {receiver sender : Host} {index : Nat} {slot : Option Nat}

/-! ## The stages before the command loop -/

/-- The header that a receiver accepts, with the commands behind it. -/
def sentOpened (sender : Host) (index : Nat) (slot : Option Nat) : Opened where
  peer := slot
  sentTime := if sender.datagram.sentTime then some (u16 sender.serviceTime) else none
  bytes := sender.plainHeader index ++
    sender.sumField (fun _ => (sender.peers index).plantedID) ++ sender.body
  headerSize := sender.headerLength

/-- What the header of a datagram says, read from its bytes. -/
theorem Awaits.sentBytes_header (awaits : receiver.Awaits (sender.peers index) slot)
    (agrees : receiver.Agrees sender) :
    headerOf (sender.sentBytes index) = sender.sentHeader index ∧
      receiver.headerSizeOf (sender.sentBytes index) = sender.headerLength ∧
        ¬(sender.sentBytes index).length < 2 := by
  have read : headerOf (sender.sentBytes index) = sender.sentHeader index := by
    rw [sentBytes_eq, List.append_assoc]
    exact awaits.header_read _
  refine ⟨read, ?_, ?_⟩
  · unfold headerSizeOf
    rw [read, agrees.checksum]
    rfl
  · have least : 2 ≤ (sender.plainHeader index).length := by
      rw [length_plainHeader]
      split <;> omega
    rw [sentBytes_eq, List.length_append, List.length_append]
    omega

/-- **A datagram passes every stage before the command loop**, where its commands can be
expanded. -/
theorem openDatagram_sentBytes (agrees : receiver.Agrees sender)
    (awaits : receiver.Awaits (sender.peers index) slot) (filled : sender.body ≠ [])
    (expandable : sender.Expandable) :
    receiver.openDatagram (sender.sentBytes index) = some (sender.sentOpened index slot) := by
  obtain ⟨read, size, word⟩ := awaits.sentBytes_header agrees
  have length := sender.length_header index (sender.sentSum index)
  have expands := @Agrees.expand receiver sender index agrees filled _ length expandable
  rw [length, ← sentBytes_eq] at expands
  have addressed : receiver.addressedPeer (sender.sentHeader index) = some slot :=
    awaits.addressedPeer _ _
  rw [openDatagram_of_word word, read, size, addressed, Option.bind_some, expands,
    Option.bind_some, agrees.verifyChecksum awaits, Option.map_some]
  refine congrArg some ?_
  unfold sentOpened
  rw [Opened.mk.injEq]
  refine ⟨rfl, ?_, rfl, rfl⟩
  unfold sentHeader
  dsimp only
  split
  next timed =>
      rw [sentBytes_eq, List.append_assoc, List.append_assoc, field_plainHeader timed]
  · rfl

/-- A datagram that is opened whole can be expanded. -/
theorem expandable_of_opens (agrees : receiver.Agrees sender)
    (awaits : receiver.Awaits (sender.peers index) slot) {opened : Opened}
    (opens : receiver.openDatagram (sender.sentBytes index) = some opened)
    (whole : opened.bytes.length = opened.headerSize + sender.body.length) :
    sender.Expandable := by
  obtain ⟨read, size, word⟩ := awaits.sentBytes_header agrees
  cases shortens : sender.shortened with
  | none => exact .inl shortens
  | some coded =>
      rw [openDatagram_of_word word, read, size, Option.bind_eq_some_iff] at opens
      obtain ⟨_, -, opens⟩ := opens
      rw [Option.bind_eq_some_iff] at opens
      obtain ⟨expanded, expands, opens⟩ := opens
      rw [Option.map_eq_some_iff] at opens
      obtain ⟨verified, verifies, rfl⟩ := opens
      have length := sender.length_header index (sender.sentSum index)
      have bytes : sender.sentBytes index = sender.plainHeader index ++
          sender.sumField (sender.sentSum index) ++ coded := by
        rw [sentBytes_eq, shortens, Option.getD_some]
      rw [bytes, ← length] at expands
      have fits := length_expand shortens length expands
      have same := length_verifyChecksum verifies
      refine .inr ?_
      dsimp only at whole
      omega

/-! ## The command loop -/

/-- What a receiver makes of the datagram of a peer: the stages before the command loop pass,
no command is refused for want of a sent time, and the loop takes the commands that were
packed, each with its own data, and no byte is left over. -/
structure ReadsBack (receiver sender : Host) (index : Nat) (slot : Option Nat) (opened : Opened) :
    Prop where
  opens : receiver.openDatagram (sender.sentBytes index) = some opened
  peer : opened.peer = slot
  sentTime : opened.sentTime =
    if sender.datagram.sentTime then some (u16 sender.serviceTime) else none
  whole : opened.bytes.length = opened.headerSize + sender.body.length
  timed : ∀ part ∈ sender.datagram.parts, part.command.acknowledge = true →
    opened.sentTime.isSome = true
  handles : ∀ event, (receiver.setReceivedData (sender.sentBytes index)).handleIncomingCommands
      event =
    let taken := (receiver.noteDatagram opened).takeParts event slot opened.sentTime
      sender.datagram.parts
    (taken.1, taken.2, if isStored taken.2 then 1 else 0)

/-- Every command takes a byte at least. -/
theorem length_parts_le (parts : List Part) : parts.length ≤ (encodeParts parts).length := by
  induction parts with
  | nil => exact Nat.zero_le _
  | cons part parts ih =>
      have size := part.command.four_le_size
      have bytes : encodeParts (part :: parts) = part.encode ++ encodeParts parts := rfl
      rw [bytes, List.length_append, List.length_cons, Part.length_encode]
      omega

/-- **When a datagram is read back**: exactly if its commands can be expanded. -/
theorem readsBack_iff (readable : sender.datagram.Readable) (filled : sender.datagram.parts ≠ [])
    (agrees : receiver.Agrees sender) (awaits : receiver.Awaits (sender.peers index) slot) :
    (∃ opened, receiver.ReadsBack sender index slot opened) ↔ sender.Expandable := by
  have content : sender.body ≠ [] := by
    intro empty
    have short := length_parts_le sender.datagram.parts
    rw [show encodeParts sender.datagram.parts = [] from empty] at short
    exact filled (List.eq_nil_of_length_eq_zero (Nat.le_zero.mp short))
  constructor
  · rintro ⟨opened, reads⟩
    exact expandable_of_opens agrees awaits reads.opens reads.whole
  · intro expandable
    have opens := openDatagram_sentBytes agrees awaits content expandable
    have length := sender.length_header index fun _ => (sender.peers index).plantedID
    refine ⟨sender.sentOpened index slot, opens, rfl, rfl, ?_, ?_, fun event => ?_⟩
    · unfold sentOpened
      dsimp only
      rw [List.length_append, length]
    · intro part member acknowledged
      unfold sentOpened
      rw [readable.timed part member acknowledged]
      rfl
    · have opened : (receiver.setReceivedData (sender.sentBytes index)).openDatagram
          (sender.sentBytes index) = some (sender.sentOpened index slot) := opens
      have behind : (sender.sentOpened index slot).bytes.drop
          (sender.sentOpened index slot).headerSize = encodeParts sender.datagram.parts := by
        unfold sentOpened
        dsimp only
        rw [← length, List.drop_left]
        rfl
      have enough : sender.datagram.parts.length ≤ (sender.sentOpened index slot).bytes.length := by
        have least := length_parts_le sender.datagram.parts
        rw [← behind, List.length_drop] at least
        omega
      unfold handleIncomingCommands
      rw [show (receiver.setReceivedData (sender.sentBytes index)).receivedData =
        sender.sentBytes index from rfl, opened]
      dsimp only
      rw [behind, incomingLoop_encodeParts _ _ readable.announced enough]
      rfl

/-! ## Reachable hosts -/

/-- **Every datagram that is sent is read back**, exactly if its commands can be expanded. -/
theorem Fills.readsBack_iff {host filled : Host} {event : Option Event} {checkForTimeouts : Bool}
    {sendPass : Nat} {sentUnreliable : List OutgoingCommand}
    (fills : host.Fills event checkForTimeouts sendPass index filled sentUnreliable)
    (visited : Visited (host, event)) (agrees : receiver.Agrees filled)
    (awaits : receiver.Awaits (filled.peers index) slot) :
    (∃ opened, receiver.ReadsBack filled index slot opened) ↔ filled.Expandable :=
  Host.readsBack_iff (fills.readable (Carrying.visited visited))
    (fun none => fills.used (by rw [Datagram.commandCount, none]; rfl)) agrees awaits

/-- The commands of a datagram leave the room of the header in the mtu. -/
theorem Fills.body_le {host filled : Host} {event : Option Event} {checkForTimeouts : Bool}
    {sendPass : Nat} {sentUnreliable : List OutgoingCommand}
    (fills : host.Fills event checkForTimeouts sendPass index filled sentUnreliable)
    (visited : Visited (host, event)) (wide : 32 ≤ (host.peers index).mtu) :
    filled.body.length + 4 ≤ (host.peers index).mtu := by
  have fitting := Fitting.visited visited
  have within := (fills.respects fitting wide).1
  have mtu := fills.same.mtu index
  have counted := within.counted
  have room := within.room
  have bytes : (encodeParts filled.datagram.parts).length = filled.body.length := rfl
  omega

end Host

/-- With a checksum callback, or without one: every datagram for a peer with an mtu up to a
bound is read back by every receiver that knows the sender. -/
def ReadsAllBack (checksum : Option (List UInt8 → Nat)) (bound : Nat) : Prop :=
  ∀ (host : Host) (event : Option Event) (checkForTimeouts : Bool) (sendPass index : Nat)
    (filled : Host) (sentUnreliable : List OutgoingCommand) (receiver : Host)
    (slot : Option Nat), Visited (host, event) → host.checksum = checksum →
      32 ≤ (host.peers index).mtu → (host.peers index).mtu ≤ bound →
        host.Fills event checkForTimeouts sendPass index filled sentUnreliable →
          receiver.Agrees filled → receiver.Awaits (filled.peers index) slot →
            ∃ opened, receiver.ReadsBack filled index slot opened

/-- The four bytes of a checksum are what may not fit. -/
theorem readsAllBack_of {checksum : Option (List UInt8 → Nat)} {bound : Nat}
    (bounded : bound ≤ protocolMaximumMtu) (small : checksum = none ∨ bound ≤ 4092) :
    ReadsAllBack checksum bound := by
  intro host event checkForTimeouts sendPass index filled sentUnreliable receiver slot visited
    given wide narrow fills agrees awaits
  refine (fills.readsBack_iff visited agrees awaits).mpr (.inr ?_)
  have body := fills.body_le visited wide
  have sums : filled.checksum = checksum := fills.same.checksum.trans given
  have time : (if filled.datagram.sentTime then 4 else 2) ≤ 4 := by split <;> omega
  unfold Host.headerLength
  rw [sums]
  rcases small with none | small
  · rw [none]
    simp only [Option.isSome_none, Bool.false_eq_true, if_false]
    omega
  · have sum : (if checksum.isSome then 4 else 0) ≤ 4 := by split <;> omega
    simp only [protocolMaximumMtu] at *
    omega

/-! ## A datagram that is lost -/

/-- A CONNECT command for one channel with an mtu of 4093 bytes. -/
def wideRequest : Protocol :=
  { connectRequest with
    command := .connect ⟨0, 0xFF, 0xFF, 4093, 32768, 1, 0, 0, 5000, 2, 2, 77, 0⟩ }

/-- A reliable packet of zeros. -/
def reliablePacket (address length : Nat) : Packet :=
  ⟨address, ⟨true, false, false, false⟩, List.replicate length 0⟩

/-- A host with two reliable packets for its only peer, which fill a datagram. -/
def wideHost : Option Host :=
  let datagrams := connectDatagrams.set 0 (⟨7, 9⟩, [0x0F, 0xFF] ++ wideRequest.encode)
  calledHost (.create .ample (.delivering (fun _ => 1) datagrams) 0 1 1 0 0)
    [.configure 4093 1 8192 8192 none none, .service (some noEvent) 0, .service (some noEvent) 0,
      .send 0 0 (reliablePacket 1000 4061), .send 0 0 (reliablePacket 1001 16)]

theorem wideHost_spec :
    ∃ host, wideHost = some host ∧ Host.Reachable host ∧
      (host.peers 0).state = .connected ∧ (host.peers 0).acknowledgements.isEmpty = true ∧
      ((host.peers 0).outgoingCommands.isEmpty &&
        (host.peers 0).outgoingSendReliableCommands.isEmpty) = false ∧
      (host.peers 0).mtu = 4093 ∧ host.firstScan.peer.state = .connected ∧
      decide (host.firstScan.peer.pingInterval ≤
        timeDifference host.serviceTime host.firstScan.peer.lastReceiveTime) = false ∧
      host.firstScan.datagram.sentTime = true ∧ host.firstScan.datagram.commandCount = 2 ∧
      host.firstScan.datagram.packetSize = 4093 ∧
      (encodeParts host.firstScan.datagram.parts).length = 4089 ∧
      host.firstScan.peer.outgoingPeerID = 0 ∧ host.firstScan.peer.outgoingSessionID = 0 ∧
      0 < host.peerCount := by
  have evaluated : wideHost.map (fun host =>
      (((host.peers 0).state, host.firstScan.peer.state),
        ((host.peers 0).acknowledgements.isEmpty, (host.peers 0).outgoingCommands.isEmpty &&
            (host.peers 0).outgoingSendReliableCommands.isEmpty,
          decide (host.firstScan.peer.pingInterval ≤
            timeDifference host.serviceTime host.firstScan.peer.lastReceiveTime),
          host.firstScan.datagram.sentTime),
        [(host.peers 0).mtu, host.firstScan.datagram.commandCount,
          host.firstScan.datagram.packetSize,
          (encodeParts host.firstScan.datagram.parts).length,
          host.firstScan.peer.outgoingPeerID, host.firstScan.peer.outgoingSessionID,
          host.peerCount])) =
      some ((.connected, .connected), (true, false, false, true),
        [4093, 2, 4093, 4089, 0, 0, 1]) := by
    decide +kernel
  obtain ⟨host, called, facts⟩ := Option.map_eq_some_iff.mp evaluated
  simp only [Prod.mk.injEq, List.cons.injEq, and_true] at facts
  obtain ⟨⟨connected, state⟩, ⟨silent, waiting, recent, timed⟩, mtu, count, packed, size,
    peerID, session, peers⟩ := facts
  exact ⟨host, called, calledHost_reachable (.create ..) called, connected, silent, waiting, mtu,
    state, recent, timed, count, packed, size, peerID, session, by omega⟩

/-- A compressor that knows one body. -/
def onlyCompressor (known : List UInt8) : Compressor where
  compress := some fun bytes _ => if bytes = known then [0] else []
  decompress := some fun _ limit => if known.length ≤ limit then known else []

/-- It undoes what it does, wherever there is room. -/
theorem onlyCompressor_decodes (known : List UInt8) :
    Decodes (fun bytes _ => if bytes = known then [0] else [])
      (fun _ limit => if known.length ≤ limit then known else []) := by
  intro bytes limit positive shorter outLimit room
  dsimp only at positive ⊢
  split at positive
  next same =>
      rw [← same, if_pos room]
  · exact absurd positive (Nat.lt_irrefl 0)

/-- A receiver whose first peer is the one that a peer of another host is connected to. -/
def Host.counterpart (host : Host) (peer : Peer) : Host :=
  host.setPeer 0 { host.peers 0 with
    state := .connected
    address := host.receivedAddress
    incomingSessionID := peer.outgoingSessionID
    connectID := peer.connectID }

theorem Host.counterpart_knows {host : Host} {peer : Peer} (named : peer.outgoingPeerID = 0)
    (bits : peer.outgoingSessionID < 4) (slot : 0 < host.peerCount) :
    (host.counterpart peer).Knows peer 0 := by
  have self : (host.counterpart peer).peers 0 = { host.peers 0 with
      state := .connected
      address := host.receivedAddress
      incomingSessionID := peer.outgoingSessionID
      connectID := peer.connectID } := setPeer_self ..
  refine ⟨named, by decide, slot, ?_, .inl ?_, ?_, ?_, ?_⟩ <;> rw [self]
  · exact ⟨nofun, nofun⟩
  · exact ⟨rfl, rfl⟩
  · exact bits

/-- With any checksum the datagram of these packets is too long to be expanded. -/
theorem overfullExpansion (function : List UInt8 → Nat)
    (narrow : ∀ bytes, function bytes < 4294967296) :
    ∃ (host filled : Host) (sentUnreliable : List OutgoingCommand) (receiver : Host),
      Visited (host, none) ∧ host.checksum = some function ∧ (host.peers 0).mtu = 4093 ∧
      host.Fills none false 0 0 filled sentUnreliable ∧ receiver.Agrees filled ∧
      receiver.Awaits (filled.peers 0) (some 0) ∧ ¬filled.Expandable := by
  obtain ⟨host, -, reachable, connected, silent, waiting, mtu, state, recent, timed, count,
    packed, size, peerID, session, peers⟩ := wideHost_spec
  let known := encodeParts host.firstScan.datagram.parts
  let configured := host.configure 4093 1 8192 8192 (some function) (some (onlyCompressor known))
  have still : Host.Reachable configured :=
    .call 5 (.configure 4093 1 8192 8192 (some function) (some (onlyCompressor known))) reachable
      rfl
  have used : configured.firstScan.datagram.commandCount ≠ 0 := by
    rw [show configured.firstScan.datagram.commandCount = 2 from count]
    decide
  obtain ⟨filled, sentUnreliable, fills, datagram, peer, sums, compressor⟩ :=
    @Host.fills_of_connected configured connected silent waiting state recent used
  have sums : filled.checksum = some function := sums
  have compressor : filled.compressor = some (onlyCompressor known) := compressor
  have datagram : filled.datagram = host.firstScan.datagram := datagram
  have named : (filled.peers 0).outgoingPeerID = 0 := by
    rw [peer]
    exact peerID
  have bits : (filled.peers 0).outgoingSessionID < 4 := by
    rw [peer, show configured.firstScan.finish.outgoingSessionID = 0 from session]
    decide
  refine ⟨configured, filled, sentUnreliable, configured.counterpart (filled.peers 0),
    .of_reachable still rfl, rfl, mtu, fills, ⟨sums.symm, ?_, ?_⟩,
    Host.counterpart_knows named bits peers, ?_⟩
  · intro checksum given bytes
    cases sums.symm.trans given
    exact narrow bytes
  · intro compress given
    rw [compressor] at given
    cases given
    exact ⟨_, rfl, onlyCompressor_decodes known⟩
  · have body : filled.body = known := by
      unfold Host.body
      rw [datagram]
    have shortened : filled.shortened = some [0] := by
      unfold Host.shortened Host.compressed
      rw [body, datagram, compressor, packed]
      simp [onlyCompressor]
    have header : filled.headerLength = 8 := by
      unfold Host.headerLength
      rw [datagram, timed, sums]
      rfl
    have length : filled.body.length = 4089 := by
      rw [body]
      exact size
    rintro (none | fits)
    · rw [shortened] at none
      cases none
    · rw [header, length] at fits
      exact absurd fits (by decide)

/-- **When datagrams are read back.** A receiver that knows the sender reads a datagram back
exactly if its commands can be expanded; that is so for every datagram of a host exactly if
it has no checksum callback, or the mtu leaves the four bytes of a checksum. -/
theorem datagrams_read_back_iff (checksum : Option (List UInt8 → Nat)) {bound : Nat}
    (narrow : ∀ function, checksum = some function → ∀ bytes, function bytes < 4294967296)
    (bounded : bound ≤ protocolMaximumMtu) :
    (∀ (host : Host) (event : Option Event) (checkForTimeouts : Bool) (sendPass index : Nat)
      (filled : Host) (sentUnreliable : List OutgoingCommand) (receiver : Host)
      (slot : Option Nat), Visited (host, event) → host.checksum = checksum →
        host.Fills event checkForTimeouts sendPass index filled sentUnreliable →
          receiver.Agrees filled → receiver.Awaits (filled.peers index) slot →
            ((∃ opened, receiver.ReadsBack filled index slot opened) ↔ filled.Expandable)) ∧
      (ReadsAllBack checksum bound ↔ checksum = none ∨ bound ≤ 4092) := by
  refine ⟨fun host event checkForTimeouts sendPass index filled sentUnreliable receiver slot
    visited given fills agrees awaits => fills.readsBack_iff visited agrees awaits, ?_⟩
  refine ⟨fun reads => ?_, readsAllBack_of bounded⟩
  by_contra wide
  rw [not_or, Nat.not_le] at wide
  obtain ⟨function, given⟩ := Option.ne_none_iff_exists'.mp wide.1
  obtain ⟨host, filled, sentUnreliable, receiver, visited, sums, mtu, fills, agrees, awaits,
    refused⟩ := overfullExpansion function (narrow function given)
  have read := reads host none false 0 0 filled sentUnreliable receiver (some 0) visited
    (sums.trans given.symm) (by omega) (by omega) fills agrees awaits
  exact refused ((fills.readsBack_iff visited agrees awaits).mp read)

/-- Datagrams of the largest mtu are read back without a checksum, and with one that leaves it
the room. -/
theorem datagrams_read_back_unsummed :
    ReadsAllBack none 4096 ∧ ReadsAllBack (some fun _ => 0) 4092 :=
  ⟨(datagrams_read_back_iff none (fun _ none => nomatch none) (by decide)).2.mpr (.inl rfl),
    (datagrams_read_back_iff (some fun _ => 0)
      (fun function same bytes => by cases same; exact (by decide : 0 < 4294967296))
      (by decide)).2.mpr (.inr (by decide))⟩

/-- **A datagram with a checksum is lost** that is compressed and too long to be expanded. -/
theorem datagram_not_read_back :
    ∃ (host filled : Host) (sentUnreliable : List OutgoingCommand) (receiver : Host),
      Visited (host, none) ∧ host.Fills none false 0 0 filled sentUnreliable ∧
      receiver.Agrees filled ∧ receiver.Awaits (filled.peers 0) (some 0) ∧
      ¬∃ opened, receiver.ReadsBack filled 0 (some 0) opened := by
  obtain ⟨host, filled, sentUnreliable, receiver, visited, sums, mtu, fills, agrees, awaits,
    refused⟩ := overfullExpansion (fun _ => 0) (fun _ => by decide)
  exact ⟨host, filled, sentUnreliable, receiver, visited, fills, agrees, awaits,
    fun read => refused ((fills.readsBack_iff visited agrees awaits).mp read)⟩

end Enet
