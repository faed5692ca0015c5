import Enet.Runs.Fitting
import Enet.Runs.Settings

/-!
# How a datagram is packed

`host->packetSize` starts with the four bytes of a header that carries a sent
time and grows with every command placed in the datagram, and no command is
placed for which the mtu of the peer leaves no room. A checksum takes four more
bytes of the header, which are not counted: with one, a datagram may be longer
than the mtu.
-/

set_option autoImplicit false

namespace Enet

open Library Relation

/-! ## The length of a datagram -/

theorem Protocol.length_encode (protocol : Protocol) : protocol.encode.length = protocol.size := by
  unfold encode size
  cases protocol.command <;>
    simp [Command.encode, Command.encodeFragment, Command.number, commandSizes]

theorem Part.length_encode (part : Part) :
    part.encode.length = part.command.size + (part.payload.getD []).length := by
  rw [encode, List.length_append, Protocol.length_encode]

namespace Datagram

/-- A datagram that counts what it holds, within its limits and an mtu. -/
structure Within (mtu : Nat) (datagram : Datagram) : Prop where
  counted : 4 + (encodeParts datagram.parts).length ≤ datagram.packetSize
  commands : datagram.commandCount ≤ protocolMaximumPacketCommands
  buffers : datagram.bufferCount ≤ bufferMaximum
  room : datagram.packetSize ≤ mtu

namespace Within

variable {mtu : Nat} {datagram : Datagram}

theorem start (fits : 4 ≤ mtu) : Datagram.start.Within mtu :=
  ⟨le_refl 4, Nat.zero_le _, by decide, fits⟩

/-- A command for which there is room. -/
theorem push (within : datagram.Within mtu) {part : Part} {size : Nat}
    (counts : part.encode.length ≤ size)
    (commands : datagram.commandCount < protocolMaximumPacketCommands)
    (buffers : datagram.bufferCount + 1 + (if part.payload.isSome then 1 else 0) ≤ bufferMaximum)
    (room : size ≤ mtu - datagram.packetSize) : (datagram.push part size).Within mtu := by
  obtain ⟨counted, -, -, fits⟩ := within
  refine ⟨?_, ?_, ?_, ?_⟩
  · unfold Datagram.push encodeParts
    unfold encodeParts at counted
    dsimp only
    rw [List.flatMap_append, List.length_append, List.flatMap_singleton]
    omega
  · unfold Datagram.push
    unfold commandCount at commands ⊢
    dsimp only
    rw [List.length_append, List.length_singleton]
    exact commands
  · unfold Datagram.push
    unfold bufferCount at buffers ⊢
    dsimp only
    rw [List.filter_append, List.length_append, List.length_append, List.length_singleton]
    have one : ([part].filter fun part => part.payload.isSome).length =
        if part.payload.isSome then 1 else 0 := by
      rw [List.filter_singleton]
      cases part.payload.isSome <;> rfl
    omega
  · unfold Datagram.push
    dsimp only
    omega

end Within

end Datagram

/-! ## The loop over the commands -/

namespace OutgoingScan

/-- The datagram is within the mtu, and every command that is queued fits. -/
structure Packs (scan : OutgoingScan) : Prop where
  within : scan.datagram.Within scan.peer.mtu
  fits : ∀ outgoing ∈ scan.pending, outgoing.Fits scan.peer.mtu

/-- The tests for the room that is left do not wrap around: neither the difference
nor, where it is made, the comparison in 16 bits. -/
structure Unwrapped (scan : OutgoingScan) : Prop where
  room : scan.datagram.packetSize ≤ scan.peer.mtu
  narrow : ∀ reliable outgoing, scan.next = some (reliable, outgoing) →
    outgoing.packet.isSome = true →
      scan.peer.mtu - scan.datagram.packetSize < 65536 ∧
        outgoing.command.size + outgoing.fragmentLength < 65536

namespace Packs

variable {scan scan' : OutgoingScan}

theorem next_fits (packs : scan.Packs) {reliable : Bool} {outgoing : OutgoingCommand}
    (found : scan.next = some (reliable, outgoing)) : outgoing.Fits scan.peer.mtu :=
  (packs.fits outgoing.core (next_pending found)).of_core

/-- **No test for room wraps around.** -/
theorem unwrapped (packs : scan.Packs) (wide : 32 ≤ scan.peer.mtu) : scan.Unwrapped := by
  refine ⟨packs.within.room, fun reliable outgoing found carried => ?_⟩
  have fits := packs.next_fits found
  have bounded := fits.bounded carried
  have room := fits.room carried wide
  simp only [protocolMaximumMtu] at bounded
  exact ⟨by omega, by omega⟩

/-- A command for which the datagram is not full has room in it. -/
theorem room (packs : scan.Packs) (wide : 32 ≤ scan.peer.mtu) {reliable : Bool}
    {outgoing : OutgoingCommand} (found : scan.next = some (reliable, outgoing))
    (places : scan.isFull outgoing = false) :
    scan.datagram.commandCount < protocolMaximumPacketCommands ∧
      scan.datagram.bufferCount + 2 ≤ bufferMaximum ∧
      outgoing.command.size + (if outgoing.packet.isSome then outgoing.fragmentLength else 0) ≤
        scan.peer.mtu - scan.datagram.packetSize := by
  obtain ⟨room, narrow⟩ := packs.unwrapped wide
  unfold isFull at places
  dsimp only at places
  simp only [Bool.or_eq_false_iff, decide_eq_false_iff_not, sub64_of_le room] at places
  obtain ⟨⟨⟨commands, buffers⟩, size⟩, carried⟩ := places
  refine ⟨by omega, by omega, ?_⟩
  split
  next some =>
      obtain ⟨smaller, shorter⟩ := narrow reliable outgoing found some
      rw [some, Bool.true_and, decide_eq_false_iff_not, u16, u16, Nat.mod_eq_of_lt smaller,
        Nat.mod_eq_of_lt shorter] at carried
      omega
  next none => omega

/-- A command placed in the datagram. -/
theorem place (packs : scan.Packs) (wide : 32 ≤ scan.peer.mtu) {reliable : Bool}
    {outgoing sent : OutgoingCommand} (found : scan.next = some (reliable, outgoing))
    (places : scan.isFull outgoing = false) (command : sent.command = outgoing.command)
    (packet : sent.packet = outgoing.packet)
    (length : sent.fragmentLength = outgoing.fragmentLength) (sentTime : Bool) :
    ({ scan.datagram with sentTime := sentTime }.push ⟨sent.command, payload sent⟩
      (sent.command.size + if sent.packet.isSome then sent.fragmentLength else 0)).Within
        scan.peer.mtu := by
  obtain ⟨commands, buffers, room⟩ := packs.room wide found places
  have within : { scan.datagram with sentTime := sentTime }.Within scan.peer.mtu :=
    ⟨packs.within.counted, packs.within.commands, packs.within.buffers, packs.within.room⟩
  rw [command, packet, length]
  refine within.push ?_ commands ?_ room
  · rw [Part.length_encode]
    unfold payload
    rw [packet]
    dsimp only
    cases outgoing.packet with
    | none => exact le_refl _
    | some packet =>
        simp [length]
  · have one : (if (payload sent).isSome then 1 else 0) ≤ 1 := by split <;> omega
    exact le_trans (Nat.add_le_add_left one _) buffers

end Packs

theorem transmitUnreliable_datagram (scan : OutgoingScan) (reliable : Bool)
    (outgoing : OutgoingCommand) :
    (scan.transmitUnreliable reliable outgoing).datagram =
      scan.datagram.push ⟨outgoing.command, payload outgoing⟩
        (outgoing.command.size +
          if outgoing.packet.isSome then outgoing.fragmentLength else 0) := by
  have emits : ((scan.unlink reliable).emit outgoing).datagram =
      scan.datagram.push ⟨outgoing.command, payload outgoing⟩
        (outgoing.command.size +
          if outgoing.packet.isSome then outgoing.fragmentLength else 0) := by
    cases reliable <;> rfl
  rw [← emits]
  unfold transmitUnreliable
  dsimp only
  split <;> rfl

/-- What a turn of the loop does to the datagram: nothing, or it places the command
at the iterator, for which the datagram is not full. A command that is to be acknowledged
puts the sent time in the header. -/
theorem step_datagram (scan : OutgoingScan) (serviceTime : Nat) (reliable : Bool)
    (outgoing : OutgoingCommand) :
    (scan.step serviceTime reliable outgoing).1.datagram = scan.datagram ∨
      scan.isFull outgoing = false ∧ ∃ (sent : OutgoingCommand) (sentTime : Bool),
        sent.core = outgoing.core ∧
        (sentTime = true ∨
          sent.command.acknowledge = false ∧ sentTime = scan.datagram.sentTime) ∧
        (scan.step serviceTime reliable outgoing).1.datagram =
          { scan.datagram with sentTime := sentTime }.push ⟨sent.command, payload sent⟩
            (sent.command.size + if sent.packet.isSome then sent.fragmentLength else 0) := by
  have passes : (scan.pass reliable).datagram = scan.datagram := by cases reliable <;> rfl
  unfold step
  split
  · split
    · exact .inl passes
    · split
      · exact .inl passes
      · split
        · exact .inl passes
        · split
          · exact .inl rfl
          next room =>
              refine .inr ⟨by simpa using room, transmitted scan.peer serviceTime outgoing, true,
                rfl, .inl rfl, ?_⟩
              cases reliable <;> rfl
  next unreliable =>
    split
    · exact .inl rfl
    next room =>
        have room : scan.isFull outgoing = false := by simpa using room
        unfold sendUnreliable
        dsimp only
        split
        · refine .inl ?_
          cases reliable <;> rfl
        · exact .inr ⟨room, outgoing, scan.datagram.sentTime, rfl,
            .inr ⟨Bool.eq_false_iff.mpr unreliable, rfl⟩, transmitUnreliable_datagram ..⟩

namespace Packs

variable {scan scan' : OutgoingScan}

/-- **A turn of the loop keeps the datagram within the mtu.** -/
theorem step (packs : scan.Packs) (wide : 32 ≤ scan.peer.mtu) (serviceTime : Nat)
    {reliable : Bool} {outgoing : OutgoingCommand}
    (found : scan.next = some (reliable, outgoing)) :
    (scan.step serviceTime reliable outgoing).1.Packs := by
  have mtu := (scan.step_sendingOnly serviceTime reliable outgoing).mtu
  refine ⟨?_, fun other member => ?_⟩
  · rw [mtu]
    rcases scan.step_datagram serviceTime reliable outgoing with
      same | ⟨places, sent, sentTime, core, -, pushed⟩
    · rw [same]
      exact packs.within
    · rw [pushed]
      exact packs.place wide found places (congrArg OutgoingCommand.command core :)
        (congrArg OutgoingCommand.packet core :) (congrArg OutgoingCommand.fragmentLength core :)
        sentTime
  · rw [mtu]
    exact packs.fits other (Multiset.mem_of_le (step_pending_le serviceTime found) member)

/-- **The loop keeps the datagram within the mtu.** -/
theorem run (serviceTime fuel : Nat) : ∀ {scan : OutgoingScan}, scan.Packs →
    32 ≤ scan.peer.mtu → (OutgoingScan.run serviceTime fuel scan).Packs := by
  induction fuel with
  | zero => intro scan packs _; exact packs
  | succ fuel ih =>
      intro scan packs wide
      unfold OutgoingScan.run
      split
      · exact packs
      next reliable outgoing found =>
          have steps := packs.step wide serviceTime found
          dsimp only
          split
          · refine ih steps ?_
            rw [(scan.step_sendingOnly serviceTime reliable outgoing).mtu]
            exact wide
          · exact steps

/-- **No test of the loop wraps around.** -/
theorem reached_unwrapped {serviceTime : Nat} (packs : scan.Packs) (wide : 32 ≤ scan.peer.mtu)
    (reached : ReflTransGen (Turn serviceTime) scan scan') : scan'.Unwrapped := by
  have kept : scan'.Packs ∧ 32 ≤ scan'.peer.mtu := by
    induction reached with
    | refl => exact ⟨packs, wide⟩
    | @tail middle _ _ turn ih =>
        obtain ⟨packs, wide⟩ := ih
        obtain ⟨reliable, outgoing, found, stepped⟩ := turn
        have steps := packs.step wide serviceTime found
        have mtu := (middle.step_sendingOnly serviceTime reliable outgoing).mtu
        rw [stepped] at steps mtu
        exact ⟨steps, mtu.symm ▸ wide⟩
  exact kept.1.unwrapped kept.2

end Packs

end OutgoingScan

/-! ## The turn of a peer -/

namespace Host

/-- The host at the start of the turn of a peer, with an empty datagram. -/
def emptied (host : Host) (index : Nat) : Host :=
  (host.setDatagram Datagram.start).setPeer index
    ((host.peers index).setContinueSending false)

/-- The host before the check of the outgoing commands of a peer, in its turn. -/
def turned (host : Host) (event : Option Event) (checkForTimeouts : Bool) (index : Nat) :
    Host × Option Event × Bool :=
  (host.startDatagram index).checkDueTimeouts event checkForTimeouts index

/-- In its turn in a pass of `enet_protocol_send_outgoing_commands` a peer has a
datagram filled, which is sent. -/
structure Fills (host : Host) (event : Option Event) (checkForTimeouts : Bool)
    (sendPass index : Nat) (filled : Host) (sentUnreliable : List OutgoingCommand) : Prop where
  due : ¬((host.peers index).state = .disconnected ∨ (host.peers index).state = .zombie ∨
    (0 < sendPass ∧ (host.peers index).continueSending = false))
  stays : (host.turned event checkForTimeouts index).2.2 = false
  fills : (host.turned event checkForTimeouts index).1.fillDatagram index =
    (filled, sentUnreliable)
  used : filled.datagram.commandCount ≠ 0

/-- The bytes passed to the socket for the datagram of a peer. -/
def sentBytes (host : Host) (index : Nat) : List UInt8 :=
  (host.setPeer index ((host.peers index).updatePacketLoss host.serviceTime)).datagramBytes
    ((host.peers index).updatePacketLoss host.serviceTime)

/-- The datagram of a peer respects its mtu and the limits of the host. -/
structure Respects (host : Host) (index : Nat) : Prop where
  length : (host.sentBytes index).length ≤ (host.peers index).mtu
  commands : host.datagram.commandCount ≤ protocolMaximumPacketCommands
  buffers : host.datagram.bufferCount ≤ bufferMaximum

/-- No test for the room that is left wraps around while the loop fills the datagram of
a peer. -/
structure ScansUnwrapped (host : Host) (index : Nat) (sentUnreliable : List OutgoingCommand) :
    Prop where
  before : host.datagram.packetSize ≤ (host.peers index).mtu
  within : ∀ serviceTime scan, ReflTransGen (OutgoingScan.Turn serviceTime)
    (OutgoingScan.start (host.peers index) host.heap host.datagram sentUnreliable) scan →
      scan.Unwrapped

/-- No computation of the room that is left in a datagram wraps around in the turn of
a peer: before each acknowledgement, in the loop over the commands, before a ping,
and in the loop once more behind it. -/
structure TurnUnwrapped (host : Host) (event : Option Event) (checkForTimeouts : Bool)
    (index : Nat) : Prop where
  acknowledgements : ∀ count,
    let waiting := (host.peers index).acknowledgements.take count
    let sent := sendAcknowledgements index waiting (host.emptied index)
    sent.datagram.packetSize ≤ (sent.peers index).mtu
  commands : (host.turned event checkForTimeouts index).1.ScansUnwrapped index []
  pinged : let checked := (host.turned event checkForTimeouts index).1.checkWaitingCommands index
    checked.1.datagram.packetSize ≤ (checked.1.peers index).mtu ∧
      (checked.1.peerPing index).ScansUnwrapped index checked.2.1

theorem dispatchState_datagram (host : Host) (index : Nat) (state : PeerState) :
    (host.dispatchState index state).datagram = host.datagram := by
  have changes : (host.changeState index state).datagram = host.datagram := by
    unfold changeState
    dsimp only
    split
    · rw [setPeer_datagram]
      unfold onConnect
      dsimp only
      split <;> rfl
    · rw [setPeer_datagram, onDisconnect_datagram]
  rw [← changes]
  unfold dispatchState scheduleDispatch
  split <;> rfl

/-- The datagram of a peer is within its mtu. -/
def PacksFor (host : Host) (index : Nat) : Prop :=
  host.datagram.Within (host.peers index).mtu

namespace PacksFor

variable {host host' : Host} {index : Nat}

theorem same (packs : host.PacksFor index) (datagram : host'.datagram = host.datagram)
    (mtu : (host'.peers index).mtu = (host.peers index).mtu) : host'.PacksFor index := by
  unfold PacksFor
  rw [datagram, mtu]
  exact packs

theorem emptied (host : Host) (fits : 4 ≤ (host.peers index).mtu) :
    (host.emptied index).PacksFor index := by
  unfold PacksFor Host.emptied
  rw [setPeer_self]
  exact .start fits

theorem dispatchState (packs : host.PacksFor index) (state : PeerState) :
    (host.dispatchState index state).PacksFor index :=
  packs.same (dispatchState_datagram ..) ((SameSettings.dispatchState ..).mtu index)

/-- **The acknowledgements keep the datagram within the mtu.** -/
theorem sendAcknowledgements (acknowledgements : List Acknowledgement) :
    ∀ {host : Host}, host.PacksFor index →
      (Host.sendAcknowledgements index acknowledgements host).PacksFor index := by
  induction acknowledgements with
  | nil => intro host packs; exact packs
  | cons acknowledgement rest ih =>
      intro host packs
      unfold Host.sendAcknowledgements
      dsimp only
      split
      · exact packs.same rfl (by rw [setPeer_self]; rfl)
      next room =>
          simp only [not_or, Nat.not_le, Nat.not_lt, sub64_of_le packs.room] at room
          obtain ⟨commands, buffers, size⟩ := room
          refine ih ?_
          have pushed : (host.setDatagram (host.datagram.push
              ⟨⟨.acknowledge acknowledgement.command.reliableSequenceNumber
                (u16 acknowledgement.sentTime), false, false, acknowledgement.command.channelID,
                acknowledgement.command.reliableSequenceNumber⟩, none⟩
              (commandSizes 1))).PacksFor index :=
            packs.push (le_refl 8) commands buffers size
          split
          · exact (pushed.dispatchState .zombie).same rfl (by rw [setPeer_self]; rfl)
          · exact pushed.same rfl (by rw [setPeer_self]; rfl)

theorem checkDueTimeouts (packs : host.PacksFor index) {event : Option Event}
    {checkForTimeouts : Bool}
    (stays : (host.checkDueTimeouts event checkForTimeouts index).2.2 = false) :
    (host.checkDueTimeouts event checkForTimeouts index).1.PacksFor index := by
  refine packs.same ?_ ((SameSettings.checkDueTimeouts stays).mtu index)
  rcases checkDueTimeouts_cases stays with same | same
  · rw [same]
  · rw [same]
    rfl

/-- The loop over the commands starts within the mtu. -/
theorem start (packs : host.PacksFor index) (fitting : (host.peers index).Fitting)
    (sentUnreliable : List OutgoingCommand) :
    (OutgoingScan.start (host.peers index) host.heap host.datagram sentUnreliable).Packs :=
  ⟨packs, fitting.commands⟩

theorem scansUnwrapped (packs : host.PacksFor index) (fitting : (host.peers index).Fitting)
    (wide : 32 ≤ (host.peers index).mtu) (sentUnreliable : List OutgoingCommand) :
    host.ScansUnwrapped index sentUnreliable :=
  ⟨packs.room, fun _ _ reached =>
    (packs.start fitting sentUnreliable).reached_unwrapped wide reached⟩

/-- **The check of the outgoing commands keeps the datagram within the mtu.** -/
theorem checkOutgoingCommands (packs : host.PacksFor index)
    (fitting : (host.peers index).Fitting) (wide : 32 ≤ (host.peers index).mtu)
    (sentUnreliable : List OutgoingCommand) :
    (host.checkOutgoingCommands index sentUnreliable).1.PacksFor index := by
  have scanned : ((host.scanOutgoing index sentUnreliable).datagram).Within
      (host.scanOutgoing index sentUnreliable).peer.mtu :=
    ((packs.start fitting sentUnreliable).run host.serviceTime _ wide).within
  have installed : (host.installScan index (host.scanOutgoing index sentUnreliable)).PacksFor
      index := by
    unfold PacksFor installScan
    rw [setPeer_self]
    exact scanned
  unfold Host.checkOutgoingCommands
  dsimp only
  split
  · exact installed.same (startDisconnect_datagram ..)
      ((SameSettings.startDisconnect ..).mtu index)
  · exact installed

end PacksFor

/-- What the outgoing commands of a peer need to stay within its mtu. -/
structure PacksWell (host : Host) (index : Nat) : Prop where
  packs : host.PacksFor index
  fitting : Fitting host
  wide : 32 ≤ (host.peers index).mtu

namespace PacksWell

variable {host : Host} {index : Nat}

theorem checkOutgoingCommands (well : host.PacksWell index)
    (sentUnreliable : List OutgoingCommand) :
    (host.checkOutgoingCommands index sentUnreliable).1.PacksWell index := by
  refine ⟨well.packs.checkOutgoingCommands (well.fitting.peers index) well.wide _, ?_, ?_⟩
  · exact well.fitting.sendRun (.single (.checkOutgoing host sentUnreliable index))
  · rw [(SameSettings.checkOutgoingCommands ..).mtu]
    exact well.wide

theorem peerPing (well : host.PacksWell index) : (host.peerPing index).PacksWell index := by
  refine ⟨well.packs.same (peerPing_datagram ..) ((SameSettings.peerPing ..).mtu index), ?_, ?_⟩
  · exact well.fitting.sendRun (.peerPing host [] index)
  · rw [(SameSettings.peerPing ..).mtu]
    exact well.wide

theorem checkWaitingCommands (well : host.PacksWell index) :
    (host.checkWaitingCommands index).1.PacksWell index := by
  unfold Host.checkWaitingCommands
  dsimp only
  split
  · exact well
  · exact well.checkOutgoingCommands []

theorem fillDatagram (well : host.PacksWell index) :
    (host.fillDatagram index).1.PacksWell index := by
  unfold Host.fillDatagram
  dsimp only
  split
  · exact (well.checkWaitingCommands.peerPing).checkOutgoingCommands _
  · exact well.checkWaitingCommands

end PacksWell

/-! ## What a turn leaves alone -/

/-- What was passed to the socket stays as it is. -/
theorem startDisconnect_world (host : Host) (index data : Nat) :
    (host.startDisconnect index data).world = host.world := by
  have resets : (host.resetQueues index).world = host.world := by
    unfold resetQueues
    dsimp only
    split <;> rfl
  have queues : ∀ (host : Host) (command : Protocol),
      (host.queueOutgoingCommand index command none 0 0).1.world = host.world := by
    intro host command
    unfold queueOutgoingCommand
    split <;> rfl
  have leaves : ∀ host : Host, (host.onDisconnect index).world = host.world := by
    intro host
    unfold onDisconnect
    dsimp only
    split <;> rfl
  unfold startDisconnect
  exact (leaves _).trans ((queues ..).trans resets)

/-- The settings stay as they are while a datagram is filled. -/
theorem Fills.same {host filled : Host} {event : Option Event} {checkForTimeouts : Bool}
    {sendPass index : Nat} {sentUnreliable : List OutgoingCommand}
    (fills : host.Fills event checkForTimeouts sendPass index filled sentUnreliable) :
    SameSettings host filled := by
  have fillings := SameSettings.fillDatagram (host.turned event checkForTimeouts index).1 index
  rw [fills.fills] at fillings
  exact ((SameSettings.startDatagram host index).trans
    (SameSettings.checkDueTimeouts fills.stays)).trans fillings

/-! ## The length of what is sent -/

/-- What is compressed is shorter. -/
theorem compressed_length {host : Host} {originalSize : Nat} {bytes shorter : List UInt8}
    (compresses : host.compressed originalSize bytes = some shorter) :
    shorter.length < originalSize := by
  unfold compressed at compresses
  split at compresses
  · cases compresses
  · dsimp only at compresses
    split at compresses
    next less =>
        cases compresses
        exact less.2
    · cases compresses

/-- The bytes of a datagram are those of its header, of its checksum and of its body. -/
theorem length_sentBytes (host : Host) (index : Nat) :
    (host.sentBytes index).length =
      2 + (if host.datagram.sentTime then 2 else 0) + (if host.checksum.isSome then 4 else 0) +
        ((host.compressed (host.datagram.packetSize - 4) (encodeParts host.datagram.parts)).getD
          (encodeParts host.datagram.parts)).length := by
  have time : (if host.datagram.sentTime then toBigEndian 2 (u16 host.serviceTime)
      else []).length = if host.datagram.sentTime then 2 else 0 := by
    split
    · exact length_toBigEndian ..
    · rfl
  unfold sentBytes datagramBytes
  dsimp only
  cases checksum : host.checksum with
  | none =>
      rw [show (host.setPeer index
        ((host.peers index).updatePacketLoss host.serviceTime)).checksum =
        none from checksum]
      dsimp only
      rw [List.length_append, List.length_append, length_toBigEndian]
      exact congrArg (2 + · + _) time
  | some function =>
      rw [show (host.setPeer index
        ((host.peers index).updatePacketLoss host.serviceTime)).checksum =
        some function from checksum]
      dsimp only
      rw [List.length_append, List.length_append, List.length_append, length_toBigEndian,
        length_toLittleEndian]
      exact congrArg (2 + · + 4 + _) time

/-- **What is sent is no longer than what is counted, but for a checksum.** -/
theorem sentBytes_le {host : Host} {mtu : Nat} (within : host.datagram.Within mtu) (index : Nat) :
    (host.sentBytes index).length ≤ mtu + if host.checksum.isSome then 4 else 0 := by
  have body : ((host.compressed (host.datagram.packetSize - 4)
      (encodeParts host.datagram.parts)).getD (encodeParts host.datagram.parts)).length + 4 ≤
        host.datagram.packetSize := by
    have counted := within.counted
    cases compresses : host.compressed (host.datagram.packetSize - 4)
      (encodeParts host.datagram.parts) with
    | none =>
        rw [Option.getD_none]
        omega
    | some shorter =>
        have shortens := compressed_length compresses
        rw [Option.getD_some]
        omega
  have header : (if host.datagram.sentTime then 2 else 0) ≤ 2 := by split <;> omega
  have room := within.room
  rw [length_sentBytes]
  omega

/-- **What a datagram passes to the socket.** -/
theorem sendDatagram_sent (host : Host) (index : Nat) (sentUnreliable : List OutgoingCommand) :
    ∃ address, (host.sendDatagram index sentUnreliable).1.world.sent =
      host.world.sent ++ [(address, host.sentBytes index)] := by
  have frees : ∀ host : Host,
      (host.removeSentUnreliableCommands index sentUnreliable).world = host.world := by
    intro host
    unfold removeSentUnreliableCommands
    split
    · rfl
    · dsimp only
      split
      · exact startDisconnect_world ..
      · rfl
  have self : (host.setPeer index ((host.peers index).updatePacketLoss host.serviceTime)).peers
      index = (host.peers index).updatePacketLoss host.serviceTime := setPeer_self ..
  refine ⟨((host.peers index).updatePacketLoss host.serviceTime).address, ?_⟩
  unfold sendDatagram sentBytes
  dsimp only
  rw [self]
  split
  · exact congrArg World.sent (frees _)
  · exact congrArg World.sent (frees _)

/-! ## Reachable hosts -/

/-- **The turn of a peer starts within its mtu.** -/
theorem Fills.packsWell {host filled : Host} {event : Option Event} {checkForTimeouts : Bool}
    {sendPass index : Nat} {sentUnreliable : List OutgoingCommand}
    (fills : host.Fills event checkForTimeouts sendPass index filled sentUnreliable)
    (fitting : Fitting host) (wide : 32 ≤ (host.peers index).mtu) :
    (host.turned event checkForTimeouts index).1.PacksWell index := by
  have used : (host.peers index).state ≠ .disconnected := fun free => fills.due (.inl free)
  have started : (host.startDatagram index).PacksFor index :=
    .sendAcknowledgements _ (.emptied host (by omega))
  have starts := fitting.sendRun (.single (.startDatagram host index used))
  have mtu := (SameSettings.startDatagram host index).mtu index
  refine ⟨started.checkDueTimeouts fills.stays, ?_, ?_⟩
  · unfold turned checkDueTimeouts
    dsimp only
    split
    · exact starts.edits (.checkTimeouts _ index event)
    · exact starts
  · rw [← mtu] at wide
    exact ((SameSettings.checkDueTimeouts fills.stays).mtu index).symm ▸ wide

/-- **A datagram is within its mtu, but for its checksum**, and no computation of the
room that is left wraps around. -/
theorem Fills.respects {host filled : Host} {event : Option Event} {checkForTimeouts : Bool}
    {sendPass index : Nat} {sentUnreliable : List OutgoingCommand}
    (fills : host.Fills event checkForTimeouts sendPass index filled sentUnreliable)
    (fitting : Fitting host) (wide : 32 ≤ (host.peers index).mtu) :
    filled.datagram.Within (filled.peers index).mtu ∧
      host.TurnUnwrapped event checkForTimeouts index := by
  have well := fills.packsWell fitting wide
  have waiting := well.checkWaitingCommands
  have filling := well.fillDatagram
  rw [fills.fills] at filling
  refine ⟨filling.packs, fun count => ?_, ?_, waiting.packs.room, ?_⟩
  · exact (PacksFor.sendAcknowledgements _ (.emptied host (by omega))).room
  · exact well.packs.scansUnwrapped (well.fitting.peers index) well.wide _
  · exact waiting.peerPing.packs.scansUnwrapped (waiting.peerPing.fitting.peers index)
      waiting.peerPing.wide _

end Host

/-- With a checksum callback, or without one: every datagram that
`enet_protocol_send_outgoing_commands` sends for a peer respects its mtu, and none of
its computations of the room that is left wraps around. -/
def RespectsMtu (checksum : Option (List UInt8 → Nat)) : Prop :=
  ∀ (host : Host) (event : Option Event) (checkForTimeouts : Bool) (sendPass index : Nat)
    (filled : Host) (sentUnreliable : List OutgoingCommand),
    Visited (host, event) → host.checksum = checksum → 32 ≤ (host.peers index).mtu →
      host.Fills event checkForTimeouts sendPass index filled sentUnreliable →
        filled.Respects index ∧ host.TurnUnwrapped event checkForTimeouts index

theorem respectsMtu_none : RespectsMtu none := by
  intro host event checkForTimeouts sendPass index filled sentUnreliable visited none wide fills
  obtain ⟨within, unwrapped⟩ := fills.respects (Fitting.visited visited) wide
  refine ⟨⟨?_, within.commands, within.buffers⟩, unwrapped⟩
  have plain : filled.checksum = .none := fills.same.checksum.trans none
  have short := Host.sentBytes_le within index
  rw [plain] at short
  exact short

/-! ## A datagram with a checksum -/

/-- An unreliable packet of zeros. -/
def zeroPacket (address length : Nat) : Packet :=
  ⟨address, ⟨false, false, false, false⟩, List.replicate length 0⟩

/-- A host with two unreliable packets for its only peer, which fill a datagram. -/
def filledHost : Option Host :=
  calledHost (.create .ample (.delivering (fun _ => 1) connectDatagrams) 0 1 1 0 0)
    [.service (some noEvent) 0, .service (some noEvent) 0, .send 0 0 (zeroPacket 1000 1364),
      .send 0 0 (zeroPacket 1001 8)]

/-- What the check of the outgoing commands leaves of a peer of a host. -/
def Host.firstScan (host : Host) : OutgoingScan :=
  ((host.peers 0).setContinueSending false).checkOutgoingCommands host.heap Datagram.start []
    host.serviceTime

/-- The datagram of a connected peer that has nothing to acknowledge, and no ping due. -/
theorem Host.fills_of_connected {host : Host} (connected : (host.peers 0).state = .connected)
    (silent : (host.peers 0).acknowledgements.isEmpty = true)
    (waiting : ((host.peers 0).outgoingCommands.isEmpty &&
      (host.peers 0).outgoingSendReliableCommands.isEmpty) = false)
    (state : host.firstScan.peer.state = .connected)
    (recent : decide (host.firstScan.peer.pingInterval ≤
      timeDifference host.serviceTime host.firstScan.peer.lastReceiveTime) = false)
    (used : host.firstScan.datagram.commandCount ≠ 0) :
    ∃ filled sentUnreliable, host.Fills none false 0 0 filled sentUnreliable ∧
      filled.datagram = host.firstScan.datagram ∧
      filled.peers 0 = host.firstScan.finish ∧ filled.checksum = host.checksum ∧
      filled.compressor = host.compressor := by
  have turned : host.turned none false 0 = (host.emptied 0, none, false) := by
    have nothing : sendAcknowledgements 0 (host.peers 0).acknowledgements (host.emptied 0) =
        host.emptied 0 := by
      rw [List.isEmpty_iff.mp silent]
      rfl
    exact congrArg (fun started : Host => started.checkDueTimeouts none false 0) nothing
  have self : (host.emptied 0).peers 0 = (host.peers 0).setContinueSending false := setPeer_self ..
  have scan : (host.emptied 0).scanOutgoing 0 [] = host.firstScan := by
    unfold scanOutgoing firstScan
    rw [self]
    rfl
  have checks : (host.emptied 0).checkWaitingCommands 0 =
      ((host.emptied 0).installScan 0 host.firstScan, host.firstScan.sentUnreliable,
        host.firstScan.canPing) := by
    have busy : (((host.emptied 0).peers 0).outgoingCommands.isEmpty &&
        ((host.emptied 0).peers 0).outgoingSendReliableCommands.isEmpty) = false := by
      rw [self]
      exact waiting
    have stays : ¬(host.firstScan.finish.state = .disconnectLater ∧
        !host.firstScan.finish.hasOutgoingCommands ∧ host.firstScan.sentUnreliable.isEmpty) := by
      rintro ⟨later, -⟩
      have same : host.firstScan.finish.state = .connected := state
      rw [same] at later
      cases later
    unfold checkWaitingCommands
    dsimp only
    rw [busy, if_neg Bool.false_ne_true, ← scan]
    unfold checkOutgoingCommands
    rw [← scan] at stays
    exact congrArg (·, _, _) (if_neg stays)
  have quiet : ((host.emptied 0).installScan 0 host.firstScan).needsPing 0 = false := by
    have same : decide (host.firstScan.finish.pingInterval ≤ timeDifference host.serviceTime
      host.firstScan.finish.lastReceiveTime) = false := recent
    have installed : ((host.emptied 0).installScan 0 host.firstScan).peers 0 =
        host.firstScan.finish := setPeer_self ..
    have time : ((host.emptied 0).installScan 0 host.firstScan).serviceTime =
        host.serviceTime := rfl
    unfold needsPing
    dsimp only
    rw [installed, time, same, Bool.and_false, Bool.false_and]
  refine ⟨(host.emptied 0).installScan 0 host.firstScan, host.firstScan.sentUnreliable,
    ⟨?_, ?_, ?_, used⟩, rfl, setPeer_self .., rfl, rfl⟩
  · rw [connected]
    simp
  · rw [turned]
  · rw [turned]
    unfold fillDatagram
    rw [checks]
    dsimp only
    rw [quiet, Bool.and_false, if_neg Bool.false_ne_true]

theorem filledHost_spec :
    ∃ host, filledHost = some host ∧ Host.Reachable host ∧
      (host.peers 0).state = .connected ∧ (host.peers 0).acknowledgements.isEmpty = true ∧
      (host.peers 0).outgoingCommands.isEmpty = false ∧ (host.peers 0).mtu = 1392 ∧
      host.firstScan.peer.state = .connected ∧ host.firstScan.peer.mtu = 1392 ∧
      decide (host.firstScan.peer.pingInterval ≤
        timeDifference host.serviceTime host.firstScan.peer.lastReceiveTime) = false ∧
      host.firstScan.datagram.sentTime = false ∧
      host.firstScan.datagram.commandCount = 2 ∧
      (encodeParts host.firstScan.datagram.parts).length = 1388 := by
  have evaluated : filledHost.map (fun host =>
      (((host.peers 0).state, host.firstScan.peer.state),
        ((host.peers 0).acknowledgements.isEmpty, (host.peers 0).outgoingCommands.isEmpty,
          decide (host.firstScan.peer.pingInterval ≤
            timeDifference host.serviceTime host.firstScan.peer.lastReceiveTime),
          host.firstScan.datagram.sentTime),
        [(host.peers 0).mtu, host.firstScan.peer.mtu, host.firstScan.datagram.commandCount,
          (encodeParts host.firstScan.datagram.parts).length])) =
      some ((.connected, .connected), (true, false, false, false), [1392, 1392, 2, 1388]) := by
    decide +kernel
  obtain ⟨host, called, facts⟩ := Option.map_eq_some_iff.mp evaluated
  simp only [Prod.mk.injEq, List.cons.injEq, and_true] at facts
  obtain ⟨⟨connected, state⟩, ⟨silent, waiting, recent, plain⟩, mtu, mtu', count, size⟩ := facts
  exact ⟨host, called, calledHost_reachable (.create ..) called, connected, silent, waiting, mtu,
    state, mtu', recent, plain, count, size⟩

/-- Any checksum makes the datagram of these packets longer than the mtu. -/
theorem overfull (function : List UInt8 → Nat) :
    ∃ host filled sentUnreliable, Visited (host, none) ∧ host.checksum = some function ∧
      (host.peers 0).mtu = 1392 ∧ host.Fills none false 0 0 filled sentUnreliable ∧
      (filled.sentBytes 0).length = 1394 ∧ (filled.peers 0).mtu = 1392 := by
  obtain ⟨host, -, reachable, connected, silent, waiting, mtu, state, mtu', recent, plain,
    count, size⟩ := filledHost_spec
  let configured := host.configure 1392 0 1000 1000 (some function) none
  have still : Host.Reachable configured :=
    .call 5 (.configure 1392 0 1000 1000 (some function) none) reachable rfl
  have used : configured.firstScan.datagram.commandCount ≠ 0 := by
    rw [show configured.firstScan.datagram.commandCount = 2 from count]
    decide
  have busy : ((configured.peers 0).outgoingCommands.isEmpty &&
      (configured.peers 0).outgoingSendReliableCommands.isEmpty) = false := by
    rw [show (configured.peers 0).outgoingCommands.isEmpty = false from waiting, Bool.false_and]
  obtain ⟨filled, sentUnreliable, fills, datagram, peer, sums, plainly⟩ :=
    @Host.fills_of_connected configured connected silent busy state recent used
  have room : (filled.peers 0).mtu = configured.firstScan.peer.mtu := (congrArg Peer.mtu peer :)
  refine ⟨configured, filled, sentUnreliable, .of_reachable still rfl, rfl, mtu, fills, ?_,
    room.trans mtu'⟩
  have uncompressed : filled.compressed (filled.datagram.packetSize - 4)
      (encodeParts filled.datagram.parts) = none := by
    unfold Host.compressed
    rw [plainly]
    rfl
  rw [Host.length_sentBytes, uncompressed, sums, datagram,
    show configured.firstScan.datagram.sentTime = false from plain, Option.getD_none,
    show (encodeParts configured.firstScan.datagram.parts).length = 1388 from size]
  rfl

/-- **When datagrams respect the mtu**: exactly if the host has no checksum callback. -/
theorem datagrams_respect_mtu_iff (checksum : Option (List UInt8 → Nat)) :
    RespectsMtu checksum ↔ checksum = none := by
  constructor
  · intro respects
    cases given : checksum with
    | none => rfl
    | some function =>
        obtain ⟨host, filled, sentUnreliable, visited, same, mtu, fills, long, room⟩ :=
          overfull function
        have short := (respects host none false 0 0 filled sentUnreliable visited
          (same.trans given.symm) (by omega) fills).1.length
        omega
  · intro none
    rw [none]
    exact respectsMtu_none

/-- **With a checksum a datagram is longer than the mtu.** -/
theorem datagram_exceeds_mtu :
    ∃ host filled sentUnreliable, Visited (host, none) ∧
      host.Fills none false 0 0 filled sentUnreliable ∧ (filled.sentBytes 0).length = 1394 ∧
      (filled.peers 0).mtu = 1392 ∧ ¬∀ checksum, RespectsMtu checksum := by
  obtain ⟨host, filled, sentUnreliable, visited, same, mtu, fills, long, room⟩ :=
    overfull fun _ => 0
  refine ⟨host, filled, sentUnreliable, visited, fills, long, room, fun respects => ?_⟩
  have short := (respects _ host none false 0 0 filled sentUnreliable visited rfl
    (by omega) fills).1.length
  omega

end Enet
