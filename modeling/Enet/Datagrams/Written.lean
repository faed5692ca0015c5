import Enet.Datagrams.Parts
import Enet.Runs.Carrying

/-!
# What is written into a datagram

Every command of a datagram is followed by as many bytes as it announces, and the
header carries the sent time where a command of the datagram is to be
acknowledged. The loop that takes a datagram apart relies on both.
-/

set_option autoImplicit false

namespace Enet

/-! ## One datagram -/

/-- A datagram whose commands announce their data, and whose header has the sent time
that an acknowledgement repeats. -/
structure Datagram.Readable (datagram : Datagram) : Prop where
  announced : ∀ part ∈ datagram.parts, part.Announced
  timed : ∀ part ∈ datagram.parts, part.command.acknowledge = true → datagram.sentTime = true

namespace Datagram.Readable

variable {datagram : Datagram}

theorem start : Datagram.start.Readable :=
  ⟨fun _ member => absurd member List.not_mem_nil, fun _ member => absurd member List.not_mem_nil⟩

/-- A command placed in the datagram. -/
theorem push (readable : datagram.Readable) {part : Part} {sentTime : Bool}
    (announced : part.Announced)
    (times : sentTime = true ∨
      part.command.acknowledge = false ∧ sentTime = datagram.sentTime) (size : Nat) :
    ({ datagram with sentTime := sentTime }.push part size).Readable := by
  refine ⟨fun other member => ?_, fun other member acknowledged => ?_⟩
  · rcases List.mem_append.mp member with old | new
    · exact readable.announced other old
    · rw [List.mem_singleton.mp new]
      exact announced
  · rcases times with timed | ⟨unreliable, same⟩
    · exact timed
    · rcases List.mem_append.mp member with old | new
      · exact same.trans (readable.timed other old acknowledged)
      · rw [List.mem_singleton.mp new, unreliable] at acknowledged
        cases acknowledged

end Datagram.Readable

/-- A command is followed by the bytes of its packet that it names. -/
theorem OutgoingCommand.Carries.announced {outgoing : OutgoingCommand}
    (carries : outgoing.Carries) :
    Part.Announced ⟨outgoing.command, OutgoingScan.payload outgoing⟩ := by
  have named : outgoing.command.stored.command.dataLength =
      u16 outgoing.command.command.dataLength := Command.stored_dataLength _
  unfold Part.Announced OutgoingScan.payload
  dsimp only
  rw [named]
  cases packet : outgoing.packet with
  | none => exact (carries.bare packet).symm
  | some held =>
      have inside := carries.inside held packet
      have bytes : held.data.length = held.dataLength := rfl
      rw [carries.length (by rw [packet]; rfl), Option.map_some, Option.getD_some,
        List.length_take, List.length_drop, bytes]
      omega

/-! ## The loop over the commands -/

namespace OutgoingScan

/-- The datagram can be read, and every command that is queued names its data. -/
structure Writes (scan : OutgoingScan) : Prop where
  readable : scan.datagram.Readable
  carries : ∀ outgoing ∈ scan.pending, outgoing.Carries

namespace Writes

variable {scan : OutgoingScan}

/-- **A turn of the loop keeps the datagram readable.** -/
theorem step (writes : scan.Writes) (serviceTime : Nat) {reliable : Bool}
    {outgoing : OutgoingCommand} (found : scan.next = some (reliable, outgoing)) :
    (scan.step serviceTime reliable outgoing).1.Writes := by
  refine ⟨?_, fun other member => ?_⟩
  · rcases scan.step_datagram serviceTime reliable outgoing with
      same | ⟨-, sent, sentTime, core, times, pushed⟩
    · rw [same]
      exact writes.readable
    · have carries : sent.Carries := by
        refine .of_core ?_
        rw [core]
        exact writes.carries _ (next_pending found)
      rw [pushed]
      exact writes.readable.push carries.announced times _
  · exact writes.carries other (Multiset.mem_of_le (step_pending_le serviceTime found) member)

/-- **The loop keeps the datagram readable.** -/
theorem run (serviceTime fuel : Nat) : ∀ {scan : OutgoingScan}, scan.Writes →
    (OutgoingScan.run serviceTime fuel scan).Writes := by
  induction fuel with
  | zero => intro scan writes; exact writes
  | succ fuel ih =>
      intro scan writes
      unfold OutgoingScan.run
      split
      · exact writes
      next reliable outgoing found =>
          have steps := writes.step serviceTime found
          dsimp only
          split
          · exact ih steps
          · exact steps

end Writes

end OutgoingScan

/-! ## The turn of a peer -/

namespace Host

/-- What the turn of a peer needs to leave a datagram that can be read. -/
structure WritesFor (host : Host) : Prop where
  readable : host.datagram.Readable
  carrying : Carrying host

namespace WritesFor

variable {host : Host} {index : Nat}

/-- **The acknowledgements keep the datagram readable.** -/
theorem sendAcknowledgements (acknowledgements : List Acknowledgement) :
    ∀ {host : Host}, host.datagram.Readable →
      (Host.sendAcknowledgements index acknowledgements host).datagram.Readable := by
  induction acknowledgements with
  | nil => intro host readable; exact readable
  | cons acknowledgement rest ih =>
      intro host readable
      unfold Host.sendAcknowledgements
      dsimp only
      split
      · exact readable
      · refine ih ?_
        have pushed := @Datagram.Readable.push host.datagram readable
          ⟨⟨.acknowledge acknowledgement.command.reliableSequenceNumber
            (u16 acknowledgement.sentTime), false, false, acknowledgement.command.channelID,
            acknowledgement.command.reliableSequenceNumber⟩, none⟩ host.datagram.sentTime rfl
          (.inr ⟨rfl, rfl⟩) (commandSizes 1)
        split
        · rw [setPeer_datagram, dispatchState_datagram]
          exact pushed
        · exact pushed

theorem checkDueTimeouts (writes : host.WritesFor) {event : Option Event} {checkForTimeouts : Bool}
    (stays : (host.checkDueTimeouts event checkForTimeouts index).2.2 = false) :
    (host.checkDueTimeouts event checkForTimeouts index).1.WritesFor := by
  rcases checkDueTimeouts_cases stays with same | same
  · rw [same]
    exact writes
  · rw [same]
    exact ⟨writes.readable, writes.carrying.keep (Peer.checkTimeouts_pending ..)⟩

/-- **The check of the outgoing commands keeps the datagram readable.** -/
theorem checkOutgoingCommands (writes : host.WritesFor) (sentUnreliable : List OutgoingCommand) :
    (host.checkOutgoingCommands index sentUnreliable).1.WritesFor := by
  have carrying : Carrying (host.checkOutgoingCommands index sentUnreliable).1 :=
    @Carrying.sendRun (host, sentUnreliable) (_, _)
      (.single (.checkOutgoing host sentUnreliable index)) writes.carrying
  refine ⟨?_, carrying⟩
  have starts : (OutgoingScan.start (host.peers index) host.heap host.datagram
      sentUnreliable).Writes := ⟨writes.readable, writes.carrying index⟩
  have scanned : (host.scanOutgoing index sentUnreliable).datagram.Readable :=
    (starts.run host.serviceTime _).readable
  have installed : (host.installScan index
      (host.scanOutgoing index sentUnreliable)).datagram.Readable := scanned
  unfold Host.checkOutgoingCommands
  dsimp only
  split
  · rw [startDisconnect_datagram]
    exact installed
  · exact installed

theorem peerPing (writes : host.WritesFor) : (host.peerPing index).WritesFor := by
  have carrying : Carrying (host.peerPing index) :=
    @Carrying.sendRun (host, []) (_, []) (.peerPing host [] index) writes.carrying
  refine ⟨?_, carrying⟩
  rw [peerPing_datagram]
  exact writes.readable

theorem checkWaitingCommands (writes : host.WritesFor) :
    (host.checkWaitingCommands index).1.WritesFor := by
  unfold Host.checkWaitingCommands
  dsimp only
  split
  · exact writes
  · exact writes.checkOutgoingCommands []

theorem fillDatagram (writes : host.WritesFor) : (host.fillDatagram index).1.WritesFor := by
  unfold Host.fillDatagram
  dsimp only
  split
  · exact writes.checkWaitingCommands.peerPing.checkOutgoingCommands _
  · exact writes.checkWaitingCommands

end WritesFor

/-- **Every datagram that is filled can be read.** -/
theorem Fills.readable {host filled : Host} {event : Option Event} {checkForTimeouts : Bool}
    {sendPass index : Nat} {sentUnreliable : List OutgoingCommand}
    (fills : host.Fills event checkForTimeouts sendPass index filled sentUnreliable)
    (carrying : Carrying host) : filled.datagram.Readable := by
  have used : (host.peers index).state ≠ .disconnected := fun free => fills.due (.inl free)
  have started : (host.startDatagram index).WritesFor :=
    ⟨WritesFor.sendAcknowledgements _ .start,
      @Carrying.sendRun (host, []) (_, []) (.single (.startDatagram host index used)) carrying⟩
  have filling := @WritesFor.fillDatagram _ index (started.checkDueTimeouts fills.stays)
  have same : ((host.startDatagram index).checkDueTimeouts event checkForTimeouts
      index).1.fillDatagram index = (filled, sentUnreliable) := fills.fills
  rw [same] at filling
  exact filling.readable

end Host

end Enet
