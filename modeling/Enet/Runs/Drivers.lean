import Enet.Runs.Calls
import Enet.Runs.Queues

/-!
# What drives a peer on

A peer that is connecting, acknowledging a connection, disconnecting or
acknowledging a disconnection leaves that state by an item of its own: the
command that it retransmits until it is acknowledged or given up, or the
acknowledgement that it has yet to send. Each function keeps the item or leaves
the state, except for two received commands: a DISCONNECT command that asks for
an acknowledgement in a datagram without a sent time, and an acknowledgement of
the CONNECT command itself.
-/

set_option autoImplicit false

namespace Enet

open Relation

/-! ## Drivers -/

/-- Whether a command drives a peer out of a state. -/
def Protocol.drives (command : Protocol) (state : PeerState) : Bool :=
  command.acknowledge &&
    match state, command.command with
    | .connecting, .connect _ | .acknowledgingConnect, .verifyConnect _
    | .disconnecting, .disconnect _ => true
    | _, _ => false

/-- The states that a command drives a peer out of. -/
def PeerState.isTransitional : PeerState → Bool
  | connecting | acknowledgingConnect | disconnecting => true
  | _ => false

/-- The states in which a peer may have packets to send. -/
def PeerState.mayCarry : PeerState → Bool
  | connected | disconnectLater | zombie => true
  | _ => false

/-- A peer owns what drives it out of its state. -/
structure Driven (peer : Peer) : Prop where
  driver : peer.state.isTransitional = true →
    ∃ command, command.drives peer.state = true ∧ peer.Owns command
  acknowledgesDisconnect : peer.state = .acknowledgingDisconnect → peer.AcknowledgesDisconnect
  packetless : peer.state.mayCarry = false → peer.Packetless

theorem Protocol.acknowledge_of_drives {command : Protocol} {state : PeerState}
    (drives : command.drives state = true) : command.acknowledge = true :=
  ((Bool.and_eq_true ..).mp drives).1

theorem Protocol.drives_acknowledgingDisconnect (command : Protocol) :
    command.drives .acknowledgingDisconnect = false := by
  unfold drives
  cases command.command <;> exact Bool.and_false _

theorem Protocol.drives_stampCommand (command : Protocol) (state : PeerState)
    (number unreliableNumber group : Nat) :
    (Peer.stampCommand command number unreliableNumber group).drives state =
      command.drives state := by
  unfold drives Peer.stampCommand
  cases state <;> cases command.command <;> rfl

theorem PeerState.mayCarry_of_isTransitional {state : PeerState}
    (transitional : state.isTransitional = true) : state.mayCarry = false := by
  cases state <;> first | rfl | cases transitional

namespace Driven

variable {peer peer' : Peer}

/-- What keeps the commands, the acknowledgements and the state. -/
theorem keeps (driven : Driven peer) (state : peer'.state = peer.state)
    (acknowledgements : peer'.acknowledgements = peer.acknowledgements)
    (keeps : peer.KeepsCommands peer') : Driven peer' := by
  refine ⟨fun transitional => ?_, fun leaving => ?_, fun none => ?_⟩
  · rw [state] at transitional ⊢
    obtain ⟨command, drives, owns⟩ := driven.driver transitional
    exact ⟨command, drives, keeps.owns
      (driven.packetless (PeerState.mayCarry_of_isTransitional transitional)) command
      (Protocol.acknowledge_of_drives drives) owns⟩
  · rw [state] at leaving
    obtain ⟨acknowledgement, member, disconnect⟩ := driven.acknowledgesDisconnect leaving
    exact ⟨acknowledgement, acknowledgements ▸ member, disconnect⟩
  · rw [state] at none
    exact keeps.packetless (driven.packetless none)

theorem alike (driven : Driven peer) (alike : peer.Alike peer') : Driven peer' :=
  driven.keeps alike.state alike.acknowledgements (.of_alike alike)

/-- A peer in a state that needs nothing, with nothing but commands queued. -/
theorem of_packetless (steady : peer.state.isTransitional = false)
    (staying : peer.state ≠ .acknowledgingDisconnect) (packetless : peer.Packetless) :
    Driven peer := by
  refine ⟨fun transitional => ?_, fun leaving => absurd leaving staying, fun _ => packetless⟩
  rw [steady] at transitional
  cases transitional

/-- A peer in a state that may have packets to send. -/
theorem of_mayCarry (carries : peer.state.mayCarry = true) : Driven peer := by
  refine ⟨fun transitional => ?_, fun leaving => ?_, fun none => ?_⟩
  · rw [PeerState.mayCarry_of_isTransitional transitional] at carries
    cases carries
  · rw [leaving] at carries
    cases carries
  · rw [none] at carries
    cases carries

end Driven

theorem Peer.Packetless.of_queues {peer peer' : Peer} (packetless : peer.Packetless)
    (outgoing : peer'.outgoingCommands = peer.outgoingCommands)
    (reliable : peer'.outgoingSendReliableCommands = peer.outgoingSendReliableCommands)
    (sent : peer'.sentReliableCommands = peer.sentReliableCommands) : peer'.Packetless :=
  (KeepsCommands.of_queues outgoing reliable sent).packetless packetless

theorem Peer.Packetless.takenBy {peer peer' : Peer} (packetless : peer.Packetless)
    (takes : peer.TakenBy peer') : peer'.Packetless :=
  packetless.of_queues takes.outgoingCommands takes.outgoingSendReliableCommands
    takes.sentReliableCommands

theorem Peer.Packetless.of_empty {peer : Peer} (outgoing : peer.outgoingCommands = [])
    (reliable : peer.outgoingSendReliableCommands = [])
    (sent : peer.sentReliableCommands = []) : peer.Packetless := by
  refine ⟨?_, ?_, ?_⟩
  · rw [outgoing]
    exact List.forall_mem_nil _
  · rw [reliable]
    exact List.forall_mem_nil _
  · rw [sent]
    exact List.forall_mem_nil _

/-! ## Queueing -/

namespace Peer

theorem numberOutgoingCommand_queues (peer : Peer) (outgoing : OutgoingCommand) :
    (peer.numberOutgoingCommand outgoing).1.outgoingCommands = peer.outgoingCommands ∧
      (peer.numberOutgoingCommand outgoing).1.outgoingSendReliableCommands =
        peer.outgoingSendReliableCommands ∧
      (peer.numberOutgoingCommand outgoing).1.sentReliableCommands =
        peer.sentReliableCommands ∧
      (peer.numberOutgoingCommand outgoing).2.packet = outgoing.packet ∧
      (peer.numberOutgoingCommand outgoing).2.command = outgoing.command := by
  unfold numberOutgoingCommand
  split
  · exact ⟨rfl, rfl, rfl, rfl, rfl⟩
  · split
    · exact ⟨rfl, rfl, rfl, rfl, rfl⟩
    · split
      · exact ⟨rfl, rfl, rfl, rfl, rfl⟩
      · exact ⟨rfl, rfl, rfl, rfl, rfl⟩

theorem enqueueOutgoing_bare (peer : Peer) (outgoing : OutgoingCommand)
    (bare : outgoing.packet = none) :
    peer.enqueueOutgoing outgoing =
      peer.setOutgoing (peer.outgoingCommands ++ [outgoing]) peer.outgoingSendReliableCommands := by
  refine if_neg ?_
  rw [bare]
  simp

/-- A command without a packet goes to the end of `outgoingCommands`. -/
theorem setupOutgoingCommand_queues (peer : Peer) (totalQueued : Nat)
    {outgoing : OutgoingCommand} {queued : Protocol} (bare : outgoing.packet = none)
    (queues : outgoing.command = queued) :
    ∃ last : OutgoingCommand, last.packet = none ∧
      (∀ state, last.command.drives state = queued.drives state) ∧
      (peer.setupOutgoingCommand totalQueued outgoing).outgoingCommands =
        peer.outgoingCommands ++ [last] ∧
      (peer.setupOutgoingCommand totalQueued outgoing).outgoingSendReliableCommands =
        peer.outgoingSendReliableCommands ∧
      (peer.setupOutgoingCommand totalQueued outgoing).sentReliableCommands =
        peer.sentReliableCommands := by
  obtain ⟨kept, reliable, sent, packet, command⟩ :=
    (peer.countOutgoingData outgoing).numberOutgoingCommand_queues outgoing
  unfold setupOutgoingCommand
  generalize (peer.countOutgoingData outgoing).numberOutgoingCommand outgoing = numbered
    at kept reliable sent packet command ⊢
  refine ⟨stampOutgoing numbered.2 totalQueued numbered.1.outgoingUnsequencedGroup,
    packet.trans bare, fun state => ?_, ?_⟩
  · refine (Protocol.drives_stampCommand ..).trans ?_
    rw [command, queues]
  · have last := numbered.1.enqueueOutgoing_bare (stampOutgoing numbered.2 totalQueued
      numbered.1.outgoingUnsequencedGroup) (packet.trans bare)
    dsimp only
    rw [last]
    exact ⟨congrArg (· ++ _) kept, reliable, sent⟩

end Peer

namespace Host

/-- No allocation fails. -/
def Ample (host : Host) : Prop := ∀ allocation, host.heap.mallocSucceeds allocation = true

theorem Ample.malloc {host : Host} (ample : host.Ample) :
    host.heap.malloc = (host.heap.malloc.1, some host.heap.nextAddress) := by
  unfold Heap.malloc
  rw [if_pos (ample _)]

theorem Ample.of_acts {host host' : Host} {index : Nat} (ample : host.Ample)
    (acts : ActsOn index host host') : host'.Ample := by
  rw [Ample, acts.mallocs.mallocSucceeds]
  exact ample

/-- **A command without a packet is queued behind those that are queued.** -/
theorem queueOutgoingCommand_queues {host : Host} (index : Nat) (command : Protocol)
    (ample : host.Ample) :
    ∃ last : OutgoingCommand, last.packet = none ∧
      (∀ state, last.command.drives state = command.drives state) ∧
      ((host.queueOutgoingCommand index command none 0 0).1.peers index).outgoingCommands =
        (host.peers index).outgoingCommands ++ [last] ∧
      ((host.queueOutgoingCommand index command none 0 0).1.peers
          index).outgoingSendReliableCommands =
        (host.peers index).outgoingSendReliableCommands ∧
      ((host.queueOutgoingCommand index command none 0 0).1.peers index).sentReliableCommands =
        (host.peers index).sentReliableCommands := by
  unfold queueOutgoingCommand
  rw [ample.malloc]
  dsimp only
  rw [setupOutgoingCommand, setPeer_self]
  refine Peer.setupOutgoingCommand_queues _ _ ?_ ?_
  · rfl
  · rfl

end Host

/-! ## Functions of a peer -/

namespace Driven

variable {host host' : Host} {index : Nat}

theorem quiet (driven : Driven (host.peers index)) (quiet : Quiet host host') :
    Driven (host'.peers index) :=
  driven.alike (quiet.peers index)

theorem receivesFor (driven : Driven (host.peers index)) (receives : ReceivesFor index host host') :
    Driven (host'.peers index) :=
  driven.keeps receives.peer.state receives.peer.acknowledgements
    (.of_queues receives.peer.outgoingCommands receives.peer.outgoingSendReliableCommands
      receives.peer.sentReliableCommands)

/-- What is done for some peer. -/
theorem acts {other : Nat} (driven : Driven (host.peers index)) (acts : ActsOn other host host')
    (own : Driven (host.peers other) → Driven (host'.peers other)) :
    Driven (host'.peers index) := by
  by_cases same : index = other
  · subst same
    exact own driven
  · rw [acts.others index same]
    exact driven

theorem peerReset (host : Host) (index : Nat) : Driven ((host.peerReset index).peers index) := by
  obtain ⟨mtu, same⟩ := host.peerReset_peer index
  rw [same]
  exact of_packetless rfl (by decide : PeerState.disconnected ≠ _) (.of_empty rfl rfl rfl)

theorem dispatchState (host : Host) (index : Nat) {state : PeerState}
    (driven : Driven ((host.peers index).setState state)) :
    Driven ((host.dispatchState index state).peers index) := by
  rw [Host.dispatchState_peer]
  exact driven.keeps rfl rfl (.of_queues rfl rfl rfl)

theorem changeState (host : Host) (index : Nat) {state : PeerState}
    (driven : Driven ((host.peers index).setState state)) :
    Driven ((host.changeState index state).peers index) := by
  rw [Host.changeState_peer]
  exact driven

theorem resetQueues_packetless (host : Host) (index : Nat) :
    ((host.resetQueues index).peers index).Packetless := by
  rw [Host.resetQueues_peer]
  exact .of_empty rfl rfl rfl

/-- A packetless peer with a new command, in a state which the command drives it
out of. -/
theorem queueOutgoingCommand (host : Host) {index : Nat} {command : Protocol}
    (ample : host.Ample) (packetless : (host.peers index).Packetless)
    (drives : command.drives (host.peers index).state = true) :
    Driven ((host.queueOutgoingCommand index command none 0 0).1.peers index) := by
  obtain ⟨last, bare, same, queued, reliable, sent⟩ :=
    Host.queueOutgoingCommand_queues index command ample
  have state := (Host.queueOutgoingCommand_sendingOnly host index command none 0 0).state
  refine ⟨fun _ => ⟨last.command, ?_, last, ?_, rfl⟩, fun leaving => ?_, fun _ => ⟨?_, ?_, ?_⟩⟩
  · rw [state, same]
    exact drives
  · rw [queued]
    simp
  · rw [state] at leaving
    rw [leaving, Protocol.drives_acknowledgingDisconnect] at drives
    cases drives
  · rw [queued]
    intro outgoing member
    rcases List.mem_append.mp member with old | new
    · exact packetless.outgoing outgoing old
    · rw [List.mem_singleton.mp new]
      exact bare
  · rw [reliable]
    exact packetless.reliable
  · rw [sent]
    exact packetless.sent

/-- A maintenance command is queued behind what drives the peer. -/
theorem queueMaintenance (driven : Driven (host.peers index)) (command : Protocol)
    (ample : host.Ample) :
    Driven ((host.queueOutgoingCommand index command none 0 0).1.peers index) := by
  obtain ⟨last, bare, -, queued, reliable, sent⟩ :=
    Host.queueOutgoingCommand_queues index command ample
  have sends := Host.queueOutgoingCommand_sendingOnly host index command none 0 0
  refine driven.keeps sends.state sends.acknowledgements
    ⟨fun packetless => ⟨?_, ?_, ?_⟩, fun _ other _ owns => ?_⟩
  · rw [queued]
    intro outgoing member
    rcases List.mem_append.mp member with old | new
    · exact packetless.outgoing outgoing old
    · rw [List.mem_singleton.mp new]
      exact bare
  · rw [reliable]
    exact packetless.reliable
  · rw [sent]
    exact packetless.sent
  · obtain ⟨outgoing, member, same⟩ := owns
    refine ⟨outgoing, ?_, same⟩
    rw [queued, sent]
    rcases List.mem_append.mp member with old | old <;> simp [old]

/-- A disconnecting peer owns its DISCONNECT command. -/
theorem startDisconnect (host : Host) (index data : Nat) (ample : host.Ample) :
    Driven ((host.startDisconnect index data).peers index) := by
  unfold Host.startDisconnect
  dsimp only
  rw [Host.setPeer_self, Host.onDisconnect_peers]
  obtain ⟨last, bare, same, queued, reliable, sent⟩ :=
    Host.queueOutgoingCommand_queues index
      { command := .disconnect data
        acknowledge := true
        unsequenced := false
        channelID := 0xFF
        reliableSequenceNumber := 0 } (ample.of_acts (.resetQueues host index))
  have packetless := resetQueues_packetless host index
  refine ⟨fun _ => ⟨last.command, same _, last, ?_, rfl⟩, fun leaving => (by cases leaving),
    fun _ => ⟨?_, ?_, ?_⟩⟩
  · refine List.mem_append_left _ ?_
    exact queued ▸ List.mem_append_right _ (List.mem_singleton.mpr rfl)
  · intro outgoing member
    rcases List.mem_append.mp (queued ▸ member : outgoing ∈ _ ++ [last]) with old | new
    · exact packetless.outgoing outgoing old
    · rw [List.mem_singleton.mp new]
      exact bare
  · exact fun outgoing member => packetless.reliable outgoing (reliable ▸ member)
  · exact fun outgoing member => packetless.sent outgoing (sent ▸ member)

theorem notifyConnect (event : Option Event)
    (packetless : (host.peers index).Packetless) :
    Driven ((host.notifyConnect index event).1.peers index) := by
  cases event with
  | some event => exact changeState host.recalculate index (of_mayCarry rfl)
  | none =>
      refine dispatchState host.recalculate index ?_
      split
      · exact of_packetless rfl (by decide : PeerState.connectionSucceeded ≠ _)
          (packetless.of_queues rfl rfl rfl)
      · exact of_packetless rfl (by decide : PeerState.connectionPending ≠ _)
          (packetless.of_queues rfl rfl rfl)

theorem notifyDisconnect (host : Host) (index : Nat) (event : Option Event) :
    Driven ((host.notifyDisconnect index event).1.peers index) := by
  unfold Host.notifyDisconnect
  dsimp only
  split
  · exact peerReset _ index
  · cases event with
    | some event => exact peerReset _ index
    | none => exact dispatchState _ index (of_mayCarry rfl)

end Driven

/-! ## Commands that strand a peer -/

/-- After this command the peer owns nothing that drives it out of its state: a
DISCONNECT command that is to be acknowledged, in a datagram without a sent time;
or an acknowledgement that takes its CONNECT command. -/
def Peer.isStrandedBy (peer : Peer) (serviceTime : Nat) (command : Protocol)
    (sentTime : Bool) : Bool :=
  match command.command with
  | .disconnect _ => peer.state.isConnected && command.acknowledge && !sentTime
  | .acknowledge received sent =>
    decide (peer.state = .connecting) &&
      !timeLess serviceTime (Host.receivedSentTime serviceTime sent) &&
      (peer.takeSentReliableCommand received command.channelID).2.any fun outgoing =>
        outgoing.command.drives .connecting
  | _ => false

/-- A received command that stranded its peer. -/
def Observation.strands : Observation → Bool
  | .command _ heard => heard.before.isStrandedBy heard.serviceTime heard.command heard.sentTime
  | _ => false

namespace Driven

variable {host host' : Host} {index : Nat}

/-- An acknowledgement takes a command that does not drive the peer. -/
theorem removeSentReliableCommand (driven : Driven (host.peers index)) (number channelID : Nat)
    (other : ∀ outgoing, ((host.peers index).takeSentReliableCommand number channelID).2 =
      some outgoing → outgoing.command.drives (host.peers index).state = false) :
    Driven ((host.removeSentReliableCommand index number channelID).1.peers index) := by
  have sends := SendsFor.removeSentReliableCommand host index number channelID
  unfold Host.removeSentReliableCommand at sends ⊢
  split
  · exact driven
  next peer outgoing removed =>
      rw [removed] at sends
      have peers := sends.peer
      dsimp only at peers ⊢
      rw [Host.setPeer_self] at peers ⊢
      obtain ⟨taken, keeps⟩ := Peer.removeSentReliableCommand_queues (congrArg Prod.snd removed)
      rw [removed] at keeps
      refine ⟨fun transitional => ?_, fun leaving => ?_, fun none => ?_⟩
      · rw [peers.state] at transitional ⊢
        have packetless := driven.packetless (PeerState.mayCarry_of_isTransitional transitional)
        obtain ⟨command, drives, driver, member, rfl⟩ := driven.driver transitional
        refine ⟨driver.command, drives, ?_⟩
        rcases Peer.takeSentReliableCommand_keeps (host.peers index) number channelID member
          with found | left
        · rw [other driver found] at drives
          cases drives
        · exact keeps.owns (packetless.takeSentReliableCommand number channelID) driver.command
            (Protocol.acknowledge_of_drives drives) ⟨driver, left, rfl⟩
      · rw [peers.state] at leaving
        obtain ⟨acknowledgement, member, disconnect⟩ := driven.acknowledgesDisconnect leaving
        exact ⟨acknowledgement, peers.acknowledgements ▸ member, disconnect⟩
      · rw [peers.state] at none
        exact keeps.packetless ((driven.packetless none).takeSentReliableCommand number channelID)

/-- What the removal returns is the number of the command it takes. -/
theorem removeSentReliableCommand_number {number channelID : Nat} {outgoing : OutgoingCommand}
    (taken : ((host.peers index).takeSentReliableCommand number channelID).2 = some outgoing) :
    (host.removeSentReliableCommand index number channelID).2 =
      outgoing.command.command.number := by
  unfold Host.removeSentReliableCommand Peer.removeSentReliableCommand
  dsimp only
  rw [taken]

theorem packetless_removeSent (packetless : (host.peers index).Packetless)
    (number channelID : Nat) :
    ((host.removeSentReliableCommand index number channelID).1.peers index).Packetless := by
  unfold Host.removeSentReliableCommand
  split
  · exact packetless
  next peer outgoing removed =>
      obtain ⟨-, keeps⟩ := Peer.removeSentReliableCommand_queues (congrArg Prod.snd removed)
      rw [removed] at keeps
      dsimp only
      rw [Host.setPeer_self]
      exact keeps.packetless (packetless.takeSentReliableCommand number channelID)

theorem handleAcknowledge (driven : Driven (host.peers index)) (ample : host.Ample)
    (event : Option Event) (channelID received sentTime : Nat)
    (unstranded : (host.peers index).state = .connecting →
      timeLess host.serviceTime (Host.receivedSentTime host.serviceTime sentTime) = false →
      ∀ outgoing, ((host.peers index).takeSentReliableCommand received channelID).2 =
        some outgoing → outgoing.command.drives .connecting = false) :
    Driven ((host.handleAcknowledge event index channelID received sentTime).1.peers index) := by
  unfold Host.handleAcknowledge
  dsimp only
  split
  · exact driven
  · split
    · exact driven
    next inTime =>
        have alike := Peer.Alike.updateRoundTripTime (host.peers index) host.serviceTime
          (max (timeDifference host.serviceTime
            (Host.receivedSentTime host.serviceTime sentTime)) 1)
        have same : (((host.peers index).updateRoundTripTime host.serviceTime
            (max (timeDifference host.serviceTime (Host.receivedSentTime host.serviceTime
              sentTime)) 1)).takeSentReliableCommand received channelID).2 =
            ((host.peers index).takeSentReliableCommand received channelID).2 := by
          unfold Peer.takeSentReliableCommand
          rw [alike.sentReliableCommands, alike.outgoingCommands,
            alike.outgoingSendReliableCommands]
          split
          · rfl
          · split
            · rfl
            · split <;> rfl
        generalize updated : host.setPeer index ((host.peers index).updateRoundTripTime
          host.serviceTime _) = timed
        have state : (timed.peers index).state = (host.peers index).state := by
          rw [← updated, Host.setPeer_self]
          exact alike.state
        have times : Driven (timed.peers index) := by
          rw [← updated, Host.setPeer_self]
          exact driven.alike alike
        have taken : ((timed.peers index).takeSentReliableCommand received channelID).2 =
            ((host.peers index).takeSentReliableCommand received channelID).2 := by
          rw [← updated, Host.setPeer_self]
          exact same
        have sends := SendsFor.removeSentReliableCommand timed index received channelID
        have ampleTimed : timed.Ample := updated ▸ ample
        have bare := fun quiet : (timed.peers index).state.mayCarry = false =>
          packetless_removeSent (times.packetless quiet) received channelID
        -- the command taken is not the driver, or it is and the state is left
        unfold Host.settleAcknowledge
        rw [sends.peer.state]
        split
        next acknowledging =>
            split
            next other =>
                refine times.removeSentReliableCommand received channelID fun outgoing found => ?_
                rw [removeSentReliableCommand_number found] at other
                rw [acknowledging]
                unfold Protocol.drives
                cases kind : outgoing.command.command <;> rw [kind] at other <;>
                  first | exact Bool.and_false _ | exact absurd rfl other
            · exact notifyConnect event (bare (by rw [acknowledging]; rfl))
        next disconnecting =>
            split
            next other =>
                refine times.removeSentReliableCommand received channelID fun outgoing found => ?_
                rw [removeSentReliableCommand_number found] at other
                rw [disconnecting]
                unfold Protocol.drives
                cases kind : outgoing.command.command <;> rw [kind] at other <;>
                  first | exact Bool.and_false _ | exact absurd rfl other
            · exact notifyDisconnect _ index event
        next later =>
            split
            · exact of_mayCarry (by rw [sends.peer.state, later]; rfl)
            · exact startDisconnect _ index _ (ampleTimed.of_acts sends.acts)
        next first second third =>
            refine times.removeSentReliableCommand received channelID fun outgoing found => ?_
            rw [taken] at found
            cases here : (timed.peers index).state with
            | connecting =>
                exact unstranded (state.symm.trans here) (by simpa using inTime) outgoing found
            | acknowledgingConnect => exact absurd here first
            | disconnecting => exact absurd here second
            | _ =>
                unfold Protocol.drives
                cases outgoing.command.command <;> exact Bool.and_false _

theorem handleVerifyConnect (driven : Driven (host.peers index)) (event : Option Event)
    (fields : VerifyConnect) :
    Driven ((host.handleVerifyConnect event index fields).1.peers index) := by
  unfold Host.handleVerifyConnect
  dsimp only
  split
  · exact driven
  next connecting =>
      rw [not_not] at connecting
      split
      · exact dispatchState _ index (of_mayCarry rfl)
      · refine notifyConnect event ?_
        rw [Host.setPeer_self]
        exact (packetless_removeSent (driven.packetless (by rw [connecting]; rfl)) 1
          0xFF).of_queues rfl rfl rfl

/-- A received DISCONNECT command: the peer is free or lost, or it owes an
acknowledgement, of which nothing keeps it. -/
theorem handleDisconnect (driven : Driven (host.peers index)) (command : Protocol) (data : Nat) :
    Driven ((host.handleDisconnect index command data).1.peers index) ∨
      (host.peers index).state.isConnected = true ∧ command.acknowledge = true ∧
        ((host.handleDisconnect index command data).1.peers index).state =
          .acknowledgingDisconnect ∧
        ((host.handleDisconnect index command data).1.peers index).Packetless ∧
        ((host.handleDisconnect index command data).1.peers index).channelCount = 0 := by
  have settles : ∀ before : Host, Driven (before.peers index) →
      Driven ((if (before.peers index).state ≠ .disconnected then
        (before.setPeer index ((before.peers index).setEventData data), false)
        else (before, false)).1.peers index) := by
    intro before driven
    split
    · rw [Host.setPeer_self]
      exact driven.keeps rfl rfl (.of_queues rfl rfl rfl)
    · exact driven
  unfold Host.handleDisconnect
  dsimp only
  split
  · exact .inl driven
  · unfold Host.leaveConnection
    split
    · exact .inl (settles _ (dispatchState _ index (of_mayCarry rfl)))
    · split
      · refine .inl (settles _ ?_)
        split
        · exact peerReset _ index
        · exact peerReset _ index
      next connected =>
          split
          next acknowledge =>
              refine .inr ⟨by simpa using connected, acknowledge, ?_⟩
              rw [Host.changeState_peer, Host.resetQueues_peer]
              split
              · rw [Host.setPeer_self]
                exact ⟨rfl, .of_empty rfl rfl rfl, rfl⟩
              next free => exact absurd (by decide : PeerState.acknowledgingDisconnect ≠ _) free
          · exact .inl (settles _ (dispatchState _ index (of_mayCarry rfl)))

/-- One more acknowledgement. -/
theorem acknowledges {command : Protocol} (driven : Driven (host.peers index))
    (acknowledges : Acknowledges index command host host') : Driven (host'.peers index) := by
  cases acknowledges with
  | kept mallocs => exact driven
  | queued sentTime mallocs allowed =>
      rw [Host.setPeer_self]
      refine ⟨driven.driver, fun leaving => ?_, fun none => ?_⟩
      · obtain ⟨acknowledgement, member, disconnect⟩ := driven.acknowledgesDisconnect leaving
        exact ⟨acknowledgement, List.mem_append_left _ member, disconnect⟩
      · exact (driven.packetless none).of_queues rfl rfl rfl

/-- A DISCONNECT command is acknowledged where the datagram has a sent time. -/
theorem acknowledgeStage_disconnect {command : Protocol} {data : Nat} (sentTime : Nat)
    (ample : host.Ample) (disconnect : command.command = .disconnect data)
    (acknowledge : command.acknowledge = true)
    (leaving : (host.peers index).state = .acknowledgingDisconnect)
    (packetless : (host.peers index).Packetless)
    (channelCount : (host.peers index).channelCount = 0) :
    Driven ((host.acknowledgeStage index command (some sentTime)).1.peers index) := by
  have queues : (host.acknowledgeStage index command (some sentTime)).1.peers index =
      (host.peers index).addAcknowledgement ⟨sentTime, command⟩ := by
    unfold Host.acknowledgeStage Host.acknowledgeCommand Host.queueAcknowledgement
    simp only [acknowledge, leaving, disconnect, channelCount, Nat.not_lt_zero, false_and,
      if_true, if_false]
    rw [ample.malloc]
    exact Host.setPeer_self ..
  rw [queues]
  refine ⟨fun transitional => ?_, fun _ => ?_, fun _ => packetless.of_queues rfl rfl rfl⟩
  · rw [show ((host.peers index).addAcknowledgement ⟨sentTime, command⟩).state =
      (host.peers index).state from rfl, leaving] at transitional
    cases transitional
  · exact ⟨⟨sentTime, command⟩, List.mem_append_right _ (List.mem_singleton.mpr rfl),
      by rw [disconnect]; rfl⟩

/-- A handled command other than DISCONNECT, and one that strands nobody. -/
theorem handleCommand (driven : Driven (host.peers index)) (ample : host.Ample)
    (event : Option Event) (command : Protocol) (data : List UInt8) (sentTime : Bool)
    (unstranded : (host.peers index).isStrandedBy host.serviceTime command sentTime = false)
    (other : command.command.isDisconnect = false) :
    Driven ((host.handleCommand event index command data).1.peers index) := by
  by_cases carries : command.command.isData = true
  · exact driven.receivesFor (ReceiveRun.handleCommand host event index command data
      false carries).1.receivesFor
  · unfold Host.handleCommand
    dsimp only
    split
    next received sent same =>
        refine driven.handleAcknowledge ample event command.channelID received sent ?_
        intro connecting inTime outgoing found
        unfold Peer.isStrandedBy at unstranded
        simpa [same, connecting, inTime, found] using unstranded
    · exact driven
    · exact driven.handleVerifyConnect event _
    next same => rw [same] at other; cases other
    · exact driven
    case h_10 =>
      unfold Host.handleBandwidthLimit
      dsimp only
      split
      · exact driven
      · rw [Host.setPeer_self]
        exact driven.keeps rfl rfl (.of_queues rfl rfl rfl)
    case h_11 =>
      unfold Host.handleThrottleConfigure
      dsimp only
      split
      · exact driven
      · rw [Host.setPeer_self]
        exact driven.keeps rfl rfl (.of_queues rfl rfl rfl)
    all_goals
      rename_i same
      rw [same] at carries
      exact absurd rfl carries

theorem handleDisconnect_accepts (host : Host) (index : Nat) (command : Protocol)
    (data : Nat) : (host.handleDisconnect index command data).2 = false := by
  unfold Host.handleDisconnect
  dsimp only
  split
  · rfl
  · split <;> rfl

/-- **A received command that does not strand its peer leaves it driven.** -/
theorem commandStep (driven : Driven (host.peers index)) (ample : host.Ample)
    (event : Option Event) (sentTime : Option Nat) (command : Protocol) (data : List UInt8)
    (unstranded : (host.peers index).isStrandedBy host.serviceTime command sentTime.isSome =
      false) :
    Driven ((host.commandStep event index sentTime command data).1.peers index) := by
  unfold Host.commandStep
  dsimp only
  generalize seen : host.hear index command data sentTime.isSome = observed
  have kept : Driven (observed.peers index) := seen ▸ driven
  have ampleObserved : observed.Ample := seen ▸ ample
  have strandsNot : (observed.peers index).isStrandedBy observed.serviceTime command
      sentTime.isSome = false := seen ▸ unstranded
  have ampleHandled := ampleObserved.of_acts (.handleCommand observed event index command data)
  cases disconnects : command.command.isDisconnect with
  | false =>
      have handles := kept.handleCommand ampleObserved event command data sentTime.isSome
        strandsNot disconnects
      split
      next handled => rw [handled] at handles; exact handles
      next handled =>
          rw [handled] at handles
          exact handles.acknowledges (.acknowledgeStage ..)
  | true =>
      cases same : command.command with
      | disconnect reason =>
          have handled : observed.handleCommand event index command data =
              ((observed.handleDisconnect index command reason).1, event, false) := by
            unfold Host.handleCommand
            rw [same]
            dsimp only
            rw [handleDisconnect_accepts]
          rw [handled] at ampleHandled ⊢
          rcases kept.handleDisconnect command reason with handles | waits
          · exact handles.acknowledges (.acknowledgeStage ..)
          · obtain ⟨connected, acknowledge, leaving, packetless, channelCount⟩ := waits
            cases sentTime with
            | none =>
                unfold Peer.isStrandedBy at strandsNot
                rw [same, connected, acknowledge] at strandsNot
                cases strandsNot
            | some time =>
                exact acknowledgeStage_disconnect time ampleHandled same acknowledge leaving
                  packetless channelCount
      | _ => rw [same] at disconnects; cases disconnects

/-! ## Sending, connecting and dispatching -/

/-- A peer that acknowledges a disconnection owes the acknowledgement until it is
sent, and with it the peer is gone. -/
theorem sendAcknowledgements (index : Nat) (acknowledgements : List Acknowledgement) :
    ∀ {host : Host}, Driven (host.peers index) →
      (host.peers index).acknowledgements = acknowledgements →
        Driven ((Host.sendAcknowledgements index acknowledgements host).peers index) := by
  induction acknowledgements with
  | nil => intro host driven _; exact driven
  | cons acknowledgement rest ih =>
      intro host driven owed
      unfold Host.sendAcknowledgements
      dsimp only
      split
      · rw [Host.setPeer_self]
        exact driven.alike (.setContinueSending _ _)
      · refine ih ?_ (by rw [Host.setPeer_self]; rfl)
        rw [Host.setPeer_self]
        split
        · rw [Host.dispatchState_peer]
          exact of_mayCarry rfl
        next other =>
            refine ⟨driven.driver, fun leaving => ?_, fun none =>
              (driven.packetless none).of_queues rfl rfl rfl⟩
            obtain ⟨left, member, disconnect⟩ := driven.acknowledgesDisconnect leaving
            rcases List.mem_cons.mp (owed ▸ member) with first | later
            · rw [first] at disconnect
              cases same : acknowledgement.command.command with
              | disconnect data => exact absurd same (other data)
              | _ => rw [same] at disconnect; cases disconnect
            · exact ⟨left, later, disconnect⟩

theorem checkOutgoingCommands (driven : Driven (host.peers index)) (ample : host.Ample)
    (sentUnreliable : List OutgoingCommand) :
    Driven ((host.checkOutgoingCommands index sentUnreliable).1.peers index) := by
  have acts : ∀ datagram peer, ActsOn index host
      (((host.setHeap ((host.peers index).checkOutgoingCommands host.heap host.datagram
        sentUnreliable host.serviceTime).heap).setDatagram datagram).setPeer index peer) :=
    fun _ _ => .of_setPeer rfl rfl (Peer.checkOutgoingCommands_grows ..) rfl
  unfold Host.checkOutgoingCommands
  dsimp only
  split
  · exact startDisconnect _ index _ (ample.of_acts (acts _ _))
  · rw [Host.setPeer_self]
    have sends := Peer.SendingOnly.checkOutgoingCommands (host.peers index) host.heap
      host.datagram sentUnreliable host.serviceTime
    exact driven.keeps sends.state sends.acknowledgements (.checkOutgoingCommands ..)

theorem removeSentUnreliableCommands (driven : Driven (host.peers index)) (ample : host.Ample)
    (sentUnreliable : List OutgoingCommand) :
    Driven ((host.removeSentUnreliableCommands index sentUnreliable).peers index) := by
  have acts := ActsOn.setHeap index host
    (Heap.foldl_grows _ Heap.removeOutgoing_grows sentUnreliable host.heap)
  unfold Host.removeSentUnreliableCommands
  split
  · exact driven
  · dsimp only
    split
    · exact startDisconnect _ index _ (ample.of_acts acts)
    · exact driven

theorem sendStep {before after : Sending} (step : SendStep before after)
    (driven : Driven (before.1.peers index)) (ample : before.1.Ample) :
    Driven (after.1.peers index) := by
  cases step with
  | quiet sentUnreliable quiet => exact driven.quiet quiet
  | startDatagram host other used =>
      refine driven.acts (.startDatagram host other) fun own => sendAcknowledgements other _ ?_ ?_
      · rw [Host.setPeer_self]
        exact own.alike (.setContinueSending _ _)
      · rfl
  | queue host sentUnreliable other command maintenance =>
      exact driven.acts (.queueOutgoingCommand ..) fun own => own.queueMaintenance command ample
  | checkOutgoing host sentUnreliable other =>
      exact driven.acts (.checkOutgoingCommands ..) fun own =>
        own.checkOutgoingCommands ample sentUnreliable
  | removeSent host sentUnreliable other =>
      exact driven.acts (.removeSentUnreliableCommands ..) fun own =>
        own.removeSentUnreliableCommands ample sentUnreliable

theorem checkTimeouts (driven : Driven (host.peers index)) (event : Option Event) :
    Driven ((host.checkTimeouts index event).1.peers index) := by
  unfold Host.checkTimeouts
  dsimp only
  split
  · exact notifyDisconnect _ index event
  · rw [Host.setPeer_self]
    have sends := Peer.SendingOnly.checkTimeouts (host.peers index) host.serviceTime
    exact driven.keeps sends.state sends.acknowledgements (.checkTimeouts ..)

theorem hostConnect (driven : Driven (host.peers index)) (ample : host.Ample)
    (address : Address) (channelCount data : Nat) :
    Driven ((host.hostConnect address channelCount data).1.peers index) := by
  cases free : host.freePeer with
  | none =>
      unfold Host.hostConnect
      rw [free]
      exact driven
  | some slot =>
      have disconnected := Host.freePeer_disconnected free
      refine driven.acts (.hostConnect address channelCount data free) fun own => ?_
      have packetless := own.packetless (by rw [disconnected]; rfl)
      have seeds : ActsOn slot host (host.setHeap host.heap.malloc.1).random.1 :=
        (ActsOn.setHeap slot host (Heap.malloc_grows _)).trans (.setRandomSeed slot _ _)
      have kept := (Quiet.random (host.setHeap host.heap.malloc.1)).peers slot
      unfold Host.hostConnect
      rw [free, ample.malloc]
      dsimp only
      generalize (host.setHeap host.heap.malloc.1).random = random at seeds kept ⊢
      have bare := (Peer.KeepsCommands.of_alike kept).packetless packetless
      refine queueOutgoingCommand _
        (ample.of_acts ((seeds.trans (.observe _ slot rfl)).trans (.setPeer _ slot _))) ?_ ?_
      · rw [Host.setPeer_self]
        exact bare.takenBy (Host.connectingPeer_takes ..)
      · rw [Host.setPeer_self]
        rfl

theorem handleConnect (driven : Driven (host.peers index)) (ample : host.Ample)
    (fields : Connect) : Driven ((host.handleConnect fields).1.peers index) := by
  cases free : host.freePeer with
  | none =>
      unfold Host.handleConnect
      rw [free]
      split <;> exact driven
  | some slot =>
      have disconnected := Host.freePeer_disconnected free
      refine driven.acts (.handleConnect fields free) fun own => ?_
      have packetless := own.packetless (by rw [disconnected]; rfl)
      unfold Host.handleConnect
      rw [free, ample.malloc]
      split
      · exact own
      · dsimp only
        split
        · exact own
        · refine queueOutgoingCommand _ ample ?_ ?_
          · rw [Host.setPeer_self]
            exact packetless.takenBy (Host.acceptedPeer_takes ..)
          · rw [Host.setPeer_self]
            rfl

/-- Packets are taken from a connected peer only. -/
theorem peerSend (driven : Driven (host.peers index)) (channelID : Nat) (packet : Packet) :
    Driven ((host.peerSend index channelID packet).1.peers index) := by
  by_cases connected : (host.peers index).state = .connected
  · refine of_mayCarry ?_
    rw [(SendsFor.peerSend host index channelID packet).peer.state, connected]
    rfl
  · unfold Host.peerSend
    dsimp only
    rw [if_pos (.inl connected)]
    exact driven

theorem dispatchTurn (driven : Driven (host.peers index)) (event : Event) :
    Driven ((host.dispatchTurn index event).1.peers index) := by
  unfold Host.dispatchTurn
  dsimp only
  generalize taken : (host.setDispatchQueue (host.dispatchQueue.remove (.peer index))).setPeer index
    _ = popped
  have takes : Driven (popped.peers index) := by
    rw [← taken, Host.setPeer_self]
    exact driven.keeps rfl rfl (.of_queues rfl rfl rfl)
  split
  · exact changeState popped index (of_mayCarry rfl)
  · exact changeState popped index (of_mayCarry rfl)
  · exact peerReset _ index
  · have receives := ReceivesFor.peerReceive popped index
    split
    next received =>
        rw [received] at receives
        exact takes.receivesFor receives
    next received =>
        rw [received] at receives
        have kept := takes.receivesFor receives
        dsimp only
        split
        · exact kept
        · rw [Host.scheduleDispatch_peer]
          exact kept.keeps rfl rfl (.of_queues rfl rfl rfl)
  · exact takes

end Driven

/-! ## Runs without a stranding command -/

/-- No allocation of the host fails, and no received command stranded a peer. -/
structure Undisturbed (host : Host) : Prop where
  ample : host.Ample
  unstranded : ∀ seen ∈ host.history, seen.strands = false

namespace Undisturbed

/-- What disturbs a run at its start disturbs it to its end. -/
theorem before {host host' : Host} (undisturbed : Undisturbed host')
    (extended : Extends host host') : Undisturbed host := by
  obtain ⟨seen, history⟩ := extended.history
  refine ⟨?_, fun observation member => ?_⟩
  · rw [Host.Ample, ← extended.mallocs.mallocSucceeds]
    exact undisturbed.ample
  · exact undisturbed.unstranded observation
      (by rw [history]; exact List.mem_append_left _ member)

theorem sends {before after : Sending} {index : Nat} (run : SendRun before after) :
    Undisturbed after.1 → Driven (before.1.peers index) → Driven (after.1.peers index) := by
  induction run with
  | refl => exact fun _ driven => driven
  | tail _ step ih =>
      intro undisturbed driven
      have earlier := undisturbed.before (.sendStep step)
      exact Driven.sendStep step (ih earlier driven) earlier.ample

end Undisturbed

/-- **A step that strands nobody leaves every peer driven.** -/
theorem driven_of_step {before after : Activity} {index : Nat} (step : Step before after)
    (undisturbed : Undisturbed after.1) (driven : Driven (before.1.peers index)) :
    Driven (after.1.peers index) := by
  have earlier := undisturbed.before (.step step)
  cases step with
  | send event sends => exact Undisturbed.sends sends undisturbed driven
  | command host event other sentTime command data current =>
      refine driven.acts (.commandStep ..) fun own => own.commandStep earlier.ample event sentTime
        command data ?_
      -- the command is among what was seen
      have acts := ActsOn.handleCommand (host.hear other command data sentTime.isSome) event other
        command data
      have seen : Observation.command other (host.heard other command data sentTime.isSome) ∈
          (host.commandStep event other sentTime command data).1.history := by
        have observed : Extends (host.hear other command data sentTime.isSome)
            (host.commandStep event other sentTime command data).1 := by
          unfold Host.commandStep
          dsimp only
          split
          next handled => rw [handled] at acts; exact .of_acts acts
          next handled =>
              rw [handled] at acts
              exact (Extends.of_acts acts).trans
                (.of_acts (Acknowledges.acknowledgeStage _ other command sentTime).acts)
        obtain ⟨more, history⟩ := observed.history
        rw [history]
        simp [Host.hear]
      exact undisturbed.unstranded _ seen
  | accept host event fields fresh => exact driven.handleConnect earlier.ample fields
  | timeouts host event other fresh =>
      exact driven.acts (.checkTimeouts ..) fun own => own.checkTimeouts event
  | dispatch host event other first fresh =>
      exact driven.acts (.dispatchTurn ..) fun own => own.dispatchTurn event
  | connect host address channelCount data =>
      exact driven.hostConnect earlier.ample address channelCount data
  | packet host other channelID packet =>
      exact driven.acts (.peerSend ..) fun own => own.peerSend channelID packet
  | receive host other =>
      exact driven.acts (.peerReceive ..) fun own => own.receivesFor (.peerReceive host other)
  | reset host other => exact driven.acts (.peerReset ..) fun _ => .peerReset host other
  | startDisconnect host other data connected =>
      exact driven.acts (.startDisconnect ..) fun _ =>
        .startDisconnect host other data earlier.ample
  | disconnectLater host other data connected =>
      refine driven.acts (.setPeer ..) fun _ => ?_
      rw [Host.setPeer_self]
      exact .of_mayCarry rfl
  | abandon host other data sends =>
      by_cases same : index = other
      · subst same
        exact .peerReset _ index
      · have leaves := (ActsOn.resetQueues host other).trans
          (.queueOutgoingCommand _ other (Host.disconnectCommand data) none 0 0)
        have kept := Undisturbed.sends sends (undisturbed.before (.of_acts (.peerReset ..)))
          (by rw [leaves.others index same]; exact driven)
        exact kept.acts (.peerReset ..) fun _ => .peerReset _ other
  | discard host packet unreferenced => exact driven
  | configure host => exact driven

theorem driven_of_visited {activity : Activity} (visited : Visited activity) (index : Nat) :
    Undisturbed activity.1 → Driven (activity.1.peers index) :=
  visited.keeps (fun activity => Undisturbed activity.1 → Driven (activity.1.peers index))
    (fun _ _ _ _ _ _ _ _ _ _ =>
      .of_packetless rfl (by decide : PeerState.disconnected ≠ _) (.of_empty rfl rfl rfl))
    (fun driven _ => driven)
    fun step driven undisturbed =>
      driven_of_step step undisturbed (driven (undisturbed.before (.step step)))

/-- A peer in a state that it does not leave by itself owns what drives it out. -/
structure Peer.OwnsDriver (peer : Peer) : Prop where
  connecting : peer.state = .connecting →
    ∃ command fields, command.command = .connect fields ∧ peer.Owns command
  acknowledgingConnect : peer.state = .acknowledgingConnect →
    ∃ command fields, command.command = .verifyConnect fields ∧ peer.Owns command
  disconnecting : peer.state = .disconnecting →
    ∃ command data, command.command = .disconnect data ∧ peer.Owns command
  acknowledgingDisconnect : peer.state = .acknowledgingDisconnect → peer.AcknowledgesDisconnect

theorem Driven.ownsDriver {peer : Peer} (driven : Driven peer) : peer.OwnsDriver := by
  have drives : ∀ state : PeerState, state.isTransitional = true → peer.state = state →
      ∃ command, command.drives state = true ∧ peer.Owns command := by
    intro state transitional same
    subst same
    exact driven.driver transitional
  refine ⟨fun same => ?_, fun same => ?_, fun same => ?_, driven.acknowledgesDisconnect⟩
  · obtain ⟨command, drives, owns⟩ := drives .connecting rfl same
    unfold Protocol.drives at drives
    cases kind : command.command <;> rw [kind, Bool.and_eq_true] at drives <;>
      first | exact ⟨command, _, kind, owns⟩ | cases drives.2
  · obtain ⟨command, drives, owns⟩ := drives .acknowledgingConnect rfl same
    unfold Protocol.drives at drives
    cases kind : command.command <;> rw [kind, Bool.and_eq_true] at drives <;>
      first | exact ⟨command, _, kind, owns⟩ | cases drives.2
  · obtain ⟨command, drives, owns⟩ := drives .disconnecting rfl same
    unfold Protocol.drives at drives
    cases kind : command.command <;> rw [kind, Bool.and_eq_true] at drives <;>
      first | exact ⟨command, _, kind, owns⟩ | cases drives.2

/-- **As long as no allocation fails and no received command strands a peer**,
every peer owns what drives it out of its state. -/
theorem drivers_owned {host : Host} (reachable : Host.Reachable host)
    (undisturbed : Undisturbed host) (index : Nat) : (host.peers index).OwnsDriver :=
  (driven_of_visited (@Visited.of_reachable host none reachable rfl) index undisturbed).ownsDriver

/-- A call leaves the allocator as it is. -/
theorem Host.Ample.of_call {fuel : Nat} {host host' : Host} {event : Option Event} {value : Int}
    (ample : host.Ample) (call : Host.Call)
    (returns : call.run fuel host = some (host', event, value)) : host'.Ample := by
  have extended := Library.runs_relate (fun before after => Extends before.1 after.1)
    (fun _ => .refl _) (fun first => first.trans) Extends.step (call_run call returns)
  rw [Host.Ample, extended.mallocs.mallocSucceeds]
  exact ample

theorem calledHost_ample {host host' : Host} {calls : List Host.Call} (ample : host.Ample)
    (called : calledHost host calls = some host') : host'.Ample := by
  induction calls generalizing host with
  | nil => cases called; exact ample
  | cons call calls ih =>
      obtain ⟨⟨after, event, value⟩, returns, rest⟩ := Option.bind_eq_some_iff.mp called
      exact ih (ample.of_call call returns) rest

theorem servedHost_ample {datagrams : List (Address × List UInt8)} {calls : Nat} {host : Host}
    (serves : servedHost datagrams calls = some host) : host.Ample := by
  induction calls generalizing host with
  | zero => cases serves; exact fun _ => rfl
  | succ calls ih =>
      obtain ⟨before, served, serves⟩ := Option.bind_eq_some_iff.mp serves
      obtain ⟨⟨after, event, value⟩, returns, rfl⟩ := Option.map_eq_some_iff.mp serves
      exact (ih served).of_call (.service (some noEvent) 0) returns

/-- Datagrams to a host: a CONNECT command, the acknowledgement of its answer, and
a DISCONNECT command that is to be acknowledged, without a sent time. -/
def strandingDatagrams : List (Address × List UInt8) :=
  let source : Address := ⟨7, 9⟩
  [(source, [0x0F, 0xFF] ++ connectRequest.encode), (source, []),
    (source, [0, 0] ++ (⟨.acknowledge 1 1, false, false, 0xFF, 0⟩ : Protocol).encode),
    (source, [0, 0] ++ (⟨.disconnect 0, true, false, 0xFF, 1⟩ : Protocol).encode)]

/-- The accepted peer owns its VERIFY_CONNECT command. -/
theorem drivers_owned_accepted :
    ∃ host, servedHost strandingDatagrams 1 = some host ∧
      (host.peers 0).state = .acknowledgingConnect ∧ (host.peers 0).OwnsDriver := by
  have evaluated : (servedHost strandingDatagrams 1).map (fun host =>
      ((host.peers 0).state, host.history.all fun seen => !seen.strands)) =
      some (.acknowledgingConnect, true) := by decide +kernel
  obtain ⟨host, serves, same⟩ := Option.map_eq_some_iff.mp evaluated
  simp only [Prod.mk.injEq, List.all_eq_true, Bool.not_eq_true'] at same
  obtain ⟨state, unstranded⟩ := same
  exact ⟨host, serves, state,
    drivers_owned (servedHost_reachable serves) ⟨servedHost_ample serves, unstranded⟩ 0⟩

/-- The DISCONNECT command leaves a peer that owes an acknowledgement and has none
to send. -/
theorem drivers_not_owned :
    ¬∀ host index, Host.Reachable host → host.Ample → (host.peers index).OwnsDriver := by
  intro always
  have evaluated : (servedHost strandingDatagrams 3).map (fun host =>
      ((host.peers 0).state, (host.peers 0).acknowledgements)) =
      some (.acknowledgingDisconnect, []) := by decide +kernel
  obtain ⟨host, serves, same⟩ := Option.map_eq_some_iff.mp evaluated
  simp only [Prod.mk.injEq] at same
  obtain ⟨state, none⟩ := same
  have owns := always host 0 (servedHost_reachable serves) (servedHost_ample serves)
  obtain ⟨acknowledgement, member, -⟩ := owns.acknowledgingDisconnect state
  rw [none] at member
  cases member

end Enet
