import Enet.Runs.Transit

/-!
# Commands that await an acknowledgement

Only a command that is to be acknowledged enters `sentReliableCommands`, so what
an acknowledgement removes is reliable wherever it is found.
-/

set_option autoImplicit false

namespace Enet

open Relation

/-- Every command in transit is to be acknowledged. -/
def Peer.Awaiting (peer : Peer) : Prop :=
  ∀ outgoing ∈ peer.sentReliableCommands, outgoing.command.acknowledge = true

namespace Peer.Awaiting

variable {peer peer' : Peer}

theorem of_subset (awaiting : peer.Awaiting)
    (less : peer'.sentReliableCommands ⊆ peer.sentReliableCommands) : peer'.Awaiting :=
  fun outgoing member => awaiting outgoing (less member)

theorem of_same (awaiting : peer.Awaiting)
    (same : peer'.sentReliableCommands = peer.sentReliableCommands) : peer'.Awaiting :=
  awaiting.of_subset fun _ member => same ▸ member

theorem of_nil (none : peer.sentReliableCommands = []) : peer.Awaiting := by
  intro outgoing member
  rw [none] at member
  cases member

/-- An acknowledgement adds nothing to what is in transit. -/
theorem takeSentReliableCommand (awaiting : peer.Awaiting) (number channelID : Nat) :
    (peer.takeSentReliableCommand number channelID).1.Awaiting := by
  unfold Peer.takeSentReliableCommand
  split
  · exact awaiting.of_subset (List.eraseIdx_sublist _ _).subset
  · split
    · exact awaiting
    · split
      · exact awaiting
      · exact awaiting

theorem removeSentReliableCommand (awaiting : peer.Awaiting) (number channelID : Nat) :
    (peer.removeSentReliableCommand number channelID).1.Awaiting := by
  have takes := awaiting.takeSentReliableCommand number channelID
  unfold Peer.removeSentReliableCommand
  dsimp only
  split
  · exact awaiting
  next outgoing _ =>
      have lands : (((peer.takeSentReliableCommand number channelID).1.closeCommandWindow number
          channelID).landReliableData outgoing
            (peer.isInTransit number channelID)).sentReliableCommands =
          (peer.takeSentReliableCommand number channelID).1.sentReliableCommands := by
        refine Eq.trans ?_ (closeCommandWindow_transit _ number channelID).2
        unfold landReliableData
        split <;> rfl
      exact takes.of_same ((Alike.scheduleTimeout _).sentReliableCommands.trans lands)

/-- **What an acknowledgement removes is a reliable command with its number and channel.** -/
theorem names (awaiting : peer.Awaiting) {number channelID : Nat} {outgoing : OutgoingCommand}
    (taken : (peer.takeSentReliableCommand number channelID).2 = some outgoing) :
    outgoing.reliableSequenceNumber = number ∧ outgoing.command.channelID = channelID ∧
      outgoing.command.acknowledge = true := by
  have finds : ∀ {commands : List OutgoingCommand} {place : Nat},
      findSentReliableCommand number channelID commands = some place →
        commands[place]? = some outgoing →
          isAcknowledged number channelID outgoing = true ∧
            outgoing.command.acknowledge = true := by
    intro commands
    induction commands with
    | nil => intro place found; cases found
    | cons first rest ih =>
        intro place found here
        unfold findSentReliableCommand at found
        split at found
        · obtain ⟨later, below, rfl⟩ := Option.map_eq_some_iff.mp found
          exact ih below here
        next acknowledge =>
            split at found
            · cases found
            · split at found
              next named =>
                  cases found
                  cases here
                  exact ⟨named, by simpa using acknowledge⟩
              · obtain ⟨later, below, rfl⟩ := Option.map_eq_some_iff.mp found
                exact ih below here
  have named : isAcknowledged number channelID outgoing = true ∧
      outgoing.command.acknowledge = true := by
    unfold Peer.takeSentReliableCommand at taken
    split at taken
    next place found =>
        obtain ⟨inside, named, -⟩ := List.findIdx?_eq_some_iff_getElem.mp found
        rw [List.getElem?_eq_getElem inside] at taken
        cases taken
        exact ⟨named, awaiting _ (List.getElem_mem inside)⟩
    · split at taken
      next place found => exact finds found taken
      · split at taken
        next place found => exact finds found taken
        · cases taken
  unfold isAcknowledged at named
  simpa [and_assoc] using named

/-- The check of the timeouts adds nothing to what is in transit. -/
theorem checkTimeouts (awaiting : peer.Awaiting) (serviceTime : Nat) :
    (peer.checkTimeouts serviceTime).1.Awaiting := by
  refine scanTimeouts_keeps_of_turns
    (fun scan => ∀ outgoing ∈ scan.1.passed ++ scan.2, outgoing.command.acknowledge = true)
    ?_ (fun holds => holds) peer.sentReliableCommands ⟨peer, [], [], []⟩ awaiting
  intro before after turn holds outgoing member
  cases turn with
  | pass scan first rest early =>
      refine holds outgoing ?_
      simpa [TimeoutScan.pass] using member
  | requeue scan first rest overdue stays =>
      refine holds outgoing ?_
      dsimp only at member
      rw [(TimeoutScan.putBack_peer ..).2] at member
      rcases List.mem_append.mp member with passed | left
      · exact List.mem_append_left _ passed
      · exact List.mem_append_right _ (List.mem_cons_of_mem _ left)

/-- A transmission adds a command that is to be acknowledged. -/
theorem run (serviceTime fuel : Nat) : ∀ {scan : OutgoingScan}, scan.peer.Awaiting →
    (OutgoingScan.run serviceTime fuel scan).peer.Awaiting := by
  induction fuel with
  | zero => intro scan awaiting; exact awaiting
  | succ fuel ih =>
      intro scan awaiting
      unfold OutgoingScan.run
      split
      · exact awaiting
      next reliable outgoing _ =>
          have steps : (scan.step serviceTime reliable outgoing).1.peer.Awaiting := by
            rcases scan.step_transit serviceTime reliable outgoing with ⟨same, -⟩ | transmits
            · exact awaiting.of_same same
            · obtain ⟨sent, core, more⟩ := transmits.sent
              intro other member
              rw [more] at member
              rcases List.mem_append.mp member with old | new
              · exact awaiting other old
              · rw [List.mem_singleton.mp new]
                have same : sent.command = outgoing.command :=
                  (congrArg OutgoingCommand.command core :)
                rw [same]
                exact transmits.acknowledge
          dsimp only
          split
          · exact ih steps
          · exact steps

end Peer.Awaiting

/-! ## All peers -/

/-- Every command in transit to some peer is to be acknowledged. -/
def Awaiting (host : Host) : Prop := ∀ index, (host.peers index).Awaiting

namespace Awaiting

variable {host host' : Host} {index : Nat}

theorem acts (awaiting : Awaiting host) (acts : ActsOn index host host')
    (own : (host'.peers index).Awaiting) : Awaiting host' := by
  intro other
  rcases eq_or_ne other index with same | different
  · rw [same]
    exact own
  · rw [acts.others other different]
    exact awaiting other

theorem setPeer (awaiting : Awaiting host) {peer : Peer} (own : peer.Awaiting) :
    Awaiting (host.setPeer index peer) := by
  refine awaiting.acts (.setPeer host index peer) ?_
  rw [Host.setPeer_self]
  exact own

/-- A change of a peer that leaves what is in transit. -/
theorem keep (awaiting : Awaiting host) {peer : Peer}
    (same : peer.sentReliableCommands = (host.peers index).sentReliableCommands) :
    Awaiting (host.setPeer index peer) := awaiting.setPeer ((awaiting index).of_same same)

/-- **An edit keeps unreliable commands out of what is in transit.** -/
theorem edit (edit : Edit index host host') (awaiting : Awaiting host) : Awaiting host' := by
  cases edit with
  | quiet quiet =>
      exact fun other => (awaiting other).of_same (quiet.peers other).sentReliableCommands
  | malloc => exact awaiting
  | observe observation about fresh => exact awaiting
  | schedule =>
      have receives := (ReceivesFor.scheduleDispatch host index).peer
      exact awaiting.acts (.scheduleDispatch host index)
        ((awaiting index).of_same receives.sentReliableCommands)
  | unschedule =>
      exact @keep (host.setDispatchQueue (host.dispatchQueue.remove (.peer index))) index awaiting _
        rfl
  | changeState state used stays may =>
      refine awaiting.acts (.changeState host index state) ?_
      rw [Host.changeState_peer]
      exact awaiting index
  | eventData data => exact awaiting.keep rfl
  | resetQueues =>
      refine awaiting.acts (.resetQueues host index) ?_
      rw [Host.resetQueues_peer]
      exact .of_nil rfl
  | reset =>
      refine awaiting.acts (.peerReset host index) ?_
      obtain ⟨mtu, same⟩ := Host.peerReset_peer host index
      rw [same]
      exact .of_nil rfl
  | clearChannels free => exact awaiting.keep rfl
  | connecting address channelCount connectID slot free locally => exact awaiting.keep rfl
  | accepted fields slot free channels admits => exact awaiting.keep rfl
  | verified fields waits => exact awaiting.keep rfl
  | bandwidth incomingBandwidth outgoingBandwidth =>
      unfold Host.handleBandwidthLimit
      dsimp only
      split
      · exact awaiting
      · exact @keep (host.setBandwidthLimitedPeers _ _) index awaiting _ rfl
  | queue command control bare =>
      exact awaiting.acts (.queueOutgoingCommand ..)
        ((awaiting index).of_same (Host.queueOutgoingCommand_sameTransit ..).sent)
  | removeSent number channelID =>
      refine awaiting.acts (SendsFor.removeSentReliableCommand host index number channelID).acts ?_
      have removes := (awaiting index).removeSentReliableCommand number channelID
      unfold Host.removeSentReliableCommand
      split
      · exact awaiting index
      next removed =>
          rw [removed] at removes
          dsimp only
          rw [Host.setPeer_self]
          exact removes
  | scanTimeouts => exact awaiting.setPeer ((awaiting index).checkTimeouts host.serviceTime)
  | receive step heard =>
      have receives := step.receivesFor
      exact awaiting.acts receives.acts
        ((awaiting index).of_same receives.peer.sentReliableCommands)
  | acknowledge acknowledgement => exact awaiting.keep rfl
  | acknowledged rest => exact awaiting.keep rfl

theorem peerSend (awaiting : Awaiting host) (index channelID : Nat) (packet : Packet) :
    Awaiting (host.peerSend index channelID packet).1 := by
  have setup : ∀ {before : Host} (outgoing : OutgoingCommand), Awaiting before →
      Awaiting (before.setupOutgoingCommand index outgoing) := by
    intro before outgoing awaiting
    exact awaiting.keep (Peer.SameTransit.setupOutgoingCommand ..).sent
  unfold Host.peerSend
  dsimp only
  split
  · exact awaiting
  · split
    · unfold Host.sendFragments
      dsimp only
      split
      · exact awaiting
      · split
        · exact awaiting
        next heap fragments _ =>
            exact @List.foldlRecOn _ _ Awaiting fragments
              (fun host fragment => host.setupOutgoingCommand index fragment) _ awaiting
              fun _ kept fragment _ => setup fragment kept
    · have queues : Awaiting (host.queueOutgoingCommand index (Host.sendCommand
          ((host.peers index).channels channelID) channelID packet) (some packet) 0
            packet.dataLength).1 :=
        awaiting.acts (.queueOutgoingCommand ..)
          ((awaiting index).of_same (Host.queueOutgoingCommand_sameTransit ..).sent)
      split
      next queued => rw [queued] at queues; exact queues
      next queued => rw [queued] at queues; exact queues

theorem maintained : Maintained fun host _ => Awaiting host where
  edit := edit
  scan := by
    intro host index sentUnreliable awaiting
    exact @setPeer ((host.setHeap (host.scanOutgoing index sentUnreliable).heap).setDatagram
      (host.scanOutgoing index sentUnreliable).datagram) index awaiting _
        (Peer.Awaiting.run host.serviceTime _ (awaiting index))
  free := fun _ _ awaiting => awaiting
  take := by
    intro host index awaiting
    have receives := ReceivesFor.peerReceive host index
    exact awaiting.acts receives.acts
      ((awaiting index).of_same receives.peer.sentReliableCommands)
  packet := fun _ index channelID packet awaiting => awaiting.peerSend index channelID packet
  discard := fun _ _ _ awaiting => awaiting
  configure := fun _ _ _ _ _ _ _ _ awaiting => awaiting

/-- **Only reliable commands are in transit wherever calls pass through.** -/
theorem visited {activity : Activity} (visited : Visited activity) : Awaiting activity.1 :=
  maintained.visited (fun _ _ _ _ _ _ _ _ => .of_nil rfl) visited

end Awaiting

end Enet
