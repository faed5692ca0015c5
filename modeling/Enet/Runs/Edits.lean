import Enet.Runs.Calls

/-!
# The edits of a step

A step of a call is a sequence of edits, each of which is one store or one
function on the queues of a peer. What an invariant needs from the handlers and
the loops is what it needs from each edit.

The check of the outgoing commands is no edit, since it takes commands out of
their queues that are freed only when the datagram has been sent. Nor is the
receive of the application, which is given a packet.
-/

set_option autoImplicit false

namespace Enet

open Relation

/-- The peer of a slot, taken out of the dispatch queue. -/
def Host.unscheduleDispatch (host : Host) (index : Nat) : Host :=
  (host.setDispatchQueue (host.dispatchQueue.remove (.peer index))).setPeer index
    ((host.peers index).setNeedsDispatch false)

/-- The states in which the parameters of a connection are settled. -/
def PeerState.isNegotiated : PeerState → Bool
  | acknowledgingConnect | connectionPending | connectionSucceeded | connected
  | disconnectLater => true
  | _ => false

/-- A peer enters such a state from another, or once its mtu was bounded. -/
def Peer.MayEnter (peer : Peer) (state : PeerState) : Prop :=
  state.isNegotiated = true →
    peer.state.isNegotiated = true ∨ peer.mtu ≤ protocolMaximumMtu

theorem Peer.clampMtu_le (mtu : Nat) : clampMtu mtu ≤ protocolMaximumMtu := by
  unfold clampMtu
  simp only [protocolMinimumMtu, protocolMaximumMtu]
  grind

/-- The mtu of a connection is bounded by the answer to its request. -/
theorem Host.verifiedPeer_mtu (peer : Peer) (fields : VerifyConnect) :
    (verifiedPeer peer fields).mtu ≤ protocolMaximumMtu := by
  have bound := Peer.clampMtu_le fields.mtu
  unfold verifiedPeer
  dsimp only
  grind

/-- The mtu of a connection is bounded by its request. -/
theorem Host.acceptedPeer_mtu (host : Host) (peer : Peer) (fields : Connect) :
    (host.acceptedPeer peer fields).mtu ≤ protocolMaximumMtu := by
  have bound := Peer.clampMtu_le fields.mtu
  unfold acceptedPeer
  dsimp only
  grind

/-- How a slot was last taken, after one more observation: by a CONNECT command, or not. -/
def Observation.accepts (index : Nat) (accepted : Bool) : Observation → Bool
  | .started peer locally => if peer = index then !locally else accepted
  | _ => accepted

/-- Whether a slot was last taken by a CONNECT command. -/
def Host.isAccepted (host : Host) (index : Nat) : Bool :=
  host.history.foldl (Observation.accepts index) false

theorem Host.observe_isAccepted (host : Host) (observation : Observation) (index : Nat) :
    (host.observe observation).isAccepted index =
      observation.accepts index (host.isAccepted index) := by
  unfold isAccepted
  rw [observe_history, List.foldl_append]
  rfl

/-- What the scan of `enet_protocol_handle_connect` finds before a slot is taken. -/
structure Host.AdmitsConnect (host : Host) (connectID : Nat) : Prop where
  unique : ∀ index < host.peerCount, host.isSameConnection connectID index = false
  room : ((List.range host.peerCount).filter host.isDuplicate).length < host.duplicatePeers

/-- A command was handed to its handler since the slot was last reset. -/
def Host.Hears (host : Host) (index : Nat) (heard : Heard) : Prop :=
  .command index heard ∈ sinceReset index host.history

/-- A command is heard as it is handed to its handler. -/
theorem Host.hears_hear (host : Host) (index : Nat) (command : Protocol) (data : List UInt8)
    (sentTime : Bool) :
    (host.hear index command data sentTime).Hears index
      (host.heard index command data sentTime) := by
  unfold Hears hear
  rw [observe_history, sinceReset_append (by simp [Observation.peer])
    (by simp [Observation.isReset])]
  exact List.mem_append_right _ List.mem_cons_self

/-- The receiving side of a peer resets nothing. -/
theorem ReceivesFor.continues {host host' : Host} {index : Nat}
    (receives : ReceivesFor index host host') :
    ∃ seen, sinceReset index host'.history = sinceReset index host.history ++ seen := by
  obtain ⟨entered, history⟩ := receives.history
  rw [history]
  refine ⟨_, sinceReset_append ?_ ?_⟩
  · intro observation member
    obtain ⟨dispatching, -, rfl⟩ := List.mem_map.mp member
    rfl
  · intro observation member
    obtain ⟨dispatching, -, rfl⟩ := List.mem_map.mp member
    rfl

theorem Host.Hears.receivesFor {host host' : Host} {index : Nat} {heard : Heard}
    (hears : host.Hears index heard) (receives : ReceivesFor index host host') :
    host'.Hears index heard := by
  obtain ⟨seen, history⟩ := receives.continues
  unfold Hears at hears ⊢
  rw [history]
  exact List.mem_append_left _ hears

/-- One edit of a slot. -/
inductive Edit (index : Nat) : Host → Host → Prop where
  | quiet {host host' : Host} (quiet : Quiet host host') : Edit index host host'
  | malloc (host : Host) : Edit index host (host.setHeap host.heap.malloc.1)
  | observe (host : Host) (observation : Observation) (about : observation.peer = index)
      (fresh : ∀ locally, observation = .started index locally →
        (host.peers index).state = .disconnected)
      (stays : observation.isReset = false) :
      Edit index host (host.observe observation)
  | schedule (host : Host) : Edit index host (host.scheduleDispatch index)
  | unschedule (host : Host) : Edit index host (host.unscheduleDispatch index)
  | changeState (host : Host) (state : PeerState)
      (used : (host.peers index).state ≠ .disconnected)
      (stays : state ≠ .disconnected ∧ state ≠ .connecting)
      (may : (host.peers index).MayEnter state) :
      Edit index host (host.changeState index state)
  | eventData (host : Host) (data : Nat) :
      Edit index host (host.setPeer index ((host.peers index).setEventData data))
  | resetQueues (host : Host) : Edit index host (host.resetQueues index)
  | reset (host : Host) : Edit index host (host.peerReset index)
  | clearChannels (host : Host) (free : (host.peers index).state = .disconnected) :
      Edit index host (host.setPeer index (host.peers index).clearChannels)
  | connecting (host : Host) (address : Address) (channelCount connectID : Nat)
      (slot : index < host.peerCount) (free : (host.peers index).state = .disconnected)
      (locally : host.isAccepted index = false) :
      Edit index host (host.setPeer index
        (host.connectingPeer (host.peers index) address (Host.clampChannelCount channelCount)
          connectID))
  | accepted (host : Host) (fields : Connect) (slot : index < host.peerCount)
      (free : (host.peers index).state = .disconnected)
      (channels : fields.channelCount ≤ protocolMaximumChannelCount)
      (admits : host.AdmitsConnect fields.connectID) :
      Edit index host (host.setPeer index (host.acceptedPeer (host.peers index) fields))
  | verified (host : Host) (fields : VerifyConnect)
      (waits : (host.peers index).state = .connecting) :
      Edit index host (host.setPeer index (Host.verifiedPeer (host.peers index) fields))
  | bandwidth (host : Host) (incomingBandwidth outgoingBandwidth : Nat) :
      Edit index host (host.handleBandwidthLimit index incomingBandwidth outgoingBandwidth).1
  | queue (host : Host) (command : Protocol) (control : command.channelID = 0xFF)
      (bare : command.command.dataLength = 0) :
      Edit index host (host.queueOutgoingCommand index command none 0 0).1
  | removeSent (host : Host) (number channelID : Nat) :
      Edit index host (host.removeSentReliableCommand index number channelID).1
  | scanTimeouts (host : Host) :
      Edit index host (host.setPeer index ((host.peers index).checkTimeouts host.serviceTime).1)
  | receive {host host' : Host} {available : List UInt8} {received : Heard}
      (step : ReceiveStep index available received host host')
      (heard : host.Hears index received) : Edit index host host'
  | acknowledge (host : Host) (acknowledgement : Acknowledgement) :
      Edit index host (host.setPeer index ((host.peers index).addAcknowledgement acknowledgement))
  | acknowledged (host : Host) (rest : List Acknowledgement) :
      Edit index host (host.setPeer index ((host.peers index).setAcknowledgements rest))

/-- Edits of a slot, in sequence. -/
abbrev Edits (index : Nat) : Host → Host → Prop := ReflTransGen (Edit index)

namespace Edits

variable {index : Nat} {host host' : Host}

theorem of_quiet (quiet : Quiet host host') : Edits index host host' := .single (.quiet quiet)

theorem recalculate (host : Host) (index : Nat) : Edits index host host.recalculate :=
  of_quiet (.of_same rfl rfl rfl rfl rfl rfl rfl rfl)

theorem storeEvent (host : Host) (index : Nat) (type : EventType) (data : Nat) (event : Event) :
    Edits index host (host.storeEvent index type data event).1 :=
  .single (.observe host _ rfl (fun _ started => nomatch started) rfl)

theorem dispatchState {host : Host} {index : Nat} {state : PeerState}
    (used : (host.peers index).state ≠ .disconnected)
    (stays : state ≠ .disconnected ∧ state ≠ .connecting)
    (may : (host.peers index).MayEnter state) :
    Edits index host (host.dispatchState index state) :=
  (ReflTransGen.single (.changeState host state used stays may)).tail (.schedule _)

theorem startDisconnect {host : Host} {index : Nat}
    (used : (host.peers index).state ≠ .disconnected) (data : Nat) :
    Edits index host (host.startDisconnect index data) := by
  refine ReflTransGen.tail ((ReflTransGen.single (.resetQueues host)).tail
    (.queue _ _ rfl rfl))
    (.changeState _ .disconnecting ?_ (by decide) fun settled => by cases settled)
  rw [(Host.queueOutgoingCommand_sendingOnly ..).state, Host.resetQueues_peer]
  exact used

/-! ## Events -/

theorem notifyConnect {host : Host} {index : Nat}
    (used : (host.peers index).state ≠ .disconnected)
    (may : ∀ state, (host.peers index).MayEnter state) (event : Option Event) :
    Edits index host (host.notifyConnect index event).1 := by
  cases event with
  | none =>
      refine (recalculate host index).trans (dispatchState used ?_ (may _))
      split <;> decide
  | some event =>
      exact ((recalculate host index).tail (.changeState _ .connected used (by decide)
        (may _))).trans
        (storeEvent _ index .connect 0 event)

theorem notifyDisconnect (host : Host) (index : Nat) (event : Option Event) :
    Edits index host (host.notifyDisconnect index event).1 := by
  have recalculates : Edits index host (host.recalculateFrom (host.peers index).state) := by
    unfold Host.recalculateFrom
    split
    · exact recalculate host index
    · exact .refl
  unfold Host.notifyDisconnect
  dsimp only
  have still : ((host.recalculateFrom (host.peers index).state).peers index).state =
      (host.peers index).state := by
    unfold Host.recalculateFrom
    split <;> rfl
  refine recalculates.trans ?_
  split
  · exact .single (.reset _)
  next told =>
    cases event with
    | none =>
        refine (ReflTransGen.single (.eventData _ 0)).trans
          (dispatchState ?_ (by decide) fun settled => by cases settled)
        rw [Host.setPeer_self]
        intro free
        have free : (host.peers index).state = .disconnected := still.symm.trans free
        rw [free] at told
        exact told ⟨by decide, by decide⟩
    | some event => exact (storeEvent _ index .disconnect 0 event).tail (.reset _)

/-! ## Received commands -/

theorem leaveConnection {host : Host} {index : Nat}
    (used : (host.peers index).state ≠ .disconnected) (state : PeerState) (acknowledge : Bool) :
    Edits index host (host.leaveConnection index state acknowledge) := by
  unfold Host.leaveConnection
  split
  · exact dispatchState used (by decide) fun settled => by cases settled
  · split
    · split
      · exact (recalculate host index).tail (.reset _)
      · exact .single (.reset host)
    · split
      · exact .single (.changeState host .acknowledgingDisconnect used (by decide)
          fun settled => by cases settled)
      · exact dispatchState used (by decide) fun settled => by cases settled

theorem handleDisconnect (host : Host) (index : Nat) (command : Protocol) (data : Nat) :
    Edits index host (host.handleDisconnect index command data).1 := by
  unfold Host.handleDisconnect
  dsimp only
  split
  · exact .refl
  next handled =>
    have used : ((host.resetQueues index).peers index).state ≠ .disconnected := by
      rw [Host.resetQueues_peer]
      exact fun free => handled (.inl free)
    have leaves := (ReflTransGen.single (@Edit.resetQueues index host)).trans
      (leaveConnection used (host.peers index).state command.acknowledge)
    split
    · exact leaves.tail (.eventData _ data)
    · exact leaves

theorem settleAcknowledge (host : Host) (event : Option Event) (index commandNumber : Nat) :
    Edits index host (host.settleAcknowledge event index commandNumber).1 := by
  unfold Host.settleAcknowledge
  split
  next state =>
      split
      · exact .refl
      · exact notifyConnect (by rw [state]; decide) (fun _ _ => .inl (by rw [state]; rfl)) event
  · split
    · exact .refl
    · exact notifyDisconnect host index event
  next state =>
      split
      · exact .refl
      · exact startDisconnect (by rw [state]; decide) _
  · exact .refl

theorem handleAcknowledge (host : Host) (event : Option Event)
    (index channelID received sentTime : Nat) :
    Edits index host (host.handleAcknowledge event index channelID received sentTime).1 := by
  unfold Host.handleAcknowledge
  dsimp only
  split
  · exact .refl
  · split
    · exact .refl
    next current =>
      exact ((of_quiet (.updateRoundTripTime host index current)).tail
        (.removeSent _ received channelID)).trans (settleAcknowledge _ event index _)

theorem handleVerifyConnect (host : Host) (event : Option Event) (index : Nat)
    (fields : VerifyConnect) :
    Edits index host (host.handleVerifyConnect event index fields).1 := by
  unfold Host.handleVerifyConnect
  dsimp only
  split
  · exact .refl
  next waits =>
      split
      · refine (ReflTransGen.single (.eventData host 0)).trans
          (dispatchState ?_ (by decide) fun settled => by cases settled)
        rw [Host.setPeer_self]
        rw [show ((host.peers index).setEventData 0).state = .connecting from not_not.mp waits]
        decide
      · have still : ((host.removeSentReliableCommand index 1 0xFF).1.peers index).state =
            .connecting := by
          rw [(SendsFor.removeSentReliableCommand host index 1 0xFF).peer.state]
          exact not_not.mp waits
        refine ((ReflTransGen.single (.removeSent host 1 0xFF)).tail
          (.verified _ fields still)).trans
          (notifyConnect ?_ (fun _ _ => .inr ?_) event)
        · rw [Host.setPeer_self]
          rw [show (Host.verifiedPeer ((host.removeSentReliableCommand index 1 0xFF).1.peers index)
            fields).state = .connecting from still]
          decide
        · rw [Host.setPeer_self]
          exact Host.verifiedPeer_mtu ..

/-- The handler of a command that was heard. -/
theorem receiveRun {available : List UInt8} {heard : Heard}
    (hears : host.Hears index heard) (run : ReceiveRun index available heard host host') :
    Edits index host host' := by
  have edits : Edits index host host' ∧ host'.Hears index heard := by
    induction run with
    | refl => exact ⟨.refl, hears⟩
    | tail _ step ih => exact ⟨ih.1.tail (.receive step ih.2), ih.2.receivesFor step.receivesFor⟩
  exact edits.1

theorem handleCommand (host : Host) (event : Option Event) (index : Nat) (command : Protocol)
    (data : List UInt8) (sentTime : Bool)
    (hears : host.Hears index (host.heard index command data sentTime)) :
    Edits index host (host.handleCommand event index command data).1 := by
  by_cases carries : command.command.isData = true
  · exact receiveRun hears (ReceiveRun.handleCommand host event index command data sentTime
      carries).1
  · unfold Host.handleCommand
    dsimp only
    split
    · exact handleAcknowledge ..
    · exact .refl
    · exact handleVerifyConnect ..
    · exact handleDisconnect ..
    · exact .refl
    case h_10 => exact .single (.bandwidth ..)
    case h_11 =>
      unfold Host.handleThrottleConfigure
      dsimp only
      split
      · exact .refl
      · exact of_quiet (.setPeer host (.throttleConfigure _ _ _ _))
    all_goals
      rename_i same
      rw [same] at carries
      exact absurd rfl carries

theorem queueAcknowledgement (host : Host) (index : Nat) (command : Protocol) (sentTime : Nat) :
    Edits index host (host.queueAcknowledgement index command sentTime).1 := by
  unfold Host.queueAcknowledgement
  dsimp only
  split
  · exact .refl
  · have allocates : Edits index host (host.setHeap host.heap.malloc.1) := .single (.malloc host)
    split
    next allocated => rw [allocated] at allocates; exact allocates
    next allocated => rw [allocated] at allocates; exact allocates.tail (.acknowledge _ _)

theorem acknowledgeStage (host : Host) (index : Nat) (command : Protocol) (sentTime : Option Nat) :
    Edits index host (host.acknowledgeStage index command sentTime).1 := by
  unfold Host.acknowledgeStage
  split
  · split
    · exact .refl
    · unfold Host.acknowledgeCommand
      split
      case h_5 =>
        split
        · exact queueAcknowledgement ..
        · exact .refl
      case h_6 => exact queueAcknowledgement ..
      all_goals exact .refl
  · exact .refl

theorem commandStep (host : Host) (event : Option Event) (index : Nat) (sentTime : Option Nat)
    (command : Protocol) (data : List UInt8) :
    Edits index host (host.commandStep event index sentTime command data).1 := by
  have hears : Edits index host (host.hear index command data sentTime.isSome) :=
    .single (.observe host _ rfl (fun _ started => nomatch started) rfl)
  have handles := hears.trans (handleCommand _ event index command data sentTime.isSome
    (host.hears_hear index command data sentTime.isSome))
  unfold Host.commandStep
  dsimp only
  split
  next handled => rw [handled] at handles; exact handles
  next handled =>
      rw [handled] at handles
      exact handles.trans (acknowledgeStage _ index command sentTime)

/-! ## Connections -/

theorem handleConnect {index : Nat} (host : Host) (fields : Connect)
    (free : host.freePeer = some index) : Edits index host (host.handleConnect fields).1 := by
  have disconnected := Host.freePeer_disconnected free
  have slot := Host.freePeer_lt free
  unfold Host.handleConnect
  split
  · exact .refl
  next bounded =>
      rw [free]
      dsimp only
      split
      · exact .refl
      next room =>
          have allocates : Edits index host (host.setHeap host.heap.malloc.1) :=
            .single (.malloc host)
          split
          next allocated =>
              rw [allocated] at allocates
              exact allocates.tail (.clearChannels _ disconnected)
          next heap _ allocated =>
              rw [allocated] at allocates
              have channels : fields.channelCount ≤ protocolMaximumChannelCount := by omega
              have unique : ∀ other < host.peerCount,
                  host.isSameConnection fields.connectID other = false := by
                intro other used
                by_contra same
                exact bounded (.inr (.inr (List.any_eq_true.mpr
                  ⟨other, List.mem_range.mpr used, by simpa using same⟩)))
              have admits : ((host.setHeap heap).observe (.started index false)).AdmitsConnect
                  fields.connectID := ⟨unique, Nat.lt_of_not_le room⟩
              exact ((allocates.tail (.observe _ (.started index false) rfl
                (fun _ _ => disconnected) rfl)).tail
                (.accepted _ fields slot disconnected channels admits)).tail (.queue _ _ rfl rfl)

theorem hostConnect {index : Nat} (host : Host) (address : Address) (channelCount data : Nat)
    (free : host.freePeer = some index) :
    Edits index host (host.hostConnect address channelCount data).1 := by
  have disconnected := Host.freePeer_disconnected free
  have slot := Host.freePeer_lt free
  have allocates : Edits index host (host.setHeap host.heap.malloc.1) := .single (.malloc host)
  unfold Host.hostConnect
  rw [free]
  dsimp only
  split
  next allocated =>
      rw [allocated] at allocates
      exact allocates.tail (.clearChannels _ disconnected)
  next heap _ allocated =>
      rw [allocated] at allocates
      have seeds := Quiet.random (host.setHeap heap)
      generalize (host.setHeap heap).random = random at seeds ⊢
      have still : (random.1.peers index).state = .disconnected :=
        (seeds.peers index).state.trans disconnected
      have within : index < random.1.peerCount := by
        rw [seeds.peerCount]
        exact slot
      have observes : Edit index random.1 (random.1.observe (.started index true)) :=
        .observe _ _ rfl (fun _ _ => still) rfl
      have locally : (random.1.observe (.started index true)).isAccepted index = false := by
        rw [Host.observe_isAccepted]
        exact if_pos rfl
      exact (((allocates.tail (.quiet seeds)).tail observes).tail
        (.connecting _ address channelCount random.2 within still locally)).tail
        (.queue _ _ rfl rfl)

/-! ## Sending -/

theorem sendAcknowledgements (index : Nat) (acknowledgements : List Acknowledgement) :
    ∀ host : Host, (host.peers index).state ≠ .disconnected →
      Edits index host (Host.sendAcknowledgements index acknowledgements host) := by
  induction acknowledgements with
  | nil => intro host _; exact .refl
  | cons acknowledgement rest ih =>
      intro host used
      unfold Host.sendAcknowledgements
      dsimp only
      split
      · exact of_quiet (.setPeer host (.continueSending _ _))
      · have pushes : ∀ datagram, Edits index host (host.setDatagram datagram) :=
          fun _ => of_quiet (.setDatagram host _)
        have parts : ∀ datagram, Edits index (host.setDatagram datagram)
            ((host.setDatagram datagram).dispatchState index .zombie) :=
          fun _ => dispatchState used (by decide) fun settled => by cases settled
        split
        · refine (((pushes _).trans (parts _)).tail (.acknowledged _ rest)).trans (ih _ ?_)
          rw [Host.setPeer_self, Host.dispatchState_peer]
          exact (by decide : PeerState.zombie ≠ .disconnected)
        · refine ((pushes _).tail (.acknowledged _ rest)).trans (ih _ ?_)
          rw [Host.setPeer_self]
          exact used

theorem startDatagram {host : Host} {index : Nat}
    (used : (host.peers index).state ≠ .disconnected) :
    Edits index host (host.startDatagram index) := by
  unfold Host.startDatagram
  refine ReflTransGen.trans ?_
    (sendAcknowledgements index _ _ (by rw [Host.setPeer_self]; exact used))
  exact of_quiet ((Quiet.setDatagram host _).trans (.setPeer _ (.continueSending _ _)))

theorem checkTimeouts (host : Host) (index : Nat) (event : Option Event) :
    Edits index host (host.checkTimeouts index event).1 := by
  have scans : Edits index host
      (host.setPeer index ((host.peers index).checkTimeouts host.serviceTime).1) :=
    .single (.scanTimeouts host)
  unfold Host.checkTimeouts
  dsimp only
  split
  · exact scans.trans (notifyDisconnect _ index event)
  · exact scans

theorem disconnectLater (host : Host) (index data : Nat)
    (connected : (host.peers index).state.isConnected = true) :
    Edits index host
      (host.setPeer index (((host.peers index).setState .disconnectLater).setEventData data)) := by
  have changes : host.changeState index .disconnectLater =
      host.setPeer index ((host.peers index).setState .disconnectLater) := by
    unfold Host.changeState Host.onConnect
    dsimp only
    rw [if_pos connected]
    rfl
  have used : (host.peers index).state ≠ .disconnected := by
    intro free
    rw [free] at connected
    cases connected
  have edits := (ReflTransGen.single (@Edit.changeState index host .disconnectLater
    used (by decide) fun _ => .inl (by
      revert connected
      cases (host.peers index).state <;> decide))).tail (.eventData _ data)
  rw [changes, Host.setPeer_self] at edits
  simpa only [Host.setPeer, Function.update_idem] using edits

end Edits

/-! ## The check of the outgoing commands -/

/-- The check of the outgoing commands before its last test. -/
def Host.scanOutgoing (host : Host) (index : Nat) (sentUnreliable : List OutgoingCommand) :
    OutgoingScan :=
  (host.peers index).checkOutgoingCommands host.heap host.datagram sentUnreliable host.serviceTime

/-- The host with what the check of the outgoing commands leaves. -/
def Host.installScan (host : Host) (index : Nat) (scan : OutgoingScan) : Host :=
  ((host.setHeap scan.heap).setDatagram scan.datagram).setPeer index scan.finish

/-- The commands of a datagram that was sent are freed. -/
def Host.freeSent (host : Host) (sentUnreliable : List OutgoingCommand) : Host :=
  host.setHeap (sentUnreliable.foldl Heap.removeOutgoing host.heap)

theorem Edits.checkOutgoingCommands (host : Host) (index : Nat)
    (sentUnreliable : List OutgoingCommand) :
    Edits index (host.installScan index (host.scanOutgoing index sentUnreliable))
        (host.checkOutgoingCommands index sentUnreliable).1 ∧
      (host.checkOutgoingCommands index sentUnreliable).2.1 =
        (host.scanOutgoing index sentUnreliable).sentUnreliable := by
  unfold Host.checkOutgoingCommands
  refine ⟨?_, rfl⟩
  dsimp only
  split
  next ends =>
      have state : ((host.installScan index (host.scanOutgoing index sentUnreliable)).peers
          index).state = .disconnectLater := by
        rw [Host.installScan, Host.setPeer_self]
        exact ends.1
      exact startDisconnect (by rw [state]; decide) _
  · exact .refl

theorem Edits.removeSentUnreliableCommands (host : Host) (index : Nat)
    (sentUnreliable : List OutgoingCommand) :
    Edits index (host.freeSent sentUnreliable)
      (host.removeSentUnreliableCommands index sentUnreliable) := by
  unfold Host.removeSentUnreliableCommands
  split
  next none =>
      rw [List.isEmpty_iff.mp none]
      exact .refl
  · dsimp only
    split
    next ends =>
        have state : ((host.freeSent sentUnreliable).peers index).state = .disconnectLater := ends.1
        exact startDisconnect (by rw [state]; decide) _
    · exact .refl

end Enet
