import Enet.Runs.Connections

/-!
# The events of a host

What calls leave in `*event`. For every slot the events stored are those of its
connections; and what a call adds to them is the one event it leaves behind, or
nothing. The second needs that a peer whose event a datagram has stored is in a
state in which the rest of the datagram stores none.
-/

set_option autoImplicit false

namespace Enet

open Relation

/-! ## Stored events -/

/-- The events among observations. -/
def eventsSeen (history : List Observation) : List (Nat × EventType) :=
  history.filterMap fun
    | .event peer type => some (peer, type)
    | _ => none

/-- The event that `event` points to, if one was stored. -/
def reportedEvent : Option Event → List (Nat × EventType)
  | none => []
  | some event =>
    if event.type = .none then [] else event.peer.toList.map fun peer => (peer, event.type)

/-- What `event` points to was stored for this peer. -/
structure StoredFor (event : Option Event) (index : Nat) : Prop where
  stored : Host.isStored event = true
  about : event.bind Event.peer = some index

/-- The states of a peer whose event a datagram has just stored. -/
def PeerState.isSettled : PeerState → Bool
  | disconnected | connected | acknowledgingDisconnect | zombie => true
  | _ => false

/-- The states in which the loss of a peer is reported. -/
def PeerState.isReportable : PeerState → Bool
  | disconnected | acknowledgingConnect | connectionPending => false
  | _ => true

/-- A connection that is lost in one of these states may be reported so. -/
theorem Connection.Agrees.reportable {connection : Connection} {state : PeerState}
    (agrees : connection.Agrees state) (reportable : state.isReportable = true) :
    connection.Open ∨ connection.events = [] ∧ connection.locally = true := by
  cases state with
  | disconnected => cases reportable
  | acknowledgingConnect => cases reportable
  | connectionPending => cases reportable
  | connecting => exact .inr agrees
  | connectionSucceeded => exact .inr agrees
  | zombie => exact agrees
  | connected => exact .inl agrees
  | disconnectLater => exact .inl agrees
  | disconnecting => exact .inl agrees
  | acknowledgingDisconnect => exact .inl agrees

theorem PeerState.connected_of_isReportable {state : PeerState}
    (reportable : state.isReportable = true) : state ≠ .disconnected := by
  intro same
  rw [same] at reportable
  cases reportable

theorem eventsSeen_append (history seen : List Observation) :
    eventsSeen (history ++ seen) = eventsSeen history ++ eventsSeen seen :=
  List.filterMap_append

theorem eventsSeen_of_plain {seen : List Observation}
    (plain : ∀ observation ∈ seen, observation.isPlain = true) : eventsSeen seen = [] := by
  refine List.filterMap_eq_nil_iff.mpr fun observation member => ?_
  have here := plain observation member
  cases observation with
  | event peer type => cases here
  | _ => rfl

theorem reportedEvent_of_fresh {event : Option Event} (fresh : Host.isStored event = false) :
    reportedEvent event = [] := by
  cases event with
  | none => rfl
  | some event =>
      have none : event.type = .none := by simpa [Host.isStored] using fresh
      exact if_pos none

theorem StoredFor.not_fresh {event : Option Event} {index : Nat}
    (fresh : Host.isStored event = false) : ¬StoredFor event index := by
  intro stored
  rw [stored.stored] at fresh
  cases fresh

theorem StoredFor.fresh_of_current {event : Option Event} {index : Nat}
    (current : Current event index) (none : ¬StoredFor event index) :
    Host.isStored event = false := by
  cases stored : Host.isStored event with
  | false => rfl
  | true => exact absurd ⟨stored, current stored⟩ none

/-! ## Where a DISCONNECT command leads -/

theorem leaveConnection_state (host : Host) (index : Nat) (state : PeerState)
    (acknowledge : Bool) :
    ((host.leaveConnection index state acknowledge).peers index).state = .disconnected ∨
      ((host.leaveConnection index state acknowledge).peers index).state.isLeaving = true := by
  have reset : ∀ before : Host, ((before.peerReset index).peers index).state = .disconnected := by
    intro before
    obtain ⟨mtu, same⟩ := before.peerReset_peer index
    rw [same]
    rfl
  unfold Host.leaveConnection
  split
  · rw [Host.dispatchState_peer]
    exact .inr rfl
  · split
    · exact .inl (reset _)
    · split
      · rw [Host.changeState_peer]
        exact .inr rfl
      · rw [Host.dispatchState_peer]
        exact .inr rfl

/-- **A received DISCONNECT command leaves its peer free or leaving.** -/
theorem handleDisconnect_state (host : Host) (index : Nat) (command : Protocol) (data : Nat) :
    ((host.handleDisconnect index command data).1.peers index).state = .disconnected ∨
      ((host.handleDisconnect index command data).1.peers index).state.isLeaving = true := by
  have leaves := leaveConnection_state (host.resetQueues index) index (host.peers index).state
    command.acknowledge
  unfold Host.handleDisconnect
  dsimp only
  split
  next gone =>
      rcases gone with state | state | state
      · exact .inl state
      · exact .inr (by rw [state]; rfl)
      · exact .inr (by rw [state]; rfl)
  · split
    · rw [Host.setPeer_self]
      exact leaves
    · exact leaves

/-! ## One peer -/

/-- The events of a run so far, with those stored before it in `base`: those of
the slot are those of its connections, and those of the run are what is stored. -/
structure Tracks (base : List (Nat × EventType)) (index : Nat) (host : Host)
    (event : Option Event) : Prop where
  reported : Reported (host.peers index) (connections index host.history)
  told : eventsSeen host.history = base ++ reportedEvent event
  settled : StoredFor event index → (host.peers index).state.isSettled = true

namespace Tracks

variable {base : List (Nat × EventType)} {host host' : Host} {event : Option Event} {noted : Event}
  {index : Nat}

theorem not_stored (tracks : Tracks base index host event)
    (unsettled : (host.peers index).state.isSettled = false) : ¬StoredFor event index := by
  intro stored
  have settled := tracks.settled stored
  rw [unsettled] at settled
  cases settled

/-- Observations that are neither the start or the end of a connection nor an event. -/
theorem of_plain (tracks : Tracks base index host event) {seen : List Observation}
    (history : host'.history = host.history ++ seen)
    (plain : ∀ observation ∈ seen, observation.isPlain = true)
    (reported : ∀ connections, Reported (host.peers index) connections →
      Reported (host'.peers index) connections)
    (settled : StoredFor event index → (host.peers index).state.isSettled = true →
      (host'.peers index).state.isSettled = true) : Tracks base index host' event := by
  refine ⟨?_, ?_, fun stored => settled stored (tracks.settled stored)⟩
  · rw [history, connections_append_plain index plain]
    exact reported _ tracks.reported
  · rw [history, eventsSeen_append, eventsSeen_of_plain plain, List.append_nil]
    exact tracks.told

theorem of_history (tracks : Tracks base index host event)
    (history : host'.history = host.history)
    (reported : ∀ connections, Reported (host.peers index) connections →
      Reported (host'.peers index) connections)
    (settled : StoredFor event index → (host.peers index).state.isSettled = true →
      (host'.peers index).state.isSettled = true) : Tracks base index host' event :=
  tracks.of_plain (history.trans (List.append_nil _).symm) (by simp) reported settled

/-- A change that neither the state nor the acknowledgements show. -/
theorem of_same (tracks : Tracks base index host event) (history : host'.history = host.history)
    (state : (host'.peers index).state = (host.peers index).state)
    (acknowledgements : (host'.peers index).acknowledgements =
      (host.peers index).acknowledgements) : Tracks base index host' event :=
  tracks.of_history history (fun _ reported => reported.of_same state acknowledgements)
    fun _ settled => by rwa [state]

theorem sendsFor (tracks : Tracks base index host event) (sends : SendsFor index host host') :
    Tracks base index host' event :=
  tracks.of_same sends.history sends.peer.state sends.peer.acknowledgements

theorem quiet (tracks : Tracks base index host event) (quiet : Quiet host host') :
    Tracks base index host' event :=
  tracks.of_same quiet.history (quiet.peers index).state (quiet.peers index).acknowledgements

theorem receivesFor (tracks : Tracks base index host event)
    (receives : ReceivesFor index host host') : Tracks base index host' event := by
  obtain ⟨removed, history⟩ := receives.history
  refine tracks.of_plain history ?_
    (fun _ reported => reported.of_same receives.peer.state receives.peer.acknowledgements)
    fun _ settled => by rwa [receives.peer.state]
  intro observation member
  obtain ⟨command, -, rfl⟩ := List.mem_map.mp member
  rfl

/-- A change of the peer that neither its state nor its acknowledgements show. -/
theorem setPeer (tracks : Tracks base index host event) {peer : Peer}
    (state : peer.state = (host.peers index).state)
    (acknowledgements : peer.acknowledgements = (host.peers index).acknowledgements) :
    Tracks base index (host.setPeer index peer) event :=
  tracks.of_same rfl (by rw [Host.setPeer_self]; exact state)
    (by rw [Host.setPeer_self]; exact acknowledgements)

/-- `enet_peer_reset` reports nothing. -/
theorem peerReset (tracks : Tracks base index host event) :
    Tracks base index (host.peerReset index) event := by
  obtain ⟨mtu, same⟩ := host.peerReset_peer index
  refine ⟨?_, ?_, fun _ => by rw [same]; rfl⟩
  · rw [Host.peerReset_history, connections_append, same]
    exact .reset rfl rfl index (host.peers index) tracks.reported.legal
  · rw [Host.peerReset_history, eventsSeen_append]
    exact (List.append_nil _).trans tracks.told

theorem resetQueues (tracks : Tracks base index host event) :
    Tracks base index (host.resetQueues index) event := by
  refine tracks.of_history (Host.resetQueues_history host index) ?_ ?_
  · intro connections reported
    rw [Host.resetQueues_peer]
    refine ⟨reported.legal, reported.agrees, fun leaving => ?_⟩
    obtain ⟨acknowledgement, member, -⟩ := leaving
    cases member
  · intro _ settled
    rw [Host.resetQueues_peer]
    exact settled

/-! ## States and events -/

/-- A change of state that the connection agrees with. -/
theorem changeState (tracks : Tracks base index host event) (state : PeerState)
    (connected : (host.peers index).state ≠ .disconnected)
    (agrees : ∀ current : Connection, current.Agrees (host.peers index).state →
      current.Agrees state)
    (leaving : (host.peers index).AcknowledgesDisconnect → state.isLeaving = true)
    (settled : StoredFor event index → state.isSettled = true) :
    Tracks base index (host.changeState index state) event := by
  refine tracks.of_history (Host.changeState_history ..) ?_ ?_
  · intro connections reported
    rw [Host.changeState_peer]
    exact reported.setState state connected agrees leaving
  · intro stored _
    rw [Host.changeState_peer]
    exact settled stored

theorem scheduleDispatch (tracks : Tracks base index host event) :
    Tracks base index (host.scheduleDispatch index) event :=
  tracks.of_same (Host.scheduleDispatch_history ..) (by rw [Host.scheduleDispatch_peer]; rfl)
    (by rw [Host.scheduleDispatch_peer]; rfl)

theorem dispatchState (tracks : Tracks base index host event) (state : PeerState)
    (connected : (host.peers index).state ≠ .disconnected)
    (agrees : ∀ current : Connection, current.Agrees (host.peers index).state →
      current.Agrees state)
    (leaving : (host.peers index).AcknowledgesDisconnect → state.isLeaving = true)
    (settled : StoredFor event index → state.isSettled = true) :
    Tracks base index (host.dispatchState index state) event :=
  (tracks.changeState state connected agrees leaving settled).scheduleDispatch

/-- A peer that is lost is a zombie until it is reported. -/
theorem dispatchZombie (tracks : Tracks base index host event)
    (reportable : (host.peers index).state.isReportable = true) :
    Tracks base index (host.dispatchState index .zombie) event :=
  tracks.dispatchState .zombie (PeerState.connected_of_isReportable reportable)
    (fun _ agrees => agrees.reportable reportable) (fun _ => rfl) fun _ => rfl

/-- What is stored is the next event of the connection. -/
theorem storeEvent (tracks : Tracks base index host (some noted))
    (fresh : Host.isStored (some noted) = false) (type : EventType) (data : Nat)
    (real : type ≠ .none) (history : host'.history = host.history ++ [.event index type])
    (reported : Reported (host'.peers index)
      (Connection.record index (connections index host.history) (.event index type)))
    (settled : (host'.peers index).state.isSettled = true) :
    Tracks base index host' (some (host.storeEvent index type data noted).2) := by
  have told := tracks.told
  rw [reportedEvent_of_fresh fresh, List.append_nil] at told
  refine ⟨?_, ?_, fun _ => settled⟩
  · rw [history, connections_append]
    exact reported
  · rw [history, eventsSeen_append, told]
    exact congrArg _ (if_neg real).symm

/-- A CONNECT event, of a connection that was not reported before. -/
theorem connectEvent (tracks : Tracks base index host (some noted))
    (fresh : Host.isStored (some noted) = false) (data : Nat)
    (connected : (host.peers index).state ≠ .disconnected)
    (unreported : ∀ current : Connection, current.Agrees (host.peers index).state →
      current.events = [])
    (stays : ¬(host.peers index).AcknowledgesDisconnect) :
    Tracks base index ((host.changeState index .connected).storeEvent index .connect data noted).1
      (some ((host.changeState index .connected).storeEvent index .connect data noted).2) := by
  refine tracks.storeEvent fresh .connect data (by decide)
    (congrArg (· ++ _) (Host.changeState_history ..)) ?_ ?_
  · refine tracks.reported.store index .connect connected ?_ ?_ ?_
    · exact fun current agrees => (Connection.open_of_connect (unreported current agrees)).legal
    · intro _ current agrees
      have opens := Connection.open_of_connect (unreported current agrees)
      rwa [Host.storeEvent, Host.observe_peers, Host.changeState_peer]
    · intro leaving
      rw [Host.storeEvent, Host.observe_peers, Host.changeState_peer] at leaving
      exact absurd leaving stays
  · rw [Host.storeEvent, Host.observe_peers, Host.changeState_peer]
    rfl

/-- A DISCONNECT event, and the slot is free. -/
theorem disconnectEvent (tracks : Tracks base index host (some noted))
    (fresh : Host.isStored (some noted) = false) (data : Nat)
    (reportable : (host.peers index).state.isReportable = true) :
    Tracks base index ((host.storeEvent index .disconnect data noted).1.peerReset index)
      (some (host.storeEvent index .disconnect data noted).2) := by
  obtain ⟨mtu, same⟩ := (host.storeEvent index .disconnect data noted).1.peerReset_peer index
  have stored : Reported
      (((host.storeEvent index .disconnect data noted).1.peerReset index).peers index)
      (Connection.record index (connections index host.history) (.event index .disconnect)) := by
    refine tracks.reported.store index .disconnect
      (PeerState.connected_of_isReportable reportable) ?_ ?_ ?_
    · exact fun _ agrees => Connection.legal_of_disconnect (agrees.reportable reportable)
    · exact fun connected => absurd (by rw [same]; rfl) connected
    · intro leaving
      obtain ⟨acknowledgement, member, -⟩ := leaving
      rw [same] at member
      cases member
  have told := tracks.told
  rw [reportedEvent_of_fresh fresh, List.append_nil] at told
  refine ⟨?_, ?_, fun _ => by rw [same]; rfl⟩
  · rw [same, Host.peerReset_history, connections_append, Host.storeEvent, Host.observe_history,
      connections_append]
    exact .reset rfl rfl index (host.peers index) stored.legal
  · rw [Host.peerReset_history, eventsSeen_append, Host.storeEvent, Host.observe_history,
      eventsSeen_append, told, List.append_assoc]
    rfl

theorem notifyConnect (tracks : Tracks base index host event)
    (fresh : Host.isStored event = false)
    (waiting : (host.peers index).state = .connecting ∨
      (host.peers index).state = .acknowledgingConnect) :
    Tracks base index (host.notifyConnect index event).1 (host.notifyConnect index event).2 := by
  have recalculates := tracks.sendsFor (.recalculate index host)
  have waits : (host.recalculate.peers index).state = .connecting ∨
      (host.recalculate.peers index).state = .acknowledgingConnect := waiting
  have connected : (host.recalculate.peers index).state ≠ .disconnected := by
    rcases waits with state | state <;> rw [state] <;> decide
  have stays : ¬(host.recalculate.peers index).AcknowledgesDisconnect := by
    intro leaving
    have leaves := recalculates.reported.leaving leaving
    rcases waits with state | state <;> rw [state] at leaves <;> cases leaves
  cases event with
  | some event =>
      refine recalculates.connectEvent fresh _ connected ?_ stays
      intro current agrees
      rcases waits with state | state
      · rw [state] at agrees
        exact agrees.1
      · rw [state] at agrees
        exact agrees
  | none =>
      refine recalculates.dispatchState _ connected ?_ (fun leaving => absurd leaving stays)
        fun stored => absurd stored (StoredFor.not_fresh fresh)
      intro current agrees
      rcases waits with state | state
      · rw [state] at agrees
        rw [if_pos state]
        exact agrees
      · rw [state] at agrees
        rw [if_neg (by rw [state]; decide)]
        exact agrees

theorem recalculateFrom (tracks : Tracks base index host event) (state : PeerState) :
    Tracks base index (host.recalculateFrom state) event := by
  unfold Host.recalculateFrom
  split
  · exact tracks.sendsFor (.recalculate index host)
  · exact tracks

theorem notifyDisconnect (tracks : Tracks base index host event)
    (fresh : Host.isStored event = false) :
    Tracks base index (host.notifyDisconnect index event).1
      (host.notifyDisconnect index event).2 := by
  have recalculates := tracks.recalculateFrom (host.peers index).state
  have same : (host.recalculateFrom (host.peers index).state).peers = host.peers := by
    unfold Host.recalculateFrom
    split <;> rfl
  unfold Host.notifyDisconnect
  dsimp only
  split
  · exact recalculates.peerReset
  next reports =>
      have reportable : ((host.recalculateFrom (host.peers index).state).peers
          index).state.isReportable = true := by
        rw [same]
        cases state : (host.peers index).state <;>
          first | rfl | (rw [state] at reports; exact absurd (by decide) reports)
      cases event with
      | some event => exact recalculates.disconnectEvent fresh 0 reportable
      | none =>
          have clears : Tracks base index
              ((host.recalculateFrom (host.peers index).state).setPeer index
                (((host.recalculateFrom (host.peers index).state).peers index).setEventData 0))
              none := recalculates.setPeer rfl rfl
          refine clears.dispatchZombie ?_
          rw [Host.setPeer_self]
          exact reportable

/-! ## Received commands -/

/-- A received DISCONNECT command: the peer is reported as gone later, waits to
acknowledge it, or was never reported. -/
theorem leaveConnection (tracks : Tracks base index host event) (acknowledge : Bool)
    {state : PeerState} (same : (host.peers index).state = state)
    (stays : ¬(host.peers index).AcknowledgesDisconnect) :
    Tracks base index (host.leaveConnection index state acknowledge) event := by
  unfold Host.leaveConnection
  split
  next pending =>
      refine tracks.dispatchZombie ?_
      rw [same]
      rcases pending with state | state | state <;> rw [state] <;> rfl
  · split
    · split
      · exact (tracks.sendsFor (.recalculate index host)).peerReset
      · exact tracks.peerReset
    next connected =>
        have open_of_agrees : ∀ current : Connection, current.Agrees (host.peers index).state →
            current.Open := by
          intro current agrees
          rw [same] at agrees
          cases state <;> first | exact agrees | exact absurd rfl connected
        have reportable : (host.peers index).state.isReportable = true := by
          rw [same]
          cases state <;> first | rfl | exact absurd rfl connected
        split
        · exact tracks.changeState .acknowledgingDisconnect
            (PeerState.connected_of_isReportable reportable) open_of_agrees
            (fun leaving => absurd leaving stays) fun _ => rfl
        · exact tracks.dispatchZombie reportable

theorem handleDisconnect (tracks : Tracks base index host event) (command : Protocol)
    (data : Nat) : Tracks base index (host.handleDisconnect index command data).1 event := by
  have leaves : Tracks base index ((host.resetQueues index).leaveConnection index
      (host.peers index).state command.acknowledge) event := by
    refine tracks.resetQueues.leaveConnection command.acknowledge ?_ ?_
    · rw [Host.resetQueues_peer]
      rfl
    · rw [Host.resetQueues_peer]
      intro leaving
      obtain ⟨acknowledgement, member, -⟩ := leaving
      cases member
  unfold Host.handleDisconnect
  dsimp only
  split
  · exact tracks
  · split
    · exact leaves.setPeer rfl rfl
    · exact leaves

theorem startDisconnect (tracks : Tracks base index host event) (data : Nat)
    (connected : (host.peers index).state.isConnected = true)
    (none : ¬StoredFor event index) :
    Tracks base index (host.startDisconnect index data) event := by
  have queues : Tracks base index ((((host.resetQueues index).queueOutgoingCommand index
      { command := .disconnect data
        acknowledge := true
        unsequenced := false
        channelID := 0xFF
        reliableSequenceNumber := 0 } Option.none 0 0).1).onDisconnect index) event :=
    (tracks.resetQueues.sendsFor (.queueOutgoingCommand ..)).sendsFor (.onDisconnect index _ index)
  unfold Host.startDisconnect
  dsimp only
  generalize reset : (Host.onDisconnect _ index) = host' at queues ⊢
  have state : (host'.peers index).state = (host.peers index).state := by
    rw [← reset, Host.onDisconnect_peers, (Host.queueOutgoingCommand_sendingOnly ..).state,
      Host.resetQueues_peer]
    rfl
  have acknowledgements : (host'.peers index).acknowledgements = [] := by
    rw [← reset, Host.onDisconnect_peers,
      (Host.queueOutgoingCommand_sendingOnly ..).acknowledgements, Host.resetQueues_peer]
    rfl
  refine queues.of_history rfl ?_ fun stored => absurd stored none
  intro connections reported
  rw [Host.setPeer_self]
  refine reported.setState .disconnecting ?_ ?_ ?_
  · rw [state]
    intro same
    rw [same] at connected
    cases connected
  · intro current agrees
    rw [state] at agrees
    cases same : (host.peers index).state <;>
      first
      | (rw [same] at agrees; exact agrees)
      | (rw [same] at connected; cases connected)
  · intro leaving
    obtain ⟨acknowledgement, member, -⟩ := leaving
    rw [acknowledgements] at member
    cases member

/-- A peer that is to be disconnected later is disconnected. -/
theorem disconnectNow (tracks : Tracks base index host event) (data : Nat)
    (later : (host.peers index).state = .disconnectLater) :
    Tracks base index (host.startDisconnect index data) event :=
  tracks.startDisconnect data (by rw [later]; rfl) (tracks.not_stored (by rw [later]; rfl))

theorem settleAcknowledge (tracks : Tracks base index host event)
    (current : Current event index) (commandNumber : Nat) :
    Tracks base index (host.settleAcknowledge event index commandNumber).1
      (host.settleAcknowledge event index commandNumber).2.1 := by
  unfold Host.settleAcknowledge
  split
  next state =>
      split
      · exact tracks
      · exact tracks.notifyConnect (StoredFor.fresh_of_current current
          (tracks.not_stored (by rw [state]; rfl))) (.inr state)
  next state =>
      split
      · exact tracks
      · exact tracks.notifyDisconnect (StoredFor.fresh_of_current current
          (tracks.not_stored (by rw [state]; rfl)))
  next state =>
      split
      · exact tracks
      · exact tracks.disconnectNow _ state
  · exact tracks

theorem handleAcknowledge (tracks : Tracks base index host event) (current : Current event index)
    (channelID received sentTime : Nat) :
    Tracks base index (host.handleAcknowledge event index channelID received sentTime).1
      (host.handleAcknowledge event index channelID received sentTime).2.1 := by
  unfold Host.handleAcknowledge
  dsimp only
  split
  · exact tracks
  · split
    · exact tracks
    next sent =>
      have times := tracks.quiet (.updateRoundTripTime host index sent)
      exact (times.sendsFor
        (.removeSentReliableCommand _ index received channelID)).settleAcknowledge current _

theorem handleVerifyConnect (tracks : Tracks base index host event)
    (current : Current event index) (fields : VerifyConnect) :
    Tracks base index (host.handleVerifyConnect event index fields).1
      (host.handleVerifyConnect event index fields).2.1 := by
  unfold Host.handleVerifyConnect
  dsimp only
  split
  · exact tracks
  next connecting =>
      rw [not_not] at connecting
      have fresh := StoredFor.fresh_of_current current
        (tracks.not_stored (by rw [connecting]; rfl))
      split
      · have clears : Tracks base index
            (host.setPeer index ((host.peers index).setEventData 0)) event := tracks.setPeer rfl rfl
        refine clears.dispatchZombie ?_
        rw [Host.setPeer_self]
        exact congrArg PeerState.isReportable connecting
      · have removes := SendsFor.removeSentReliableCommand host index 1 0xFF
        have verifies : Tracks base index ((host.removeSentReliableCommand index 1 0xFF).1.setPeer
            index (Host.verifiedPeer
              ((host.removeSentReliableCommand index 1 0xFF).1.peers index) fields)) event :=
          (tracks.sendsFor removes).setPeer rfl rfl
        refine verifies.notifyConnect fresh (.inl ?_)
        rw [Host.setPeer_self]
        exact removes.peer.state.trans connecting

theorem handleCommand (tracks : Tracks base index host event) (current : Current event index)
    (command : Protocol) (data : List UInt8) :
    Tracks base index (host.handleCommand event index command data).1
      (host.handleCommand event index command data).2.1 := by
  by_cases carries : command.command.isData = true
  · obtain ⟨run, same⟩ := ReceiveRun.handleCommand host event index command data false carries
    rw [same]
    exact tracks.receivesFor run.receivesFor
  · unfold Host.handleCommand
    dsimp only
    split
    · exact tracks.handleAcknowledge current _ _ _
    · exact tracks
    · exact tracks.handleVerifyConnect current _
    · exact tracks.handleDisconnect command _
    · exact tracks
    case h_10 =>
      unfold Host.handleBandwidthLimit
      dsimp only
      split
      · exact tracks
      · exact tracks.of_same rfl (by rw [Host.setPeer_self]; rfl) (by rw [Host.setPeer_self]; rfl)
    case h_11 =>
      unfold Host.handleThrottleConfigure
      dsimp only
      split
      · exact tracks
      · exact tracks.setPeer rfl rfl
    all_goals
      rename_i same
      rw [same] at carries
      exact absurd rfl carries

/-- The acknowledgement of a command: a DISCONNECT command is acknowledged for a
peer that is leaving only. -/
theorem acknowledges {command : Protocol} (tracks : Tracks base index host event)
    (leaves : command.command.isDisconnect = true → (host.peers index).state = .disconnected ∨
      (host.peers index).state.isLeaving = true)
    (acknowledges : Acknowledges index command host host') : Tracks base index host' event := by
  cases acknowledges with
  | kept mallocs => exact tracks.of_same rfl rfl rfl
  | queued sentTime mallocs allowed =>
      refine tracks.of_history rfl ?_ fun _ settled => by rw [Host.setPeer_self]; exact settled
      intro connections reported
      rw [Host.setPeer_self]
      refine ⟨reported.legal, reported.agrees, fun ⟨acknowledgement, member, disconnect⟩ => ?_⟩
      rcases List.mem_append.mp member with old | new
      · exact reported.leaving ⟨acknowledgement, old, disconnect⟩
      · rw [List.mem_singleton] at new
        rw [new] at disconnect
        rcases leaves disconnect with free | leaving
        · rw [free] at allowed
          cases allowed
        · exact leaving

theorem commandStep (tracks : Tracks base index host event) (current : Current event index)
    (sentTime : Option Nat) (command : Protocol) (data : List UInt8) :
    Tracks base index (host.commandStep event index sentTime command data).1
      (host.commandStep event index sentTime command data).2.1 := by
  have observes : Tracks base index (host.hear index command data sentTime.isSome) event :=
    tracks.of_plain rfl (by simp [Observation.isPlain]) (fun _ reported => reported)
      fun _ settled => settled
  generalize seen : host.hear index command data sentTime.isSome = host' at observes
  have handles := observes.handleCommand current command data
  have leaves : command.command.isDisconnect = true →
      ((host'.handleCommand event index command data).1.peers index).state = .disconnected ∨
        ((host'.handleCommand event index command data).1.peers index).state.isLeaving = true := by
    intro disconnect
    unfold Host.handleCommand
    cases same : command.command with
    | disconnect data => exact handleDisconnect_state host' index command data
    | _ => rw [same] at disconnect; cases disconnect
  unfold Host.commandStep
  dsimp only
  rw [seen]
  split
  next handled => rw [handled] at handles; exact handles
  next handled =>
      rw [handled] at handles leaves
      exact handles.acknowledges leaves (.acknowledgeStage ..)

/-! ## Sending, connecting and dispatching -/

/-- Acknowledgements are sent in the order in which they were queued; with that of
a DISCONNECT command the peer is gone. -/
theorem sendAcknowledgements (index : Nat) (acknowledgements : List Acknowledgement) :
    ∀ {host : Host}, Tracks base index host event →
      (host.peers index).acknowledgements = acknowledgements →
        Tracks base index (Host.sendAcknowledgements index acknowledgements host) event := by
  induction acknowledgements with
  | nil => intro host tracks _; exact tracks
  | cons acknowledgement rest ih =>
      intro host tracks queued
      unfold Host.sendAcknowledgements
      dsimp only
      split
      · exact tracks.setPeer rfl rfl
      · have drop : ∀ {before : Host}, Tracks base index before event →
            (∀ other ∈ rest, other ∈ (before.peers index).acknowledgements) →
            Tracks base index (before.setPeer index
              ((before.peers index).setAcknowledgements rest)) event := by
          intro before tracks kept
          refine tracks.of_history rfl ?_ fun _ settled => by rw [Host.setPeer_self]; exact settled
          intro connections reported
          rw [Host.setPeer_self]
          refine ⟨reported.legal, reported.agrees, ?_⟩
          rintro ⟨other, member, disconnect⟩
          exact reported.leaving ⟨other, kept other member, disconnect⟩
        have still : ∀ other ∈ rest, other ∈ (host.peers index).acknowledgements :=
          fun other member => queued ▸ List.mem_cons_of_mem _ member
        have pushes : ∀ datagram, Tracks base index (host.setDatagram datagram) event :=
          fun datagram => tracks.quiet (.setDatagram host datagram)
        refine ih ?_ (by rw [Host.setPeer_self]; rfl)
        split
        next data disconnect =>
            have leaves := tracks.reported.leaving
              ⟨acknowledgement, queued ▸ List.mem_cons_self, by rw [disconnect]; rfl⟩
            have reportable : (host.peers index).state.isReportable = true := by
              cases state : (host.peers index).state <;>
                first | rfl | (rw [state] at leaves; cases leaves)
            refine drop ((pushes _).dispatchZombie reportable) ?_
            rw [Host.dispatchState_peer]
            exact still
        · exact drop (pushes _) still

theorem checkOutgoingCommands (tracks : Tracks base index host event)
    (sentUnreliable : List OutgoingCommand) :
    Tracks base index (host.checkOutgoingCommands index sentUnreliable).1 event := by
  have sends := Peer.SendingOnly.checkOutgoingCommands (host.peers index) host.heap host.datagram
    sentUnreliable host.serviceTime
  have checks : ∀ heap datagram, Tracks base index (((host.setHeap heap).setDatagram
      datagram).setPeer index ((host.peers index).checkOutgoingCommands host.heap host.datagram
        sentUnreliable host.serviceTime).finish) event :=
    fun heap datagram => tracks.of_same rfl (by rw [Host.setPeer_self]; exact sends.state)
      (by rw [Host.setPeer_self]; exact sends.acknowledgements)
  unfold Host.checkOutgoingCommands
  dsimp only
  split
  next later => exact (checks _ _).disconnectNow _ (by rw [Host.setPeer_self]; exact later.1)
  · exact checks _ _

theorem removeSentUnreliableCommands (tracks : Tracks base index host event)
    (sentUnreliable : List OutgoingCommand) :
    Tracks base index (host.removeSentUnreliableCommands index sentUnreliable) event := by
  have releases : ∀ heap, Tracks base index (host.setHeap heap) event :=
    fun heap => tracks.of_same rfl rfl rfl
  unfold Host.removeSentUnreliableCommands
  split
  · exact tracks
  · dsimp only
    split
    next later => exact (releases _).disconnectNow _ later.1
    · exact releases _

theorem startDatagram (tracks : Tracks base index host event) :
    Tracks base index (host.startDatagram index) event := by
  refine sendAcknowledgements index _ (tracks.of_same rfl ?_ ?_) ?_
  · rw [Host.setPeer_self]
    rfl
  · rw [Host.setPeer_self]
    rfl
  · rfl

theorem checkTimeouts (tracks : Tracks base index host event)
    (fresh : Host.isStored event = false) :
    Tracks base index (host.checkTimeouts index event).1 (host.checkTimeouts index event).2.1 := by
  have checks := tracks.sendsFor (.setPeer host
    (Peer.SendingOnly.checkTimeouts (host.peers index) host.serviceTime))
  unfold Host.checkTimeouts
  dsimp only
  split
  · exact checks.notifyDisconnect fresh
  · exact checks

/-- A free slot that a connection takes. -/
theorem takeSlot {peer : Peer} {locally : Bool} (tracks : Tracks base index host event)
    (free : (host.peers index).state = .disconnected) (takes : (host.peers index).TakenBy peer)
    (agrees : (⟨locally, [], false⟩ : Connection).Agrees peer.state)
    (fresh : Host.isStored event = false) :
    Tracks base index ((host.observe (.started index locally)).setPeer index peer) event := by
  refine ⟨?_, ?_, fun stored => absurd stored (StoredFor.not_fresh fresh)⟩
  · rw [Host.setPeer_history, Host.observe_history, connections_append, Host.setPeer_self]
    refine tracks.reported.start index locally agrees fun ⟨other, member, disconnect⟩ => ?_
    rw [takes.acknowledgements] at member
    have leaves := tracks.reported.leaving ⟨other, member, disconnect⟩
    rw [free] at leaves
    cases leaves
  · rw [Host.setPeer_history, Host.observe_history, eventsSeen_append, tracks.told]
    exact List.append_nil _

/-- What is done for another peer. -/
theorem frame {other : Nat} {event' : Option Event} (tracks : Tracks base index host event)
    (acts : ActsOn other host host') (different : index ≠ other)
    (told : Tracks base other host' event') (stores : event' = event ∨ Current event' other) :
    Tracks base index host' event' := by
  obtain ⟨seen, history, about⟩ := acts.history
  refine ⟨?_, told.told, fun stored => ?_⟩
  · rw [history, acts.others index different, connections_append_others]
    · exact tracks.reported
    · exact fun observation member same => different (same.symm.trans (about observation member))
  · rw [acts.others index different]
    rcases stores with same | current
    · exact tracks.settled (same ▸ stored)
    · have here := current stored.stored
      rw [stored.about] at here
      cases here
      exact absurd rfl different

end Tracks

/-- The events of every slot of a host. -/
def TracksAll (base : List (Nat × EventType)) (activity : Activity) : Prop :=
  ∀ index, Tracks base index activity.1 activity.2

namespace TracksAll

variable {base : List (Nat × EventType)} {host host' : Host} {event event' : Option Event}

/-- What is done for one peer. -/
theorem acts {other : Nat} (tracks : TracksAll base (host, event)) (acts : ActsOn other host host')
    (own : Tracks base other host event → Tracks base other host' event')
    (stores : event' = event ∨ Current event' other) : TracksAll base (host', event') := by
  intro index
  have told := own (tracks other)
  by_cases same : index = other
  · subst same
    exact told
  · exact (tracks index).frame acts same told stores

/-- What is done for one peer and stores no event. -/
theorem silent {other : Nat} (tracks : TracksAll base (host, event))
    (acts : ActsOn other host host')
    (own : Tracks base other host event → Tracks base other host' event) :
    TracksAll base (host', event) :=
  tracks.acts acts own (.inl rfl)

theorem sendStep {before after : Sending} (step : SendStep before after)
    (tracks : TracksAll base (before.1, event)) : TracksAll base (after.1, event) := by
  cases step with
  | quiet sentUnreliable quiet => exact fun index => (tracks index).quiet quiet
  | startDatagram host other used =>
      exact tracks.silent (.startDatagram host other) Tracks.startDatagram
  | queue host sentUnreliable other command maintenance =>
      exact tracks.silent (.queueOutgoingCommand ..) fun own =>
        own.sendsFor (.queueOutgoingCommand ..)
  | checkOutgoing host sentUnreliable other =>
      exact tracks.silent (.checkOutgoingCommands ..) fun own =>
        own.checkOutgoingCommands sentUnreliable
  | removeSent host sentUnreliable other =>
      exact tracks.silent (.removeSentUnreliableCommands ..) fun own =>
        own.removeSentUnreliableCommands sentUnreliable

theorem sends (tracks : TracksAll base (host, event)) (sends : Sends host host') :
    TracksAll base (host', event) :=
  Library.runs_keep (fun sending : Sending => TracksAll base (sending.1, event)) sendStep sends
    tracks

theorem hostConnect (tracks : TracksAll base (host, none)) (address : Address)
    (channelCount data : Nat) :
    TracksAll base ((host.hostConnect address channelCount data).1, none) := by
  cases free : host.freePeer with
  | none =>
      unfold Host.hostConnect
      rw [free]
      exact tracks
  | some slot =>
      have disconnected := Host.freePeer_disconnected free
      refine tracks.silent (.hostConnect address channelCount data free) fun own => ?_
      unfold Host.hostConnect
      rw [free]
      dsimp only
      split
      next heap _ =>
          exact own.of_same rfl (by rw [Host.setPeer_self]; rfl) (by rw [Host.setPeer_self]; rfl)
      next heap _ _ =>
          have installs : Tracks base slot (host.setHeap heap) none := own.of_same rfl rfl rfl
          exact ((installs.quiet (.random _)).takeSlot disconnected (Host.connectingPeer_takes ..)
            ⟨rfl, rfl⟩ rfl).sendsFor (.queueOutgoingCommand ..)

theorem handleConnect (tracks : TracksAll base (host, event)) (fields : Connect)
    (fresh : Host.isStored event = false) :
    TracksAll base ((host.handleConnect fields).1, event) := by
  cases free : host.freePeer with
  | none =>
      unfold Host.handleConnect
      rw [free]
      split <;> exact tracks
  | some slot =>
      have disconnected := Host.freePeer_disconnected free
      refine tracks.silent (.handleConnect fields free) fun own => ?_
      unfold Host.handleConnect
      rw [free]
      split
      · exact own
      · dsimp only
        split
        · exact own
        · split
          next heap _ =>
              exact own.of_same rfl (by rw [Host.setPeer_self]; rfl)
                (by rw [Host.setPeer_self]; rfl)
          next heap _ _ =>
              have installs : Tracks base slot (host.setHeap heap) event := own.of_same rfl rfl rfl
              exact (installs.takeSlot disconnected (Host.acceptedPeer_takes ..) rfl fresh).sendsFor
                (.queueOutgoingCommand ..)

end TracksAll

namespace Tracks

variable {base : List (Nat × EventType)} {host : Host} {noted : Event} {index : Nat}

/-- A packet event of a connected peer. -/
theorem receiveEvent (tracks : Tracks base index host (some noted))
    (fresh : Host.isStored (some noted) = false) (packet : Packet) (channelID : Nat)
    (connected : (host.peers index).state = .connected) :
    Tracks base index
      (host.storeEvent index .receive noted.data (noted.setPacket packet channelID)).1
      (some (host.storeEvent index .receive noted.data (noted.setPacket packet channelID)).2) := by
  have fills : Tracks base index host (some (noted.setPacket packet channelID)) :=
    ⟨tracks.reported, tracks.told, fun stored => tracks.settled ⟨stored.stored, stored.about⟩⟩
  refine fills.storeEvent fresh .receive noted.data (by decide) rfl ?_ ?_
  · refine tracks.reported.store index .receive (by rw [connected]; decide) ?_ ?_
      tracks.reported.leaving
    · intro current agrees
      rw [connected] at agrees
      exact (Connection.Open.receive agrees).legal
    · intro _ current agrees
      rw [connected] at agrees
      rw [Host.storeEvent, Host.observe_peers, connected]
      exact Connection.Open.receive agrees
  · rw [Host.storeEvent, Host.observe_peers, connected]
    rfl

theorem dispatchTurn (tracks : Tracks base index host (some noted))
    (fresh : Host.isStored (some noted) = false) :
    Tracks base index (host.dispatchTurn index noted).1
      (some (host.dispatchTurn index noted).2.1) := by
  unfold Host.dispatchTurn
  dsimp only
  generalize taken : (host.setDispatchQueue (host.dispatchQueue.remove (.peer index))).setPeer index
    _ = popped
  have takes : Tracks base index popped (some noted) := by
    rw [← taken]
    exact tracks.of_same rfl (by rw [Host.setPeer_self]; rfl) (by rw [Host.setPeer_self]; rfl)
  have states : (popped.peers index).state = (host.peers index).state := by
    rw [← taken, Host.setPeer_self]
    rfl
  split
  next state =>
      have state : (popped.peers index).state = .connectionPending := states.trans state
      refine takes.connectEvent fresh _ (by rw [state]; decide) ?_ ?_
      · intro current agrees
        rw [state] at agrees
        exact agrees
      · intro leaving
        have leaves := takes.reported.leaving leaving
        rw [state] at leaves
        cases leaves
  next state =>
      have state : (popped.peers index).state = .connectionSucceeded := states.trans state
      refine takes.connectEvent fresh _ (by rw [state]; decide) ?_ ?_
      · intro current agrees
        rw [state] at agrees
        exact agrees.1
      · intro leaving
        have leaves := takes.reported.leaving leaving
        rw [state] at leaves
        cases leaves
  next state =>
      refine (takes.sendsFor (.recalculate index popped)).disconnectEvent fresh _ ?_
      exact congrArg PeerState.isReportable (states.trans state)
  next state =>
      have receives := ReceivesFor.peerReceive popped index
      split
      next received =>
          rw [received] at receives
          exact takes.receivesFor receives
      next after packet channelID received =>
          rw [received] at receives
          have stores := (takes.receivesFor receives).receiveEvent fresh packet channelID
            (receives.peer.state.trans (states.trans state))
          split
          · exact stores
          · exact stores.scheduleDispatch
  · exact takes

end Tracks

theorem dispatchTurn_current (host : Host) (index : Nat) {event : Event}
    (fresh : Host.isStored (some event) = false) :
    Current (some (host.dispatchTurn index event).2.1) index := by
  unfold Host.dispatchTurn
  dsimp only
  split
  · exact fun _ => rfl
  · exact fun _ => rfl
  · exact fun _ => rfl
  · split
    · exact .of_fresh fresh index
    · exact fun _ => rfl
  · exact .of_fresh fresh index

theorem checkTimeouts_current {host : Host} {index : Nat} {event : Option Event}
    (current : Current event index) : Current (host.checkTimeouts index event).2.1 index := by
  unfold Host.checkTimeouts
  dsimp only
  split
  · exact notifyDisconnect_current current
  · exact current

namespace TracksAll

variable {base : List (Nat × EventType)}

/-- **A step stores at most the event that it leaves behind, and one that the
connection of its slot allows.** -/
theorem step {before after : Activity} (step : Step before after)
    (tracks : TracksAll base before) : TracksAll base after := by
  cases step with
  | send event sends => exact tracks.sends sends
  | command host event other sentTime command data current =>
      exact tracks.acts (.commandStep ..) (fun own => own.commandStep current sentTime command data)
        (.inr (commandStep_current sentTime command data current))
  | accept host event fields fresh => exact tracks.handleConnect fields fresh
  | timeouts host event other fresh =>
      exact tracks.acts (.checkTimeouts ..) (fun own => own.checkTimeouts fresh)
        (.inr (checkTimeouts_current (.of_fresh fresh other)))
  | dispatch host event other first fresh =>
      exact tracks.acts (.dispatchTurn ..) (fun own => own.dispatchTurn fresh)
        (.inr (dispatchTurn_current host other fresh))
  | connect host address channelCount data =>
      exact tracks.hostConnect address channelCount data
  | packet host other channelID packet =>
      exact tracks.silent (.peerSend ..) fun own => own.sendsFor (.peerSend ..)
  | receive host other =>
      exact tracks.silent (.peerReceive ..) fun own => own.receivesFor (.peerReceive host other)
  | reset host other => exact tracks.silent (.peerReset ..) Tracks.peerReset
  | startDisconnect host other data connected =>
      exact tracks.silent (.startDisconnect ..) fun own =>
        own.startDisconnect data connected (StoredFor.not_fresh rfl)
  | disconnectLater host other data connected =>
      refine tracks.silent (.setPeer ..) fun own => ?_
      refine own.of_history rfl ?_ fun stored => absurd stored (StoredFor.not_fresh rfl)
      intro connections reported
      rw [Host.setPeer_self]
      refine (reported.setState .disconnectLater ?_ ?_ ?_).of_same rfl rfl
      · intro same
        rw [same] at connected
        cases connected
      · intro current agrees
        cases same : (host.peers other).state <;>
          first
          | (rw [same] at agrees; exact agrees)
          | (rw [same] at connected; cases connected)
      · intro leaving
        have leaves := own.reported.leaving leaving
        cases same : (host.peers other).state <;>
          first
          | exact absurd leaves (by rw [same]; decide)
          | exact absurd connected (by rw [same]; decide)
  | abandon host other data sends =>
      have leaves : TracksAll base (((host.resetQueues other).queueOutgoingCommand other
          (Host.disconnectCommand data) none 0 0).1, none) :=
        tracks.silent ((ActsOn.resetQueues host other).trans (.queueOutgoingCommand ..))
          fun own => own.resetQueues.sendsFor (.queueOutgoingCommand ..)
      exact (leaves.sends sends).silent (.peerReset ..) Tracks.peerReset
  | discard host packet unreferenced => exact fun index => (tracks index).of_same rfl rfl rfl
  | configure host => exact fun index => (tracks index).of_same rfl rfl rfl

theorem create (heap : Heap) (world : World) (randomSeed peerCount channelLimit incomingBandwidth
    outgoingBandwidth : Nat) {event : Option Event} (fresh : Host.isStored event = false) :
    TracksAll [] (Host.create heap world randomSeed peerCount channelLimit incomingBandwidth
      outgoingBandwidth, event) := by
  intro index
  refine ⟨.of_disconnected rfl rfl ⟨[], rfl, by simp⟩, ?_, fun _ => rfl⟩
  rw [reportedEvent_of_fresh fresh]
  rfl

/-- Between calls `*event` is cleared, and what it held was told. -/
theorem clears {host : Host} {event event' : Option Event} (tracks : TracksAll base (host, event))
    (fresh : Host.isStored event' = false) :
    TracksAll (eventsSeen host.history) (host, event') := by
  intro index
  refine ⟨(tracks index).reported, ?_, fun stored => absurd stored (StoredFor.not_fresh fresh)⟩
  rw [reportedEvent_of_fresh fresh, List.append_nil]

end TracksAll

theorem tracksAll_of_visited {activity : Activity} (visited : Visited activity) :
    ∃ base, TracksAll base activity :=
  visited.keeps (fun activity => ∃ base, TracksAll base activity)
    (fun _ _ _ _ _ _ _ _ fresh => ⟨_, .create _ _ _ _ _ _ _ fresh⟩)
    (fun ⟨_, tracks⟩ fresh => ⟨_, tracks.clears fresh⟩)
    (fun step ⟨base, tracks⟩ => ⟨base, tracks.step step⟩)

theorem tracksAll_of_reachable {host : Host} {event : Option Event}
    (reachable : Host.Reachable host) (fresh : Host.isStored event = false) :
    TracksAll (eventsSeen host.history) (host, event) := by
  obtain ⟨base, tracks⟩ := tracksAll_of_visited (Visited.of_reachable reachable fresh)
  exact tracks.clears fresh

/-- A connected peer owes no acknowledgement of a DISCONNECT command. -/
theorem Visited.unowed {activity : Activity} (visited : Visited activity) {index : Nat}
    (connected : (activity.1.peers index).state.isConnected = true) :
    ¬(activity.1.peers index).AcknowledgesDisconnect := by
  intro owed
  obtain ⟨base, tracks⟩ := tracksAll_of_visited visited
  have leaving := (tracks index).reported.leaving owed
  unfold PeerState.isLeaving at leaving
  cases state : (activity.1.peers index).state <;> rw [state] at connected leaving <;>
    first | exact absurd leaving (by decide) | cases connected

/-! ## What calls report -/

/-- **What calls report.** The events of a slot are, connection by connection,
those of its connections, and none comes after the reset of its slot; a call adds
to the events exactly the one that it leaves in `*event`, if it leaves one there;
and then it returns one. -/
theorem events_legal {fuel : Nat} {host host' : Host} {event : Option Event} {value : Int}
    (call : Host.Call) (reachable : Host.Reachable host)
    (returns : call.run fuel host = some (host', event, value)) :
    (∀ index, ∃ list, connections index host'.history = some list ∧
      ∀ connection ∈ list, connection.Legal) ∧
    eventsSeen host'.history = eventsSeen host.history ++ reportedEvent event ∧
    (reportedEvent event ≠ [] → value = 1) := by
  have tracks := Library.runs_keep (TracksAll (eventsSeen host.history))
    (fun step tracks => tracks.step step) (call_run call returns)
    (tracksAll_of_reachable reachable (call_event_fresh call))
  refine ⟨fun index => (tracks index).reported.legal, (tracks 0).told, fun told => ?_⟩
  cases stored : Host.isStored event with
  | false => exact absurd (reportedEvent_of_fresh stored) told
  | true => exact call_stored call returns stored

/-- Datagrams of one connection: a CONNECT command, the acknowledgement of its answer, a
packet of one byte, and a DISCONNECT command. -/
def closingDatagrams : List (Address × List UInt8) :=
  connectDatagrams ++ [
    (⟨7, 9⟩, [0, 0] ++ (⟨.sendReliable 1, false, false, 0, 1⟩ : Protocol).encode ++ [65]),
    (⟨7, 9⟩, []),
    (⟨7, 9⟩, [0, 0] ++ (⟨.disconnect 5, false, false, 0xFF, 0⟩ : Protocol).encode)]

/-- Calls report the connection and its packet, and the next one its end. -/
theorem events_legal_closed :
    ∃ host host' event, servedHost closingDatagrams 3 = some host ∧
      Host.Call.run 5 host (.service (some noEvent) 0) = some (host', event, 1) ∧
      eventsSeen host.history = [(0, .connect), (0, .receive)] ∧
      reportedEvent event = [(0, .disconnect)] ∧
      connections 0 host'.history = some [⟨false, [.connect, .receive, .disconnect], true⟩] ∧
      (∀ index, ∃ list, connections index host'.history = some list ∧
        ∀ connection ∈ list, connection.Legal) ∧
      eventsSeen host'.history = eventsSeen host.history ++ reportedEvent event ∧
      (reportedEvent event ≠ [] → (1 : Int) = 1) := by
  have evaluated : (servedHost closingDatagrams 3).bind (fun host =>
      (Host.Call.run 5 host (.service (some noEvent) 0)).map fun result =>
        (eventsSeen host.history, reportedEvent result.2.1, result.2.2,
          connections 0 result.1.history)) =
      some ([(0, .connect), (0, .receive)], [(0, .disconnect)], 1,
        some [⟨false, [.connect, .receive, .disconnect], true⟩]) := by decide +kernel
  obtain ⟨host, serves, runs⟩ := Option.bind_eq_some_iff.mp evaluated
  obtain ⟨⟨host', event, value⟩, returns, same⟩ := Option.map_eq_some_iff.mp runs
  simp only [Prod.mk.injEq] at same
  obtain ⟨seen, told, one, closed⟩ := same
  rw [one] at returns
  exact ⟨host, host', event, serves, returns, seen, told, closed,
    events_legal (.service (some noEvent) 0) (servedHost_reachable serves) returns⟩

end Enet
