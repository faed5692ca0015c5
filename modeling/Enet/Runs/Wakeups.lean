import Enet.Runs.DispatchQueue

/-!
# Wakeups

A peer that has something for the application is flagged for dispatch: a state
change that is yet to be reported, or received packets. The dispatch loop clears
the flag before it looks at the state of the peer, and raises it again where
packets are left.

The flag is never lost, but the place in the queue can be. `enet_peer_reset`
leaves a flagged peer linked, and its next insertion closes the queue over the
peers behind it.
-/

set_option autoImplicit false

namespace Enet

open Relation

/-- The peer has something for the application: its state is to be reported, or
packets wait. -/
def Peer.awaitsDispatch (peer : Peer) : Bool :=
  match peer.state with
  | .connectionPending | .connectionSucceeded | .zombie => true
  | .connected => !peer.dispatchedCommands.isEmpty
  | _ => false

/-- A peer that has something for the application is flagged; before its
connection is up it has no packets. -/
structure Awake (peer : Peer) : Prop where
  flagged : peer.awaitsDispatch = true → peer.needsDispatch = true
  early : peer.state.isEarly = true → peer.dispatchedCommands = []

namespace Awake

variable {peer peer' : Peer}

theorem of_same (awake : Awake peer) (state : peer'.state = peer.state)
    (needsDispatch : peer'.needsDispatch = peer.needsDispatch)
    (dispatched : peer'.dispatchedCommands = peer.dispatchedCommands) : Awake peer' := by
  refine ⟨fun awaits => ?_, fun early => ?_⟩
  · rw [needsDispatch]
    refine awake.flagged ?_
    rwa [Peer.awaitsDispatch, state, dispatched] at awaits
  · rw [dispatched]
    exact awake.early (state ▸ early)

/-- A peer with nothing for the application. -/
theorem of_idle (idle : peer.awaitsDispatch = false)
    (early : peer.state.isEarly = true → peer.dispatchedCommands = []) : Awake peer := by
  refine ⟨fun awaits => ?_, early⟩
  rw [idle] at awaits
  cases awaits

theorem sendingOnly (awake : Awake peer) (sending : peer.SendingOnly peer') : Awake peer' :=
  awake.of_same sending.state sending.needsDispatch sending.dispatchedCommands

theorem alike (awake : Awake peer) (alike : peer.Alike peer') : Awake peer' :=
  awake.of_same alike.state alike.needsDispatch alike.dispatchedCommands

end Awake

/-! ## Functions of a peer -/

namespace Awake

variable {host host' : Host} {index : Nat}

/-- What is done for some peer. -/
theorem acts {other : Nat} (awake : Awake (host.peers index)) (acts : ActsOn other host host')
    (own : Awake (host.peers other) → Awake (host'.peers other)) : Awake (host'.peers index) := by
  by_cases same : index = other
  · subst same
    exact own awake
  · rw [acts.others index same]
    exact awake

theorem peerReset (host : Host) (index : Nat) : Awake ((host.peerReset index).peers index) := by
  obtain ⟨mtu, same⟩ := host.peerReset_peer index
  rw [same]
  exact of_idle rfl fun _ => rfl

/-- A state that is to be reported is scheduled. -/
theorem dispatchState (host : Host) (index : Nat) {state : PeerState}
    (early : state.isEarly = true → (host.peers index).dispatchedCommands = []) :
    Awake ((host.dispatchState index state).peers index) := by
  rw [Host.dispatchState_peer]
  exact ⟨fun _ => rfl, early⟩

/-- A change to a state that is not reported later. -/
theorem changeState (host : Host) (index : Nat) {state : PeerState}
    (idle : ((host.peers index).setState state).awaitsDispatch = false)
    (early : state.isEarly = true → (host.peers index).dispatchedCommands = []) :
    Awake ((host.changeState index state).peers index) := by
  rw [Host.changeState_peer]
  exact of_idle idle early

/-- A peer without packets is connected. -/
theorem connect (host : Host) (index : Nat)
    (empty : (host.peers index).dispatchedCommands = []) :
    Awake ((host.changeState index .connected).peers index) := by
  refine changeState host index ?_ fun _ => empty
  unfold Peer.awaitsDispatch
  rw [show ((host.peers index).setState .connected).dispatchedCommands = [] from empty]
  rfl

theorem startDisconnect (host : Host) (index data : Nat) :
    Awake ((host.startDisconnect index data).peers index) := by
  unfold Host.startDisconnect
  dsimp only
  rw [Host.setPeer_self]
  exact of_idle rfl fun early => by cases early

theorem notifyConnect (awake : Awake (host.peers index)) (event : Option Event)
    (early : (host.peers index).state.isEarly = true) :
    Awake ((host.notifyConnect index event).1.peers index) := by
  cases event with
  | some event => exact connect host.recalculate index (awake.early early)
  | none => exact dispatchState host.recalculate index fun _ => awake.early early

theorem notifyDisconnect (host : Host) (index : Nat) (event : Option Event) :
    Awake ((host.notifyDisconnect index event).1.peers index) := by
  unfold Host.notifyDisconnect
  dsimp only
  split
  · exact peerReset _ index
  · cases event with
    | some event => exact peerReset _ index
    | none => exact dispatchState _ index fun early => by cases early

/-! ## Received commands -/

/-- Packets that a dispatch moves are scheduled. -/
theorem installDispatched (awake : Awake (host.peers index)) {channelID : Nat}
    (dispatched : Channel.Dispatched) (connected : (host.peers index).state.isConnected = true) :
    Awake ((host.installDispatched index channelID dispatched).peers index) := by
  have late : ∀ {moved : List IncomingCommand}, (host.peers index).state.isEarly = true →
      moved = [] := by
    intro moved early
    rw [PeerState.isEarly_of_isConnected connected] at early
    cases early
  unfold Host.installDispatched
  dsimp only
  split
  next none =>
      rw [List.isEmpty_iff] at none
      rw [Host.setPeer_self, none, List.append_nil]
      exact awake.of_same rfl rfl rfl
  · rw [Host.scheduleDispatch_peer, Host.setPeer_self]
    exact ⟨fun _ => rfl, late⟩

theorem receiveStep {available : List UInt8} {received : Heard} (awake : Awake (host.peers index))
    (step : ReceiveStep index available received host host') :
    Awake (host'.peers index) := by
  cases step with
  | window group window =>
      rw [Host.setPeer_self]
      exact awake.of_same rfl rfl rfl
  | queue command data dataLength flags fragmentCount takes payload small few counted =>
      unfold Host.queueIncomingCommand
      dsimp only
      split
      · exact awake
      · split
        · exact awake
        · split
          · exact awake
          · split
            · exact awake
            · refine installDispatched ?_ _ ?_
              · rw [Host.setPeer_self]
                exact awake.of_same rfl rfl rfl
              · rw [Host.setPeer_self]
                exact takes.connected
  | fragment channelID reliable address fields takes =>
      unfold Host.addFragment
      split
      · exact awake
      next incoming found =>
          split
          · exact awake
          · dsimp only
            generalize incoming.addFragment fields.fragmentNumber fields.fragmentOffset
              (available.take fields.dataLength) = written
            have writes : Awake ((host.setStartCommand index channelID reliable written).peers
                index) := by
              unfold Host.setStartCommand
              dsimp only
              rw [Host.setPeer_self]
              exact awake.of_same rfl rfl rfl
            have still : ((host.setStartCommand index channelID reliable written).peers
                index).state.isConnected = true := by
              unfold Host.setStartCommand
              dsimp only
              rw [Host.setPeer_self]
              exact takes.connected
            split
            · split
              · exact writes.installDispatched _ still
              · exact writes.installDispatched _ still
            · exact writes

/-- A received DISCONNECT command: a loss that is to be reported is scheduled. -/
theorem leaveConnection (host : Host) (index : Nat) (state : PeerState) (acknowledge : Bool) :
    Awake ((host.leaveConnection index state acknowledge).peers index) := by
  unfold Host.leaveConnection
  split
  · exact dispatchState host index fun early => by cases early
  · split
    · exact peerReset _ index
    · split
      · exact changeState host index rfl fun early => by cases early
      · exact dispatchState host index fun early => by cases early

theorem handleDisconnect (awake : Awake (host.peers index)) (command : Protocol) (data : Nat) :
    Awake ((host.handleDisconnect index command data).1.peers index) := by
  have leaves := leaveConnection (host.resetQueues index) index (host.peers index).state
    command.acknowledge
  unfold Host.handleDisconnect
  dsimp only
  split
  · exact awake
  · split
    · rw [Host.setPeer_self]
      exact leaves.of_same rfl rfl rfl
    · exact leaves

theorem settleAcknowledge (awake : Awake (host.peers index)) (event : Option Event)
    (commandNumber : Nat) :
    Awake ((host.settleAcknowledge event index commandNumber).1.peers index) := by
  unfold Host.settleAcknowledge
  split
  next state =>
      split
      · exact awake
      · exact awake.notifyConnect event (by rw [state]; rfl)
  · split
    · exact awake
    · exact notifyDisconnect host index event
  · split
    · exact awake
    · exact startDisconnect host index _
  · exact awake

theorem handleAcknowledge (awake : Awake (host.peers index)) (event : Option Event)
    (channelID received sentTime : Nat) :
    Awake ((host.handleAcknowledge event index channelID received sentTime).1.peers index) := by
  unfold Host.handleAcknowledge
  dsimp only
  split
  · exact awake
  · split
    · exact awake
    · refine settleAcknowledge ?_ event _
      refine Awake.sendingOnly ?_ (SendsFor.removeSentReliableCommand _ index received
        channelID).peer
      rw [Host.setPeer_self]
      exact awake.alike (.updateRoundTripTime ..)

theorem handleVerifyConnect (awake : Awake (host.peers index)) (event : Option Event)
    (fields : VerifyConnect) :
    Awake ((host.handleVerifyConnect event index fields).1.peers index) := by
  unfold Host.handleVerifyConnect
  dsimp only
  split
  · exact awake
  next connecting =>
      rw [not_not] at connecting
      split
      · exact dispatchState _ index fun early => by cases early
      · have removes := SendsFor.removeSentReliableCommand host index 1 0xFF
        refine notifyConnect ?_ event ?_
        · rw [Host.setPeer_self]
          exact (awake.sendingOnly removes.peer).of_same rfl rfl rfl
        · rw [Host.setPeer_self]
          exact congrArg PeerState.isEarly (removes.peer.state.trans connecting)

theorem handleCommand (awake : Awake (host.peers index)) (event : Option Event)
    (command : Protocol) (data : List UInt8) :
    Awake ((host.handleCommand event index command data).1.peers index) := by
  by_cases carries : command.command.isData = true
  · exact Library.runs_keep (fun host => Awake (host.peers index))
      (fun step awake => awake.receiveStep step)
      (ReceiveRun.handleCommand host event index command data false carries).1 awake
  · unfold Host.handleCommand
    dsimp only
    split
    · exact awake.handleAcknowledge event _ _ _
    · exact awake
    · exact awake.handleVerifyConnect event _
    · exact awake.handleDisconnect command _
    · exact awake
    case h_10 =>
      unfold Host.handleBandwidthLimit
      dsimp only
      split
      · exact awake
      · rw [Host.setPeer_self]
        exact awake.of_same rfl rfl rfl
    case h_11 =>
      unfold Host.handleThrottleConfigure
      dsimp only
      split
      · exact awake
      · rw [Host.setPeer_self]
        exact awake.of_same rfl rfl rfl
    all_goals
      rename_i same
      rw [same] at carries
      exact absurd rfl carries

theorem acknowledges {command : Protocol} (awake : Awake (host.peers index))
    (acknowledges : Acknowledges index command host host') : Awake (host'.peers index) := by
  cases acknowledges with
  | kept mallocs => exact awake
  | queued time mallocs allowed =>
      rw [Host.setPeer_self]
      exact awake.of_same rfl rfl rfl

theorem commandStep (awake : Awake (host.peers index)) (event : Option Event)
    (sentTime : Option Nat) (command : Protocol) (data : List UInt8) :
    Awake ((host.commandStep event index sentTime command data).1.peers index) := by
  have observes : Awake ((host.hear index command data sentTime.isSome).peers index) := awake
  have handles := observes.handleCommand event command data
  unfold Host.commandStep
  dsimp only
  split
  next handled => rw [handled] at handles; exact handles
  next handled =>
      rw [handled] at handles
      exact handles.acknowledges (.acknowledgeStage ..)

/-! ## Sending, connecting and dispatching -/

theorem sendAcknowledgements (index : Nat) (acknowledgements : List Acknowledgement) :
    ∀ {host : Host}, Awake (host.peers index) →
      Awake ((Host.sendAcknowledgements index acknowledgements host).peers index) := by
  induction acknowledgements with
  | nil => intro host awake; exact awake
  | cons acknowledgement rest ih =>
      intro host awake
      unfold Host.sendAcknowledgements
      dsimp only
      split
      · rw [Host.setPeer_self]
        exact awake.alike (.setContinueSending _ _)
      · refine ih ?_
        rw [Host.setPeer_self]
        split
        · rw [Host.dispatchState_peer]
          exact ⟨fun _ => rfl, fun early => by cases early⟩
        · exact awake.of_same rfl rfl rfl

theorem sendStep {before after : Sending} (step : SendStep before after)
    (awake : Awake (before.1.peers index)) : Awake (after.1.peers index) := by
  cases step with
  | quiet sentUnreliable quiet => exact awake.alike (quiet.peers index)
  | startDatagram host other used =>
      refine awake.acts (.startDatagram host other) fun own => sendAcknowledgements other _ ?_
      rw [Host.setPeer_self]
      exact own.alike (.setContinueSending _ _)
  | queue host sentUnreliable other command maintenance =>
      exact awake.acts (.queueOutgoingCommand ..) fun own =>
        own.sendingOnly (Host.queueOutgoingCommand_sendingOnly ..)
  | checkOutgoing host sentUnreliable other =>
      refine awake.acts (.checkOutgoingCommands ..) fun own => ?_
      unfold Host.checkOutgoingCommands
      dsimp only
      split
      · exact startDisconnect _ other _
      · rw [Host.setPeer_self]
        exact own.sendingOnly (.checkOutgoingCommands ..)
  | removeSent host sentUnreliable other =>
      refine awake.acts (.removeSentUnreliableCommands ..) fun own => ?_
      unfold Host.removeSentUnreliableCommands
      split
      · exact own
      · dsimp only
        split
        · exact startDisconnect _ other _
        · exact own

theorem checkTimeouts (awake : Awake (host.peers index)) (event : Option Event) :
    Awake ((host.checkTimeouts index event).1.peers index) := by
  unfold Host.checkTimeouts
  dsimp only
  split
  · exact notifyDisconnect _ index event
  · rw [Host.setPeer_self]
    exact awake.sendingOnly (.checkTimeouts _ _)

/-- A free slot that a connection takes has no packets. -/
theorem takenBy {peer : Peer} (awake : Awake (host.peers index))
    (free : (host.peers index).state = .disconnected) (takes : (host.peers index).TakenBy peer)
    (idle : peer.awaitsDispatch = false) : Awake peer :=
  of_idle idle fun _ => takes.dispatched.trans (awake.early (by rw [free]; rfl))

theorem hostConnect (awake : Awake (host.peers index)) (address : Address)
    (channelCount data : Nat) :
    Awake ((host.hostConnect address channelCount data).1.peers index) := by
  cases free : host.freePeer with
  | none =>
      unfold Host.hostConnect
      rw [free]
      exact awake
  | some slot =>
      have disconnected := Host.freePeer_disconnected free
      refine awake.acts (.hostConnect address channelCount data free) fun own => ?_
      unfold Host.hostConnect
      rw [free]
      dsimp only
      split
      · rw [Host.setPeer_self]
        exact own.of_same rfl rfl rfl
      next heap _ _ =>
          have kept := (Quiet.random (host.setHeap heap)).peers slot
          generalize (host.setHeap heap).random = random at kept ⊢
          refine Awake.sendingOnly ?_ (Host.queueOutgoingCommand_sendingOnly ..)
          rw [Host.setPeer_self]
          have seeded : Awake (random.1.peers slot) := own.alike kept
          exact seeded.takenBy (kept.state.trans disconnected) (Host.connectingPeer_takes ..) rfl

theorem handleConnect (awake : Awake (host.peers index)) (fields : Connect) :
    Awake ((host.handleConnect fields).1.peers index) := by
  cases free : host.freePeer with
  | none =>
      unfold Host.handleConnect
      rw [free]
      split <;> exact awake
  | some slot =>
      have disconnected := Host.freePeer_disconnected free
      refine awake.acts (.handleConnect fields free) fun own => ?_
      unfold Host.handleConnect
      rw [free]
      split
      · exact own
      · dsimp only
        split
        · exact own
        · split
          · rw [Host.setPeer_self]
            exact own.of_same rfl rfl rfl
          · refine Awake.sendingOnly ?_ (Host.queueOutgoingCommand_sendingOnly ..)
            rw [Host.setPeer_self]
            exact own.takenBy disconnected (Host.acceptedPeer_takes ..) rfl

theorem dispatchTurn (awake : Awake (host.peers index)) (event : Event) :
    Awake ((host.dispatchTurn index event).1.peers index) := by
  unfold Host.dispatchTurn
  dsimp only
  generalize taken : (host.setDispatchQueue (host.dispatchQueue.remove (.peer index))).setPeer index
    _ = popped
  have same : popped.peers index = (host.peers index).setNeedsDispatch false := by
    rw [← taken, Host.setPeer_self]
    rfl
  have early : (host.peers index).state.isEarly = true →
      (popped.peers index).dispatchedCommands = [] := by
    rw [same]
    exact awake.early
  split
  next state =>
      exact connect popped index
        (early (by rw [show (host.peers index).state = .connectionPending from state]; rfl))
  next state =>
      exact connect popped index
        (early (by rw [show (host.peers index).state = .connectionSucceeded from state]; rfl))
  · exact peerReset _ index
  next state =>
      -- the flag is raised again where packets are left
      have connected : (popped.peers index).state = .connected := by
        rw [same]
        exact state
      have receives := ReceivesFor.peerReceive popped index
      split
      next after received =>
          rw [received] at receives
          have empty : (popped.peers index).dispatchedCommands = [] ∧ after = popped := by
            unfold Host.peerReceive at received
            dsimp only at received
            split at received
            next none => cases received; exact ⟨none, rfl⟩
            · cases received
          rw [empty.2]
          refine of_idle ?_ fun _ => empty.1
          unfold Peer.awaitsDispatch
          rw [connected, empty.1]
          rfl
      next after packet channelID received =>
          rw [received] at receives
          have still : (after.peers index).state = .connected :=
            receives.peer.state.trans connected
          dsimp only
          split
          next none =>
              rw [List.isEmpty_iff] at none
              refine of_idle ?_ fun _ => none
              unfold Peer.awaitsDispatch
              rw [none, show ((after.storeEvent index .receive event.data
                (event.setPacket packet channelID)).1.peers index).state = .connected from still]
              rfl
          · rw [Host.scheduleDispatch_peer]
            refine ⟨fun _ => rfl, fun early => ?_⟩
            rw [show (((after.storeEvent index .receive event.data
              (event.setPacket packet channelID)).1.peers index).setNeedsDispatch true).state =
                .connected from still] at early
            cases early
  next first second third fourth =>
      refine of_idle ?_ fun still => early (by rw [same] at still; exact still)
      unfold Peer.awaitsDispatch
      rw [same]
      cases state : (host.peers index).state with
      | connectionPending => exact absurd state first
      | connectionSucceeded => exact absurd state second
      | zombie => exact absurd state third
      | connected => exact absurd state fourth
      | _ => rw [show ((host.peers index).setNeedsDispatch false).state = _ from state]

/-- The application takes a packet. -/
theorem peerReceive (awake : Awake (host.peers index)) :
    Awake ((host.peerReceive index).1.peers index) := by
  unfold Host.peerReceive
  dsimp only
  split
  · exact awake
  next command rest dispatched =>
      rw [Host.setPeer_self]
      refine ⟨fun awaits => awake.flagged ?_, fun early => ?_⟩
      · unfold Peer.awaitsDispatch at awaits ⊢
        rw [show ((host.peers index).setDispatched rest (sub64 (host.peers index).totalWaitingData
          command.packet.dataLength)).state = (host.peers index).state from rfl] at awaits
        rw [dispatched]
        split
        · rfl
        · rfl
        · rfl
        · rfl
        next first second third fourth =>
            split at awaits
            next state => exact absurd state first
            next state => exact absurd state second
            next state => exact absurd state third
            next state => exact absurd state fourth
            · cases awaits
      · have none := awake.early early
        rw [dispatched] at none
        cases none

/-- **A step loses no wakeup.** A peer that is abandoned is reset at its end. -/
theorem step {before after : Activity} (step : Step before after)
    (awake : ∀ index, Awake (before.1.peers index)) (index : Nat) :
    Awake (after.1.peers index) := by
  cases step with
  | send event sends =>
      exact Library.runs_keep (fun sending : Sending => Awake (sending.1.peers index)) sendStep
        sends
        (awake index)
  | command host event other sentTime command data current =>
      exact (awake index).acts (.commandStep ..) fun own =>
        own.commandStep event sentTime command data
  | accept host event fields fresh => exact (awake index).handleConnect fields
  | timeouts host event other fresh =>
      exact (awake index).acts (.checkTimeouts ..) fun own => own.checkTimeouts event
  | dispatch host event other first fresh =>
      exact (awake index).acts (.dispatchTurn ..) fun own => own.dispatchTurn event
  | connect host address channelCount data =>
      exact (awake index).hostConnect address channelCount data
  | packet host other channelID packet =>
      exact (awake index).acts (.peerSend ..) fun own =>
        own.sendingOnly (SendsFor.peerSend host other channelID packet).peer
  | receive host other => exact (awake index).acts (.peerReceive ..) peerReceive
  | reset host other => exact (awake index).acts (.peerReset ..) fun _ => peerReset host other
  | startDisconnect host other data connected =>
      exact (awake index).acts (.startDisconnect ..) fun _ => startDisconnect host other data
  | disconnectLater host other data connected =>
      refine (awake index).acts (.setPeer ..) fun _ => ?_
      rw [Host.setPeer_self]
      exact of_idle rfl fun early => by cases early
  | abandon host other data sends =>
      by_cases same : index = other
      · subst same
        exact peerReset _ index
      · have leaves := (ActsOn.resetQueues host other).trans
          (.queueOutgoingCommand _ other (Host.disconnectCommand data) none 0 0)
        have sent := Library.runs_keep (fun sending : Sending => Awake (sending.1.peers index))
          sendStep sends (by rw [leaves.others index same]; exact awake index)
        exact Awake.acts sent (.peerReset ..) fun _ => peerReset _ other
  | discard host packet unreferenced => exact awake index
  | configure host => exact awake index

end Awake

theorem awake_of_visited {activity : Activity} (visited : Visited activity) (index : Nat) :
    Awake (activity.1.peers index) :=
  visited.keeps (fun activity => ∀ index, Awake (activity.1.peers index))
    (fun _ _ _ _ _ _ _ _ _ _ => .of_idle rfl fun _ => rfl) (fun awake _ => awake)
    (fun step awake => Awake.step step awake) index

/-- Between calls, a peer with packets for the application, or whose state is yet
to be reported, is flagged. -/
theorem flagged_of_awaitsDispatch {host : Host} (reachable : Host.Reachable host) (index : Nat)
    (awaits : (host.peers index).state = .connected ∧ (host.peers index).dispatchedCommands ≠ [] ∨
      (host.peers index).state = .connectionPending ∨
      (host.peers index).state = .connectionSucceeded ∨ (host.peers index).state = .zombie) :
    (host.peers index).needsDispatch = true := by
  have awake := awake_of_visited (@Visited.of_reachable host none reachable rfl) index
  refine awake.flagged ?_
  unfold Peer.awaitsDispatch
  rcases awaits with ⟨state, waiting⟩ | state | state | state
  · rw [show ((host, (none : Option Event)).1.peers index).state = .connected from state]
    simpa using waiting
  all_goals rw [show ((host, (none : Option Event)).1.peers index).state = _ from state]

/-! ## The place in the queue -/

/-- A peer that the dispatch queue leads to: it is met when the links are followed
from the sentinel. -/
def Host.IsScheduled (host : Host) (index : Nat) : Prop :=
  ∃ steps, host.dispatchQueue.next^[steps] .sentinel = .peer index

/-- The peers of a ring are scheduled. -/
theorem Linked.isScheduled {host : Host} {queued : List Nat} {index : Nat}
    (inOrder : Linked host queued) (member : index ∈ queued) : host.IsScheduled index :=
  inOrder.ring.reaches (List.mem_map_of_mem member)

/-- Where the queue closes after one peer, no other is scheduled. -/
theorem Host.not_isScheduled {host : Host} {first index : Nat}
    (next : host.dispatchQueue.next .sentinel = .peer first)
    (closes : host.dispatchQueue.next (.peer first) = .sentinel) (other : index ≠ first) :
    ¬host.IsScheduled index := by
  have stays : ∀ steps, host.dispatchQueue.next^[steps] .sentinel = .sentinel ∨
      host.dispatchQueue.next^[steps] .sentinel = .peer first := by
    intro steps
    induction steps with
    | zero => exact .inl rfl
    | succ steps ih =>
        rw [Function.iterate_succ_apply']
        rcases ih with atSentinel | atFirst
        · rw [atSentinel]
          exact .inr next
        · rw [atFirst]
          exact .inl closes
  rintro ⟨steps, reached⟩
  rcases stays steps with atSentinel | atFirst
  · rw [atSentinel] at reached
    cases reached
  · rw [atFirst] at reached
    cases reached
    exact other rfl

/-- **A peer with something for the application is flagged** in every state between
calls, **and it is scheduled as long as no flagged peer was reset.** -/
theorem scheduled_of_awaitsDispatch {host : Host} (reachable : Host.Reachable host) (index : Nat)
    (awaits : (host.peers index).state = .connected ∧ (host.peers index).dispatchedCommands ≠ [] ∨
      (host.peers index).state = .connectionPending ∨
      (host.peers index).state = .connectionSucceeded ∨ (host.peers index).state = .zombie) :
    (host.peers index).needsDispatch = true ∧
      ((∀ seen ∈ host.history, seen.isFlaggedReset = false) → host.IsScheduled index) := by
  have flagged := flagged_of_awaitsDispatch reachable index awaits
  refine ⟨flagged, fun unflagged => ?_⟩
  have visited := @Visited.of_reachable host none reachable rfl
  obtain ⟨queued, inOrder⟩ := (queueSound_of_visited visited).wellFormed unflagged
  exact inOrder.isScheduled ((inOrder.flagged index).mpr flagged)

/-- A connection that `enet_host_service` completes with no event to store it in
stays to be reported. -/
theorem scheduled_of_awaitsDispatch_pending :
    ∃ before host, servedHost connectDatagrams 1 = some before ∧
      Host.Call.run 5 before (.service none 0) = some (host, none, 0) ∧
      (host.peers 0).state = .connectionPending ∧ (host.peers 0).needsDispatch = true ∧
      host.IsScheduled 0 := by
  have evaluated : (servedHost connectDatagrams 1).bind (fun before =>
      (Host.Call.run 5 before (.service none 0)).map fun result =>
        ((result.1.peers 0).state, result.2.1, result.2.2,
          result.1.history.all fun seen => !seen.isFlaggedReset)) =
      some (.connectionPending, none, 0, true) := by decide +kernel
  obtain ⟨before, serves, runs⟩ := Option.bind_eq_some_iff.mp evaluated
  obtain ⟨⟨host, event, value⟩, returns, same⟩ := Option.map_eq_some_iff.mp runs
  simp only [Prod.mk.injEq, List.all_eq_true, Bool.not_eq_true'] at same
  obtain ⟨state, rfl, rfl, unflagged⟩ := same
  have reachable := Host.Reachable.call 5 (.service none 0) (servedHost_reachable serves) returns
  have scheduled := scheduled_of_awaitsDispatch reachable 0 (.inr (.inl state))
  exact ⟨before, host, serves, returns, state, scheduled.1, scheduled.2 unflagged⟩

/-- A VERIFY_CONNECT command for no channels, to the peer in this slot. -/
def refusal (slot : UInt8) : List UInt8 := [0, slot, 0x83, 0xFF, 0, 1] ++ List.replicate 40 0

/-- Two slots connect and are refused; the first is reset while its loss waits to be
reported, connects again, and is refused again. -/
def refusedTwiceHost : Option Host :=
  calledHost
    (.create .ample
      { World.delivering (fun _ => 1) [] with
        receive := fun call =>
          match call with
          | 0 => .datagram ⟨7, 9⟩ (refusal 0)
          | 1 => .datagram ⟨7, 10⟩ (refusal 1)
          | 3 => .datagram ⟨7, 9⟩ (refusal 0)
          | _ => .nothing }
      0 2 1 0 0)
    [.connect ⟨7, 9⟩ 1 0, .connect ⟨7, 10⟩ 1 0, .service none 0, .reset 0,
      .connect ⟨7, 9⟩ 1 0, .service none 0]

/-- The second insertion of the first peer closes the queue after it: the loss of the
second one is flagged and never dispatched. -/
theorem awaitsDispatch_unscheduled :
    ¬∀ host index, Host.Reachable host → (host.peers index).state = .zombie →
      (host.peers index).needsDispatch = true ∧ host.IsScheduled index := by
  intro always
  have evaluated : refusedTwiceHost.map (fun host =>
      ((host.peers 1).state, host.dispatchQueue.next .sentinel,
        host.dispatchQueue.next (.peer 0))) = some (.zombie, .peer 0, .sentinel) := by
    decide +kernel
  obtain ⟨host, called, same⟩ := Option.map_eq_some_iff.mp evaluated
  simp only [Prod.mk.injEq] at same
  obtain ⟨state, next, closes⟩ := same
  have reachable : Host.Reachable host := calledHost_reachable (.create ..) called
  exact Host.not_isScheduled next closes Nat.one_ne_zero (always host 1 reachable state).2

end Enet
