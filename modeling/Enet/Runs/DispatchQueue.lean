import Enet.Runs.Calls

/-!
# The dispatch queue

`host->dispatchQueue` is to be a ring of exactly the peers whose
`ENET_PEER_FLAG_NEEDS_DISPATCH` is set. The flag and the links are written
separately; every function keeps them together except `enet_peer_reset`, which
clears the flags before `enet_peer_reset_queues` reads them. A peer that enters
it flagged stays linked.

The invariant is therefore that the queue is sound as long as no flagged peer
was reset, and each function keeps that.
-/

set_option autoImplicit false

namespace Enet

open Relation
open Library (Links Path)

/-! ## Well-formedness -/

/-- The dispatch queue is a ring of these peers, and they are the flagged ones. -/
structure Linked (host : Host) (queued : List Nat) : Prop where
  ring : Links.IsRing host.dispatchQueue .sentinel (queued.map DispatchNode.peer)
  flagged : ∀ index, index ∈ queued ↔ (host.peers index).needsDispatch = true

/-- The dispatch queue is a ring of exactly the flagged peers. -/
def DispatchQueueWellFormed (host : Host) : Prop := ∃ queued, Linked host queued

/-- A flagged peer was reset. -/
def Observation.isFlaggedReset : Observation → Bool
  | .reset _ before => before.needsDispatch
  | _ => false

/-- The dispatch queue is well formed unless a flagged peer was reset. -/
structure QueueSound (host : Host) : Prop where
  wellFormed : (∀ seen ∈ host.history, seen.isFlaggedReset = false) → DispatchQueueWellFormed host

namespace Linked

variable {host host' : Host} {queued : List Nat} {index : Nat}

/-- What the ring and the flags do not depend on. -/
theorem of_same (inOrder : Linked host queued) (queue : host'.dispatchQueue = host.dispatchQueue)
    (flags : ∀ index, (host'.peers index).needsDispatch = (host.peers index).needsDispatch) :
    Linked host' queued :=
  ⟨by rw [queue]; exact inOrder.ring, fun index => by rw [flags]; exact inOrder.flagged index⟩

/-- No peer occurs twice. -/
theorem nodup (inOrder : Linked host queued) : queued.Nodup :=
  List.Nodup.of_map _ (List.nodup_cons.mp inOrder.ring.distinct).2

/-- The peer after the sentinel is one of them. -/
theorem mem_of_next (inOrder : Linked host queued)
    (first : host.dispatchQueue.next .sentinel = .peer index) : index ∈ queued := by
  rw [inOrder.ring.next_sentinel] at first
  cases queued with
  | nil => cases first
  | cons head rest =>
      cases first
      exact List.mem_cons_self

/-- **A peer without the flag is not linked, so its insertion appends it and
leaves the others linked.** -/
theorem insert (inOrder : Linked host queued)
    (unflagged : (host.peers index).needsDispatch = false) :
    Linked (host.scheduleDispatch index) (queued ++ [index]) := by
  have absent : index ∉ queued := by
    rw [inOrder.flagged, unflagged]
    exact Bool.false_ne_true
  have fresh : DispatchNode.peer index ∉
      DispatchNode.sentinel :: queued.map DispatchNode.peer := by
    simpa using absent
  have inserts : host.scheduleDispatch index =
      (host.setDispatchQueue (host.dispatchQueue.insert .sentinel (.peer index))).setPeer index
        ((host.peers index).setNeedsDispatch true) := by
    rw [Host.scheduleDispatch, unflagged]
    rfl
  rw [inserts]
  refine ⟨?_, fun other => ?_⟩
  · rw [List.map_append, List.map_singleton]
    exact inOrder.ring.insert fresh
  · by_cases same : other = index
    · rw [same, Host.setPeer_self]
      simp [Peer.setNeedsDispatch]
    · rw [Host.setPeer_of_ne _ _ same, List.mem_append, inOrder.flagged]
      simp [same]

/-- Unlinking a peer and clearing its flag. -/
theorem remove (inOrder : Linked host queued) (queue : host'.dispatchQueue =
      host.dispatchQueue.remove (.peer index)) (linked : index ∈ queued)
    (cleared : (host'.peers index).needsDispatch = false)
    (others : ∀ other, other ≠ index →
      (host'.peers other).needsDispatch = (host.peers other).needsDispatch) :
    Linked host' (queued.erase index) := by
  obtain ⟨before, after, absent, split, erased⟩ := List.exists_erase_eq linked
  have ring := inOrder.ring
  rw [split, List.map_append, List.map_cons] at ring
  refine ⟨?_, fun other => ?_⟩
  · rw [queue, erased, List.map_append]
    exact ring.remove
  · by_cases same : other = index
    · subst same
      rw [cleared]
      have gone : other ∉ queued.erase other := inOrder.nodup.not_mem_erase
      simp [gone]
    · rw [others other same, List.mem_erase_of_ne same, inOrder.flagged]

end Linked

namespace QueueSound

variable {host host' : Host} {index : Nat}

/-- A function that changes neither the queue nor the flags. -/
theorem of_same (sound : QueueSound host) (queue : host'.dispatchQueue = host.dispatchQueue)
    (flags : ∀ index, (host'.peers index).needsDispatch = (host.peers index).needsDispatch)
    (history : ∃ seen, host'.history = host.history ++ seen) : QueueSound host' := by
  refine ⟨fun clean => ?_⟩
  obtain ⟨seen, history⟩ := history
  obtain ⟨queued, inOrder⟩ :=
    sound.wellFormed fun observation member => clean observation (by rw [history]; simp [member])
  exact ⟨queued, inOrder.of_same queue flags⟩

theorem acts (sound : QueueSound host) (acts : ActsOn index host host')
    (queue : host'.dispatchQueue = host.dispatchQueue)
    (flag : (host'.peers index).needsDispatch = (host.peers index).needsDispatch) :
    QueueSound host' := by
  obtain ⟨seen, history, -⟩ := acts.history
  refine sound.of_same queue (fun other => ?_) ⟨seen, history⟩
  by_cases same : other = index
  · rw [same]
    exact flag
  · rw [acts.others other same]

theorem quiet (sound : QueueSound host) (quiet : Quiet host host') : QueueSound host' :=
  sound.of_same quiet.dispatchQueue (fun index => (quiet.peers index).needsDispatch)
    ⟨[], by rw [quiet.history, List.append_nil]⟩

theorem sendsFor (sound : QueueSound host) (sends : SendsFor index host host') :
    QueueSound host' :=
  sound.acts sends.acts sends.dispatchQueue sends.peer.needsDispatch

theorem observe (sound : QueueSound host) (observation : Observation) :
    QueueSound (host.observe observation) :=
  sound.of_same rfl (fun _ => rfl) ⟨[observation], rfl⟩

theorem setPeer (sound : QueueSound host) (index : Nat) (peer : Peer)
    (flag : peer.needsDispatch = (host.peers index).needsDispatch) :
    QueueSound (host.setPeer index peer) :=
  sound.acts (.setPeer host index peer) rfl (by rw [Host.setPeer_self]; exact flag)

theorem changeState (sound : QueueSound host) (index : Nat) (state : PeerState) :
    QueueSound (host.changeState index state) := by
  unfold Host.changeState
  split
  · exact (sound.sendsFor (.onConnect index host index)).setPeer index _ rfl
  · exact (sound.sendsFor (.onDisconnect index host index)).setPeer index _ rfl

theorem storeEvent (sound : QueueSound host) (index : Nat) (type : EventType) (data : Nat)
    (event : Event) : QueueSound (host.storeEvent index type data event).1 :=
  sound.acts (.storeEvent host index type data event) rfl rfl

theorem scheduleDispatch (sound : QueueSound host) (index : Nat) :
    QueueSound (host.scheduleDispatch index) := by
  cases flag : (host.peers index).needsDispatch with
  | true =>
      have same : host.scheduleDispatch index = host := by rw [Host.scheduleDispatch, flag]; rfl
      rw [same]
      exact sound
  | false =>
      refine ⟨fun clean => ?_⟩
      have kept : (host.scheduleDispatch index).history = host.history := by
        rw [Host.scheduleDispatch, flag]
        rfl
      rw [kept] at clean
      obtain ⟨queued, inOrder⟩ := sound.wellFormed clean
      exact ⟨queued ++ [index], inOrder.insert flag⟩

theorem dispatchState (sound : QueueSound host) (index : Nat) (state : PeerState) :
    QueueSound (host.dispatchState index state) :=
  (sound.changeState index state).scheduleDispatch index

/-- `enet_peer_reset_queues` reads the flag before it clears it. -/
theorem resetQueues (sound : QueueSound host) (index : Nat) :
    QueueSound (host.resetQueues index) := by
  refine ⟨fun clean => ?_⟩
  obtain ⟨seen, history, -⟩ := (ActsOn.resetQueues host index).history
  obtain ⟨queued, inOrder⟩ :=
    sound.wellFormed fun observation member => clean observation (by rw [history]; simp [member])
  have cleared : ((host.resetQueues index).peers index).needsDispatch = false := by
    rw [Host.resetQueues_peer]
    rfl
  have others : ∀ other, other ≠ index → ((host.resetQueues index).peers other).needsDispatch =
      (host.peers other).needsDispatch := by
    intro other different
    rw [(ActsOn.resetQueues host index).others other different]
  cases flag : (host.peers index).needsDispatch with
  | true =>
      refine ⟨_, inOrder.remove ?_ ((inOrder.flagged index).mpr flag) cleared others⟩
      unfold Host.resetQueues
      dsimp only
      rw [flag]
      rfl
  | false =>
      refine ⟨queued, inOrder.of_same ?_ fun other => ?_⟩
      · unfold Host.resetQueues
        dsimp only
        rw [flag]
        rfl
      · by_cases same : other = index
        · rw [same, cleared, flag]
        · exact others other same

/-- `enet_peer_reset` clears the flag without unlinking the peer, which is sound
where the flag is clear. -/
theorem peerReset (sound : QueueSound host) (index : Nat) :
    QueueSound (host.peerReset index) := by
  have left := SendsFor.onDisconnect index
    (host.observe (.reset index (host.peers index))) index
  refine QueueSound.resetQueues ?_ index
  refine ⟨fun clean => ?_⟩
  rw [Host.setPeer_history, left.history, Host.observe_history] at clean
  have unflagged : (host.peers index).needsDispatch = false :=
    clean (.reset index (host.peers index)) (by simp)
  obtain ⟨queued, inOrder⟩ := sound.wellFormed fun seen member => clean seen (by simp [member])
  refine ⟨queued, inOrder.of_same left.dispatchQueue fun other => ?_⟩
  by_cases same : other = index
  · rw [same, Host.setPeer_self, unflagged]
    rfl
  · rw [Host.setPeer_of_ne _ _ same, left.acts.others other same]
    rfl

theorem startDisconnect (sound : QueueSound host) (index data : Nat) :
    QueueSound (host.startDisconnect index data) :=
  (((sound.resetQueues index).sendsFor (.queueOutgoingCommand ..)).sendsFor
    (.onDisconnect index _ index)).setPeer index _ rfl

theorem notifyConnect (sound : QueueSound host) (index : Nat) (event : Option Event) :
    QueueSound (host.notifyConnect index event).1 := by
  have recalculates := sound.sendsFor (.recalculate index host)
  cases event with
  | none => exact recalculates.dispatchState index _
  | some event =>
      exact (recalculates.changeState index .connected).storeEvent index .connect 0 event

theorem notifyDisconnect (sound : QueueSound host) (index : Nat) (event : Option Event) :
    QueueSound (host.notifyDisconnect index event).1 := by
  have recalculates : QueueSound (host.recalculateFrom (host.peers index).state) := by
    unfold Host.recalculateFrom
    split
    · exact sound.sendsFor (.recalculate index host)
    · exact sound
  unfold Host.notifyDisconnect
  dsimp only
  split
  · exact recalculates.peerReset index
  · cases event with
    | none =>
        refine (recalculates.setPeer index _ ?_).dispatchState index .zombie
        rfl
    | some event => exact (recalculates.storeEvent index .disconnect 0 event).peerReset index

/-! ## Received commands -/

theorem removeDispatched (sound : QueueSound host) (index : Nat)
    (dispatched : Channel.Dispatched) : QueueSound (host.removeDispatched index dispatched) :=
  sound.acts (ReceivesFor.removeDispatched host index dispatched).acts rfl rfl

theorem setHeap (sound : QueueSound host) (heap : Heap) : QueueSound (host.setHeap heap) :=
  sound.of_same rfl (fun _ => rfl) ⟨[], by simp⟩

theorem installDispatched (sound : QueueSound host) (index channelID : Nat)
    (dispatched : Channel.Dispatched) :
    QueueSound (host.installDispatched index channelID dispatched) := by
  have installs := (sound.removeDispatched index dispatched).setPeer index
    (((host.peers index).setChannel channelID dispatched.channel).setDispatched
      ((host.peers index).dispatchedCommands ++ dispatched.moved)
      (host.peers index).totalWaitingData) rfl
  unfold Host.installDispatched
  dsimp only
  split
  · exact installs
  · exact installs.scheduleDispatch index

theorem receiveStep {available : List UInt8} {received : Heard} (sound : QueueSound host)
    (step : ReceiveStep index available received host host') :
    QueueSound host' := by
  cases step with
  | window group window => exact sound.setPeer index _ rfl
  | queue command data dataLength flags fragmentCount takes payload small few counted =>
      unfold Host.queueIncomingCommand
      dsimp only
      split
      · exact sound
      · split
        · exact sound
        · split
          · exact sound
          · split
            · exact sound.setHeap _
            · refine ((sound.setHeap _).setPeer index _ ?_).installDispatched index _ _
              rfl
  | fragment channelID reliable address fields takes =>
      unfold Host.addFragment
      split
      · exact sound
      · split
        · exact sound
        · dsimp only
          have writes : ∀ incoming, QueueSound
              (host.setStartCommand index channelID reliable incoming) :=
            fun incoming => sound.setPeer index _ rfl
          split
          · split
            · exact (writes _).installDispatched index channelID _
            · exact (writes _).installDispatched index channelID _
          · exact writes _

theorem peerReceive (sound : QueueSound host) (index : Nat) :
    QueueSound (host.peerReceive index).1 := by
  unfold Host.peerReceive
  dsimp only
  split
  · exact sound
  · exact (sound.setHeap _).setPeer index _ rfl

theorem leaveConnection (sound : QueueSound host) (index : Nat) (state : PeerState)
    (acknowledge : Bool) : QueueSound (host.leaveConnection index state acknowledge) := by
  unfold Host.leaveConnection
  split
  · exact sound.dispatchState index _
  · split
    · split
      · exact (sound.sendsFor (.recalculate index host)).peerReset index
      · exact sound.peerReset index
    · split
      · exact sound.changeState index _
      · exact sound.dispatchState index _

theorem handleDisconnect (sound : QueueSound host) (index : Nat) (command : Protocol)
    (data : Nat) : QueueSound (host.handleDisconnect index command data).1 := by
  have leaves := (sound.resetQueues index).leaveConnection index (host.peers index).state
    command.acknowledge
  unfold Host.handleDisconnect
  dsimp only
  split
  · exact sound
  · split
    · exact leaves.setPeer index _ rfl
    · exact leaves

theorem settleAcknowledge (sound : QueueSound host) (event : Option Event)
    (index commandNumber : Nat) :
    QueueSound (host.settleAcknowledge event index commandNumber).1 := by
  unfold Host.settleAcknowledge
  split
  · split
    · exact sound
    · exact sound.notifyConnect index event
  · split
    · exact sound
    · exact sound.notifyDisconnect index event
  · split
    · exact sound
    · exact sound.startDisconnect index _
  · exact sound

theorem handleAcknowledge (sound : QueueSound host) (event : Option Event)
    (index channelID received sentTime : Nat) :
    QueueSound (host.handleAcknowledge event index channelID received sentTime).1 := by
  unfold Host.handleAcknowledge
  dsimp only
  split
  · exact sound
  · split
    · exact sound
    next sent =>
      have times := sound.quiet (.updateRoundTripTime host index sent)
      exact (times.sendsFor
        (.removeSentReliableCommand _ index received channelID)).settleAcknowledge event index _

theorem handleVerifyConnect (sound : QueueSound host) (event : Option Event) (index : Nat)
    (fields : VerifyConnect) :
    QueueSound (host.handleVerifyConnect event index fields).1 := by
  unfold Host.handleVerifyConnect
  dsimp only
  split
  · exact sound
  · split
    · refine (sound.setPeer index _ ?_).dispatchState index .zombie
      rfl
    · have removes := sound.sendsFor (.removeSentReliableCommand host index 1 0xFF)
      refine (removes.setPeer index _ ?_).notifyConnect index event
      rfl

theorem handleCommand (sound : QueueSound host) (event : Option Event) (index : Nat)
    (command : Protocol) (data : List UInt8) :
    QueueSound (host.handleCommand event index command data).1 := by
  by_cases carries : command.command.isData = true
  · have run := (ReceiveRun.handleCommand host event index command data false carries).1
    exact Library.runs_keep QueueSound (fun step sound => sound.receiveStep step)
      run sound
  · unfold Host.handleCommand
    dsimp only
    split
    · exact sound.handleAcknowledge event index _ _ _
    · exact sound
    · exact sound.handleVerifyConnect event index _
    · exact sound.handleDisconnect index command _
    · exact sound
    case h_10 incoming outgoing same =>
      unfold Host.handleBandwidthLimit
      dsimp only
      split
      · exact sound
      · exact sound.acts (.of_setPeer rfl rfl (.refl _) rfl) rfl (by rw [Host.setPeer_self]; rfl)
    case h_11 interval acceleration deceleration same =>
      unfold Host.handleThrottleConfigure
      dsimp only
      split
      · exact sound
      · exact sound.setPeer index _ rfl
    all_goals
      rename_i same
      rw [same] at carries
      exact absurd rfl carries

theorem acknowledges {command : Protocol} (sound : QueueSound host)
    (acknowledges : Acknowledges index command host host') : QueueSound host' := by
  cases acknowledges with
  | kept mallocs => exact sound.setHeap _
  | queued sentTime mallocs allowed => exact (sound.setHeap _).setPeer index _ rfl

theorem commandStep (sound : QueueSound host) (event : Option Event) (index : Nat)
    (sentTime : Option Nat) (command : Protocol) (data : List UInt8) :
    QueueSound (host.commandStep event index sentTime command data).1 := by
  have observes : QueueSound (host.hear index command data sentTime.isSome) := sound.observe _
  have handles := observes.handleCommand event index command data
  unfold Host.commandStep
  dsimp only
  split
  next handled => rw [handled] at handles; exact handles
  next handled =>
      rw [handled] at handles
      exact handles.acknowledges (.acknowledgeStage ..)

/-! ## Sending, connecting and dispatching -/

theorem sendAcknowledgements (index : Nat) (acknowledgements : List Acknowledgement) :
    ∀ {host : Host}, QueueSound host →
      QueueSound (Host.sendAcknowledgements index acknowledgements host) := by
  induction acknowledgements with
  | nil => intro host sound; exact sound
  | cons acknowledgement rest ih =>
      intro host sound
      unfold Host.sendAcknowledgements
      dsimp only
      split
      · exact sound.setPeer index _ rfl
      · refine ih (QueueSound.setPeer ?_ index _ rfl)
        split
        · exact (sound.quiet (.setDatagram host _)).dispatchState index .zombie
        · exact sound.quiet (.setDatagram host _)

theorem checkOutgoingCommands (sound : QueueSound host) (index : Nat)
    (sentUnreliable : List OutgoingCommand) :
    QueueSound (host.checkOutgoingCommands index sentUnreliable).1 := by
  have checks := Peer.SendingOnly.checkOutgoingCommands (host.peers index) host.heap host.datagram
    sentUnreliable host.serviceTime
  have installs : ∀ heap datagram, QueueSound (((host.setHeap heap).setDatagram datagram).setPeer
      index ((host.peers index).checkOutgoingCommands host.heap host.datagram sentUnreliable
        host.serviceTime).finish) := fun heap datagram =>
    ((sound.setHeap heap).quiet (.setDatagram _ datagram)).setPeer index _ checks.needsDispatch
  unfold Host.checkOutgoingCommands
  dsimp only
  split
  · exact (installs _ _).startDisconnect index _
  · exact installs _ _

theorem removeSentUnreliableCommands (sound : QueueSound host) (index : Nat)
    (sentUnreliable : List OutgoingCommand) :
    QueueSound (host.removeSentUnreliableCommands index sentUnreliable) := by
  unfold Host.removeSentUnreliableCommands
  split
  · exact sound
  · dsimp only
    split
    · exact (sound.setHeap _).startDisconnect index _
    · exact sound.setHeap _

theorem sendStep {before after : Sending} (step : SendStep before after)
    (sound : QueueSound before.1) : QueueSound after.1 := by
  cases step with
  | quiet sentUnreliable quiet => exact sound.quiet quiet
  | startDatagram host index used =>
      exact sendAcknowledgements index _ ((sound.quiet (.setDatagram host _)).setPeer index _ rfl)
  | queue host sentUnreliable index command maintenance =>
      exact sound.sendsFor (.queueOutgoingCommand ..)
  | checkOutgoing host sentUnreliable index =>
      exact sound.checkOutgoingCommands index sentUnreliable
  | removeSent host sentUnreliable index =>
      exact sound.removeSentUnreliableCommands index sentUnreliable

theorem checkTimeouts (sound : QueueSound host) (index : Nat) (event : Option Event) :
    QueueSound (host.checkTimeouts index event).1 := by
  have checks := sound.setPeer index _
    (Peer.SendingOnly.checkTimeouts (host.peers index) host.serviceTime).needsDispatch
  unfold Host.checkTimeouts
  dsimp only
  split
  · exact checks.notifyDisconnect index event
  · exact checks

theorem hostConnect (sound : QueueSound host) (address : Address) (channelCount data : Nat) :
    QueueSound (host.hostConnect address channelCount data).1 := by
  unfold Host.hostConnect
  split
  · exact sound
  next index _ =>
      split
      next heap _ => exact (sound.setHeap heap).setPeer index _ rfl
      next heap _ _ =>
          have seeded := (sound.setHeap heap).quiet (.random _)
          have starts := seeded.observe (.started index true)
          exact (starts.setPeer index _ (Host.connectingPeer_takes ..).needsDispatch).sendsFor
            (.queueOutgoingCommand ..)

theorem handleConnect (sound : QueueSound host) (fields : Connect) :
    QueueSound (host.handleConnect fields).1 := by
  unfold Host.handleConnect
  split
  · exact sound
  · split
    · exact sound
    · split
      · exact sound
      · split
        · exact (sound.setHeap _).setPeer _ _ rfl
        next index _ _ _ heap _ _ =>
            have starts := (sound.setHeap heap).observe (.started index false)
            exact (starts.setPeer index _ (Host.acceptedPeer_takes ..).needsDispatch).sendsFor
              (.queueOutgoingCommand ..)

/-- The first peer of the queue, taken out of it. -/
theorem takeFirst (sound : QueueSound host) (index : Nat)
    (first : host.dispatchQueue.next .sentinel = .peer index) :
    QueueSound ((host.setDispatchQueue (host.dispatchQueue.remove (.peer index))).setPeer index
      (((host.setDispatchQueue (host.dispatchQueue.remove (.peer index))).peers
        index).setNeedsDispatch false)) := by
  refine ⟨fun clean => ?_⟩
  obtain ⟨queued, inOrder⟩ := sound.wellFormed clean
  refine ⟨_, inOrder.remove rfl (inOrder.mem_of_next first) ?_ fun other different => ?_⟩
  · rw [Host.setPeer_self]
    rfl
  · rw [Host.setPeer_of_ne _ _ different]
    rfl

theorem dispatchTurn (sound : QueueSound host) (index : Nat) (event : Event)
    (first : host.dispatchQueue.next .sentinel = .peer index) :
    QueueSound (host.dispatchTurn index event).1 := by
  have takes := sound.takeFirst index first
  unfold Host.dispatchTurn
  dsimp only
  split
  · exact (takes.changeState index .connected).storeEvent index .connect 0 event
  · exact (takes.changeState index .connected).storeEvent index .connect 0 event
  · exact ((takes.sendsFor (.recalculate index _)).storeEvent index .disconnect 0
      event).peerReset index
  · have receives := takes.peerReceive index
    split
    next received => rw [received] at receives; exact receives
    next received =>
        rw [received] at receives
        have stores := receives.storeEvent index .receive 0 event
        dsimp only
        split
        · exact stores
        · exact stores.scheduleDispatch index
  · exact takes

theorem sends (sound : QueueSound host) (sends : Sends host host') : QueueSound host' :=
  Library.runs_keep (fun sending : Sending => QueueSound sending.1) sendStep sends sound

theorem step {before after : Activity} (step : Step before after) (sound : QueueSound before.1) :
    QueueSound after.1 := by
  cases step with
  | send event sends => exact sound.sends sends
  | command host event index sentTime command data current =>
      exact sound.commandStep event index sentTime command data
  | accept host event fields fresh => exact sound.handleConnect fields
  | timeouts host event index fresh => exact sound.checkTimeouts index event
  | dispatch host event index first fresh => exact sound.dispatchTurn index event first
  | connect host address channelCount data => exact sound.hostConnect address channelCount data
  | packet host index channelID packet => exact sound.sendsFor (.peerSend ..)
  | receive host index => exact sound.peerReceive index
  | reset host index => exact sound.peerReset index
  | startDisconnect host index data connected => exact sound.startDisconnect index data
  | disconnectLater host index data connected => exact sound.setPeer index _ rfl
  | abandon host index data sends =>
      exact (((sound.resetQueues index).sendsFor (.queueOutgoingCommand ..)).sends
        sends).peerReset index
  | discard host packet unreferenced => exact sound.setHeap _
  | configure host => exact sound.of_same rfl (fun _ => rfl) ⟨[], (List.append_nil _).symm⟩

theorem create (heap : Heap) (world : World) (randomSeed peerCount channelLimit incomingBandwidth
    outgoingBandwidth : Nat) : QueueSound (Host.create heap world randomSeed peerCount
      channelLimit incomingBandwidth outgoingBandwidth) :=
  ⟨fun _ => ⟨[], .clear _ _, fun index => by simp [Host.create, Peer.resetQueues]⟩⟩

end QueueSound

/-- The dispatch queue is sound wherever calls pass through. -/
theorem queueSound_of_visited {activity : Activity} (visited : Visited activity) :
    QueueSound activity.1 :=
  visited.keeps (fun activity => QueueSound activity.1) (fun _ _ _ _ _ _ _ _ _ => .create ..)
    (fun sound _ => sound) QueueSound.step

/-! ## The dispatch loop -/

theorem peerReceive_none {host : Host} {index : Nat} (empty : (host.peerReceive index).2 = none) :
    (host.peerReceive index).1 = host := by
  unfold Host.peerReceive at empty ⊢
  dsimp only at empty ⊢
  split at empty
  · rfl
  · cases empty

/-- A turn that stores no event only takes the peer out of the queue. -/
theorem dispatchTurn_unstored {host : Host} {index : Nat} {event : Event}
    (unstored : (host.dispatchTurn index event).2.2 = false) :
    (host.dispatchTurn index event).1 =
      (host.setDispatchQueue (host.dispatchQueue.remove (.peer index))).setPeer index
        (((host.setDispatchQueue (host.dispatchQueue.remove (.peer index))).peers
          index).setNeedsDispatch false) := by
  unfold Host.dispatchTurn at unstored ⊢
  dsimp only at unstored ⊢
  split at unstored
  · cases unstored
  · cases unstored
  · cases unstored
  next connected =>
      split at unstored
      next received =>
          have same := peerReceive_none (congrArg Prod.snd received)
          rw [received] at same
          exact same
      · cases unstored
  · rfl

/-- **The dispatch loop ends**: each turn that stores no event shortens the queue. -/
theorem Linked.dispatchIncomingCommands_ends (length : Nat) : ∀ {host : Host} {queued : List Nat}
    (event : Event), Linked host queued → queued.length = length →
      ∃ result, Host.dispatchIncomingCommands (length + 1) host event = some result := by
  induction length with
  | zero =>
      intro host queued event inOrder empty
      have next := inOrder.ring.next_sentinel
      rw [List.length_eq_zero_iff.mp empty] at next
      exact ⟨(host, event, 0), by simp [Host.dispatchIncomingCommands, next]⟩
  | succ length ih =>
      intro host queued event inOrder count
      unfold Host.dispatchIncomingCommands
      split
      · exact ⟨_, rfl⟩
      next index first =>
          split
          · exact ⟨_, rfl⟩
          next host' event' turned =>
              have taken := dispatchTurn_unstored (congrArg (fun turn => turn.2.2) turned)
              rw [turned] at taken
              dsimp only at taken
              have linked := inOrder.mem_of_next first
              refine ih event' (inOrder.remove (congrArg Host.dispatchQueue taken) linked ?_ ?_) ?_
              · rw [taken, Host.setPeer_self]
                rfl
              · intro other different
                rw [taken, Host.setPeer_of_ne _ _ different]
                rfl
              · rw [List.length_erase_of_mem linked, count]
                rfl

/-! ## Runs without the reset of a flagged peer -/

/-- A reset of a flagged peer leaves the peer linked and unflagged. -/
theorem Linked.peerReset_flagged {host : Host} {queued : List Nat} {index : Nat}
    (inOrder : Linked host queued) (flagged : (host.peers index).needsDispatch = true) :
    ¬DispatchQueueWellFormed (host.peerReset index) := by
  rintro ⟨others, after⟩
  have left := SendsFor.onDisconnect index
    (host.observe (.reset index (host.peers index))) index
  have kept : (host.peerReset index).dispatchQueue = host.dispatchQueue := by
    unfold Host.peerReset Host.resetQueues
    dsimp only
    rw [Host.setPeer_self]
    exact left.dispatchQueue
  have cleared : ((host.peerReset index).peers index).needsDispatch = false := by
    obtain ⟨mtu, same⟩ := host.peerReset_peer index
    rw [same]
    rfl
  have ring := after.ring
  rw [kept] at ring
  have same : queued = others :=
    List.map_injective_iff.mpr (fun _ _ => DispatchNode.peer.inj) (inOrder.ring.unique ring)
  have linked := (inOrder.flagged index).mpr flagged
  rw [same, after.flagged, cleared] at linked
  exact Bool.false_ne_true linked

/-- **As long as no flagged peer was reset**, in every state that a call passes
through: the dispatch queue is a ring of exactly the flagged peers, each once; a
peer about to be inserted is not linked, and its insertion appends it and leaves
the others linked; and the dispatch loop ends. -/
theorem dispatchQueue_wellFormed {host : Host} {event : Option Event}
    (visited : Visited (host, event))
    (unflagged : ∀ seen ∈ host.history, seen.isFlaggedReset = false) :
    DispatchQueueWellFormed host ∧
      (∀ queued index, Linked host queued → (host.peers index).needsDispatch = false →
        index ∉ queued ∧ Linked (host.scheduleDispatch index) (queued ++ [index])) ∧
      ∀ event, ∃ fuel result, host.dispatchIncomingCommands fuel event = some result := by
  obtain ⟨queued, inOrder⟩ := (queueSound_of_visited visited).wellFormed unflagged
  refine ⟨⟨queued, inOrder⟩, ?_, fun event => ?_⟩
  · intro queued index inOrder clear
    refine ⟨?_, inOrder.insert clear⟩
    rw [inOrder.flagged, clear]
    exact Bool.false_ne_true
  · exact ⟨_, inOrder.dispatchIncomingCommands_ends _ event rfl⟩

/-- A host with one slot, connecting to a peer that answers with a
VERIFY_CONNECT command for no channels. -/
def refusedHost : Host :=
  ((Host.create .ample
    (.delivering (fun _ => 1)
      [(⟨7, 9⟩, [0, 0, 0x83, 0xFF, 0, 1] ++ List.replicate 40 0)])
    0 1 1 0 0).hostConnect ⟨7, 9⟩ 1 0).1

theorem refusedHost_reachable : Host.Reachable refusedHost :=
  .call 0 (.connect ⟨7, 9⟩ 1 0) (.create ..) rfl

/-- The refused peer waits in the dispatch queue. -/
theorem dispatchQueue_wellFormed_refused :
    ∃ host' value, Host.service 5 refusedHost none 0 = some (host', none, value) ∧
      (host'.peers 0).needsDispatch = true ∧ DispatchQueueWellFormed host' := by
  have evaluated : (Host.service 5 refusedHost none 0).map (fun result =>
      (result.2.1, (result.1.peers 0).needsDispatch,
        result.1.history.all fun seen => !seen.isFlaggedReset)) = some (none, true, true) := by
    decide +kernel
  obtain ⟨⟨host', event', value⟩, returns, same⟩ := Option.map_eq_some_iff.mp evaluated
  simp only [Prod.mk.injEq, List.all_eq_true, Bool.not_eq_true'] at same
  obtain ⟨rfl, flagged, unflagged⟩ := same
  refine ⟨host', value, returns, flagged, ?_⟩
  have visited : Visited (host', none) :=
    .of_call (.service none 0) refusedHost_reachable returns
  exact (dispatchQueue_wellFormed visited unflagged).1

/-- The application resets the refused peer before it reads the event: the peer
stays linked, and its flag is clear. -/
theorem dispatchQueue_not_wellFormed :
    ¬∀ host, Host.Reachable host → DispatchQueueWellFormed host := by
  intro always
  have evaluated : (Host.service 5 refusedHost none 0).map (fun result =>
      (((result.1.peerReset 0).peers 0).needsDispatch,
        (result.1.peerReset 0).dispatchQueue.next .sentinel)) = some (false, .peer 0) := by
    decide +kernel
  obtain ⟨⟨host', event', value⟩, returns, same⟩ := Option.map_eq_some_iff.mp evaluated
  simp only [Prod.mk.injEq] at same
  have served : Host.Reachable host' := .call 5 (.service none 0) refusedHost_reachable returns
  obtain ⟨queued, inOrder⟩ := always _ (.call 0 (.reset 0) served rfl)
  have flagged := (inOrder.flagged 0).mp (inOrder.mem_of_next same.2)
  rw [same.1] at flagged
  cases flagged

end Enet
