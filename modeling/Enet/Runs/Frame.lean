import Enet.Model.Api

/-!
# What a function leaves alone

A function for one peer changes no other peer, and what the host is seen doing
meanwhile is about that peer. Each function of the model has this frame; the
invariants of the runs are proved for one peer from it.
-/

set_option autoImplicit false

namespace Enet

/-- The peer an observation is about. -/
def Observation.peer : Observation → Nat
  | started peer _ => peer
  | event peer _ => peer
  | reset peer _ => peer
  | command peer .. => peer
  | dispatching peer _ => peer

/-- `enet_peer_reset` was entered. -/
def Observation.isReset : Observation → Bool
  | reset .. => true
  | _ => false

/-! ## Since the last reset -/

/-- What was seen of a slot since it was last reset, after one more observation. -/
def Observation.note (index : Nat) (seen : List Observation) (observation : Observation) :
    List Observation :=
  if observation.peer ≠ index then seen
  else if observation.isReset then [] else seen ++ [observation]

/-- What was seen of a slot since it was last reset. -/
def sinceReset (index : Nat) (history : List Observation) : List Observation :=
  history.foldl (Observation.note index) []

theorem sinceReset_concat (index : Nat) (history : List Observation)
    (observation : Observation) :
    sinceReset index (history ++ [observation]) = Observation.note index
      (sinceReset index history) observation :=
  List.foldl_append

theorem sinceReset_append_others {index : Nat} {history seen : List Observation}
    (others : ∀ observation ∈ seen, observation.peer ≠ index) :
    sinceReset index (history ++ seen) = sinceReset index history := by
  induction seen generalizing history with
  | nil => rw [List.append_nil]
  | cons observation seen ih =>
      have here : sinceReset index (history ++ [observation]) = sinceReset index history := by
        rw [sinceReset_concat]
        exact if_pos (others observation List.mem_cons_self)
      rw [← List.singleton_append, ← List.append_assoc,
        ih fun other member => others other (List.mem_cons_of_mem _ member), here]

theorem sinceReset_append {index : Nat} {history seen : List Observation}
    (about : ∀ observation ∈ seen, observation.peer = index)
    (stays : ∀ observation ∈ seen, observation.isReset = false) :
    sinceReset index (history ++ seen) = sinceReset index history ++ seen := by
  induction seen generalizing history with
  | nil => rw [List.append_nil, List.append_nil]
  | cons observation seen ih =>
      have here : sinceReset index (history ++ [observation]) =
          sinceReset index history ++ [observation] := by
        rw [sinceReset_concat, Observation.note,
          if_neg (not_not.mpr (about observation List.mem_cons_self)),
          if_neg (by rw [stays observation List.mem_cons_self]; exact Bool.false_ne_true)]
      rw [← List.singleton_append, ← List.append_assoc,
        ih (fun other member => about other (List.mem_cons_of_mem _ member))
          fun other member => stays other (List.mem_cons_of_mem _ member), here,
        List.append_assoc, List.singleton_append]

theorem sinceReset_reset (index : Nat) (history : List Observation) (before : Peer) :
    sinceReset index (history ++ [.reset index before]) = [] := by
  rw [sinceReset_concat]
  exact (if_neg (not_not.mpr rfl)).trans (if_pos rfl)

/-! ## Memory -/

/-- The allocator after some of its calls. -/
structure Heap.Grows (heap heap' : Heap) : Prop where
  mallocSucceeds : heap'.mallocSucceeds = heap.mallocSucceeds
  nextAddress : heap.nextAddress ≤ heap'.nextAddress

namespace Heap.Grows

theorem refl (heap : Heap) : heap.Grows heap := ⟨rfl, Nat.le_refl _⟩

theorem trans {heap heap' heap'' : Heap} (first : heap.Grows heap') (second : heap'.Grows heap'') :
    heap.Grows heap'' :=
  ⟨second.mallocSucceeds.trans first.mallocSucceeds,
    Nat.le_trans first.nextAddress second.nextAddress⟩

end Heap.Grows

/-- The host changed only in what concerns one peer, and in what concerns none. -/
structure ActsOn (index : Nat) (host host' : Host) : Prop where
  others : ∀ other, other ≠ index → host'.peers other = host.peers other
  history : ∃ seen, host'.history = host.history ++ seen ∧
    ∀ observation ∈ seen, observation.peer = index
  mallocs : host.heap.Grows host'.heap
  peerCount : host'.peerCount = host.peerCount

namespace ActsOn

variable {index : Nat} {host host' host'' : Host}

theorem refl (index : Nat) (host : Host) : ActsOn index host host :=
  ⟨fun _ _ => rfl, ⟨[], by simp⟩, .refl _, rfl⟩

theorem trans (first : ActsOn index host host') (second : ActsOn index host' host'') :
    ActsOn index host host'' := by
  obtain ⟨seen, history, about⟩ := first.history
  obtain ⟨more, history', about'⟩ := second.history
  refine ⟨fun other different => ?_, ⟨seen ++ more, ?_, ?_⟩, ?_, ?_⟩
  · exact (second.others other different).trans (first.others other different)
  · rw [history', history, List.append_assoc]
  · intro observation member
    rcases List.mem_append.mp member with member | member
    · exact about observation member
    · exact about' observation member
  · exact first.mallocs.trans second.mallocs
  · exact second.peerCount.trans first.peerCount

/-- The frame of a change to one peer and to fields that no frame speaks of. -/
theorem of_setPeer {peer : Peer} (peers : host'.peers = Function.update host.peers index peer)
    (history : host'.history = host.history)
    (mallocs : host.heap.Grows host'.heap)
    (peerCount : host'.peerCount = host.peerCount) : ActsOn index host host' := by
  refine ⟨fun other different => ?_, ⟨[], by simp [history]⟩, mallocs, peerCount⟩
  rw [peers, Function.update_of_ne different]

/-- The frame of a change to fields that no frame speaks of. -/
theorem of_same (peers : host'.peers = host.peers) (history : host'.history = host.history)
    (mallocs : host.heap.Grows host'.heap)
    (peerCount : host'.peerCount = host.peerCount) : ActsOn index host host' :=
  ⟨fun other _ => by rw [peers], ⟨[], by simp [history]⟩, mallocs, peerCount⟩

theorem setPeer (host : Host) (index : Nat) (peer : Peer) :
    ActsOn index host (host.setPeer index peer) :=
  of_setPeer rfl rfl (.refl _) rfl

theorem observe (host : Host) (index : Nat) {observation : Observation}
    (about : observation.peer = index) :
    ActsOn index host (host.observe observation) :=
  ⟨fun _ _ => rfl, ⟨[observation], rfl, by simp [about]⟩, .refl _, rfl⟩

end ActsOn

/-! ## Memory -/

namespace Heap

theorem malloc_grows (heap : Heap) : heap.Grows heap.malloc.1 := ⟨rfl, Nat.le_succ _⟩

theorem free_grows (heap : Heap) (address : Nat) : heap.Grows (heap.free address) :=
  ⟨rfl, Nat.le_refl _⟩

theorem acquire_grows (heap : Heap) (packet : Packet) : heap.Grows (heap.acquire packet) :=
  ⟨rfl, Nat.le_refl _⟩

theorem destroy_grows (heap : Heap) (packet : Packet) : heap.Grows (heap.destroy packet) :=
  ⟨rfl, Nat.le_refl _⟩

theorem unreference_grows (heap : Heap) (packet : Packet) :
    heap.Grows (heap.unreference packet) :=
  ⟨rfl, Nat.le_refl _⟩

theorem release_grows (heap : Heap) (packet : Packet) : heap.Grows (heap.release packet) := by
  simp only [release]
  split
  · exact (heap.unreference_grows packet).trans (destroy_grows _ packet)
  · exact heap.unreference_grows packet

theorem releaseOption_grows (heap : Heap) (packet : Option Packet) :
    heap.Grows (heap.releaseOption packet) := by
  cases packet with
  | none => exact .refl heap
  | some packet => exact heap.release_grows packet

theorem removeIncoming_grows (heap : Heap) (command : IncomingCommand) :
    heap.Grows (heap.removeIncoming command) :=
  (heap.release_grows _).trans (free_grows _ _)

theorem removeOutgoing_grows (heap : Heap) (outgoing : OutgoingCommand) :
    heap.Grows (heap.removeOutgoing outgoing) :=
  (heap.releaseOption_grows _).trans (free_grows _ _)

/-- A fold of steps that keep the allocator keeps it. -/
theorem foldl_grows {α : Type} (step : Heap → α → Heap)
    (keeps : ∀ (heap : Heap) (item : α), heap.Grows (step heap item)) (items : List α) :
    ∀ heap : Heap, heap.Grows (items.foldl step heap) := by
  induction items with
  | nil => intro heap; exact .refl heap
  | cons item items ih => intro heap; exact (keeps heap item).trans (ih (step heap item))

theorem resetQueues_grows (heap : Heap) (peer : Peer) : heap.Grows (heap.resetQueues peer) := by
  have outgoing := foldl_grows removeOutgoing removeOutgoing_grows
  have incoming := foldl_grows removeIncoming removeIncoming_grows
  exact ((((outgoing _ _).trans (outgoing _ _)).trans (outgoing _ _)).trans (incoming _ _)).trans
    (incoming _ _)

theorem grows_of_malloc {heap heap' : Heap} {result : Option Nat}
    (allocated : heap.malloc = (heap', result)) : heap.Grows heap' := by
  have grows := heap.malloc_grows
  rwa [allocated] at grows

theorem createPacket_grows (heap : Heap) (data : Option (List UInt8))
    (dataLength : Nat) (flags : PacketFlags) :
    heap.Grows (heap.createPacket data dataLength flags).1 := by
  unfold createPacket
  split
  next allocated => exact grows_of_malloc allocated
  next heap' address allocated =>
      have kept := grows_of_malloc allocated
      split
      · exact kept
      · split
        next allocated' => exact (kept.trans (grows_of_malloc allocated')).trans (free_grows _ _)
        next allocated' => exact kept.trans (grows_of_malloc allocated')

end Heap

/-! ## Queueing and sending -/

namespace ActsOn

theorem setHeap (index : Nat) (host : Host) {heap : Heap}
    (kept : host.heap.Grows heap) :
    ActsOn index host (host.setHeap heap) :=
  of_same rfl rfl kept rfl

theorem setupOutgoingCommand (host : Host) (index : Nat) (outgoing : OutgoingCommand) :
    ActsOn index host (host.setupOutgoingCommand index outgoing) :=
  of_setPeer rfl rfl (.refl _) rfl

theorem queueOutgoingCommand (host : Host) (index : Nat) (command : Protocol)
    (packet : Option Packet) (offset length : Nat) :
    ActsOn index host (host.queueOutgoingCommand index command packet offset length).1 := by
  unfold Host.queueOutgoingCommand
  split
  next allocated => exact setHeap index host (Heap.grows_of_malloc allocated)
  next heap address allocated =>
      have kept := Heap.grows_of_malloc allocated
      refine (setHeap index host ?_).trans (setupOutgoingCommand _ index _)
      cases packet with
      | none => exact kept
      | some packet => exact kept.trans (Heap.acquire_grows _ packet)

theorem peerPing (host : Host) (index : Nat) : ActsOn index host (host.peerPing index) := by
  unfold Host.peerPing
  split
  · exact queueOutgoingCommand ..
  · exact refl index host

end ActsOn

theorem freeFragments_grows (heap : Heap) (fragments : List OutgoingCommand) :
    heap.Grows (Host.freeFragments heap fragments) :=
  Heap.foldl_grows _ (fun heap _ => heap.free_grows _) _ _

theorem makeFragments_grows (packet : Packet) (make : Nat → Nat → Nat → Nat → OutgoingCommand)
    (fuel : Nat) : ∀ (heap : Heap) (length number offset : Nat) (fragments : List OutgoingCommand),
      heap.Grows
        (Host.makeFragments packet make fuel heap length number offset fragments).1 := by
  induction fuel with
  | zero => intro heap length number offset fragments; exact freeFragments_grows heap fragments
  | succ fuel ih =>
      intro heap length number offset fragments
      unfold Host.makeFragments
      split
      · dsimp only
        split
        next allocated =>
            exact (Heap.grows_of_malloc allocated).trans (freeFragments_grows _ fragments)
        next allocated => exact (Heap.grows_of_malloc allocated).trans (ih ..)
      · exact .refl heap

theorem grows_of_makeFragments {packet : Packet}
    {make : Nat → Nat → Nat → Nat → OutgoingCommand} {fuel length number offset : Nat}
    {heap heap' : Heap} {fragments : List OutgoingCommand} {made : Option (List OutgoingCommand)}
    (makes : Host.makeFragments packet make fuel heap length number offset fragments =
      (heap', made)) : heap.Grows heap' := by
  have kept := makeFragments_grows packet make fuel heap length number offset fragments
  rwa [makes] at kept

namespace ActsOn

theorem foldl_setupOutgoingCommand (index : Nat) (fragments : List OutgoingCommand) :
    ∀ host : Host, ActsOn index host
      (fragments.foldl (fun host fragment => host.setupOutgoingCommand index fragment) host) := by
  induction fragments with
  | nil => intro host; exact refl index host
  | cons fragment fragments ih =>
      intro host
      exact (setupOutgoingCommand host index fragment).trans (ih _)

theorem sendFragments (host : Host) (index channelID : Nat) (packet : Packet) :
    ActsOn index host (host.sendFragments index channelID packet).1 := by
  unfold Host.sendFragments
  dsimp only
  split
  · exact refl index host
  · split
    next made =>
        exact setHeap index host (grows_of_makeFragments made)
    next heap fragments made =>
        refine (setHeap index host ?_).trans (foldl_setupOutgoingCommand index fragments _)
        exact (grows_of_makeFragments made).trans
          (Heap.foldl_grows _ (fun heap _ => heap.acquire_grows packet) _ _)

theorem peerSend (host : Host) (index channelID : Nat) (packet : Packet) :
    ActsOn index host (host.peerSend index channelID packet).1 := by
  unfold Host.peerSend
  dsimp only
  split
  · exact refl index host
  · split
    · exact sendFragments host index channelID packet
    · have acts := queueOutgoingCommand host index
        (Host.sendCommand ((host.peers index).channels channelID) channelID packet) (some packet) 0
        packet.dataLength
      split
      next queued => rwa [queued] at acts
      next queued => rwa [queued] at acts

/-! ## Receiving -/

theorem scheduleDispatch (host : Host) (index : Nat) :
    ActsOn index host (host.scheduleDispatch index) := by
  unfold Host.scheduleDispatch
  split
  · exact refl index host
  · exact of_setPeer rfl rfl (.refl _) rfl

theorem installDispatched (host : Host) (index channelID : Nat)
    (dispatched : Channel.Dispatched) :
    ActsOn index host (host.installDispatched index channelID dispatched) := by
  unfold Host.installDispatched
  dsimp only
  have removed : ActsOn index host
      { host with
        heap := dispatched.removed.foldl Heap.removeIncoming host.heap
        history := host.history ++ dispatched.entered.map (Observation.dispatching index) } := by
    refine ⟨fun _ _ => rfl, ⟨_, rfl, ?_⟩, ?_, rfl⟩
    · intro observation member
      obtain ⟨entered, -, rfl⟩ := List.mem_map.mp member
      rfl
    · exact Heap.foldl_grows _ Heap.removeIncoming_grows _ _
  split
  · exact removed.trans (setPeer _ index _)
  · exact (removed.trans (setPeer _ index _)).trans (scheduleDispatch _ index)

end ActsOn

theorem allocateIncoming_grows (heap : Heap) (command : Protocol)
    (data : Option (List UInt8)) (dataLength : Nat) (flags : PacketFlags) (fragmentCount : Nat) :
    heap.Grows (Host.allocateIncoming heap command data dataLength flags fragmentCount).1 := by
  have created := heap.createPacket_grows data dataLength flags
  unfold Host.allocateIncoming
  split
  next packed => rwa [packed] at created
  next packed =>
      rw [packed] at created
      split
      next allocated =>
          exact (created.trans (Heap.grows_of_malloc allocated)).trans (Heap.destroy_grows _ _)
      next allocated =>
          have kept := created.trans (Heap.grows_of_malloc allocated)
          dsimp only
          split
          · exact kept.trans (Heap.acquire_grows _ _)
          · split
            · exact (kept.trans (Heap.free_grows _ _)).trans (Heap.destroy_grows _ _)
            · split
              next allocated' =>
                  exact ((kept.trans (Heap.grows_of_malloc allocated')).trans
                    (Heap.free_grows _ _)).trans (Heap.destroy_grows _ _)
              next allocated' =>
                  exact (kept.trans (Heap.grows_of_malloc allocated')).trans
                    (Heap.acquire_grows _ _)

namespace ActsOn

theorem peerReceive (host : Host) (index : Nat) :
    ActsOn index host (host.peerReceive index).1 := by
  unfold Host.peerReceive
  dsimp only
  split
  · exact refl index host
  · exact (setHeap index host ((Heap.unreference_grows _ _).trans (Heap.free_grows _ _))).trans
      (setPeer _ index _)

/-! ## States and events -/

theorem onConnect (host : Host) (index : Nat) : ActsOn index host (host.onConnect index) := by
  unfold Host.onConnect
  dsimp only
  split
  · exact refl index host
  · exact of_same rfl rfl (.refl _) rfl

theorem onDisconnect (host : Host) (index : Nat) :
    ActsOn index host (host.onDisconnect index) := by
  unfold Host.onDisconnect
  dsimp only
  split
  · exact of_same rfl rfl (.refl _) rfl
  · exact refl index host

theorem changeState (host : Host) (index : Nat) (state : PeerState) :
    ActsOn index host (host.changeState index state) := by
  unfold Host.changeState
  dsimp only
  split
  · exact (onConnect host index).trans (setPeer _ index _)
  · exact (onDisconnect host index).trans (setPeer _ index _)

theorem dispatchState (host : Host) (index : Nat) (state : PeerState) :
    ActsOn index host (host.dispatchState index state) :=
  (changeState host index state).trans (scheduleDispatch _ index)

end ActsOn

@[simp] theorem Host.onConnect_peers (host : Host) (index : Nat) :
    (host.onConnect index).peers = host.peers := by
  unfold onConnect
  dsimp only
  split <;> rfl

@[simp] theorem Host.onConnect_history (host : Host) (index : Nat) :
    (host.onConnect index).history = host.history := by
  unfold onConnect
  dsimp only
  split <;> rfl

@[simp] theorem Host.onDisconnect_peers (host : Host) (index : Nat) :
    (host.onDisconnect index).peers = host.peers := by
  unfold onDisconnect
  dsimp only
  split <;> rfl

@[simp] theorem Host.onDisconnect_history (host : Host) (index : Nat) :
    (host.onDisconnect index).history = host.history := by
  unfold onDisconnect
  dsimp only
  split <;> rfl

@[simp] theorem Host.changeState_peer (host : Host) (index : Nat) (state : PeerState) :
    (host.changeState index state).peers index = (host.peers index).setState state := by
  unfold changeState
  split
  · rw [setPeer_self, onConnect_peers]
  · rw [setPeer_self, onDisconnect_peers]

@[simp] theorem Host.changeState_history (host : Host) (index : Nat) (state : PeerState) :
    (host.changeState index state).history = host.history := by
  unfold changeState
  split
  · rw [setPeer_history, onConnect_history]
  · rw [setPeer_history, onDisconnect_history]

@[simp] theorem Host.scheduleDispatch_peer (host : Host) (index : Nat) :
    (host.scheduleDispatch index).peers index = (host.peers index).setNeedsDispatch true := by
  unfold scheduleDispatch
  split
  next flagged =>
      have same : { host.peers index with needsDispatch := (host.peers index).needsDispatch } =
          host.peers index := rfl
      rw [flagged] at same
      exact same.symm
  · rw [setPeer_self]

@[simp] theorem Host.scheduleDispatch_history (host : Host) (index : Nat) :
    (host.scheduleDispatch index).history = host.history := by
  unfold scheduleDispatch
  split <;> rfl

@[simp] theorem Host.dispatchState_peer (host : Host) (index : Nat) (state : PeerState) :
    (host.dispatchState index state).peers index =
      ((host.peers index).setState state).setNeedsDispatch true := by
  rw [dispatchState, scheduleDispatch_peer, changeState_peer]

@[simp] theorem Host.dispatchState_history (host : Host) (index : Nat) (state : PeerState) :
    (host.dispatchState index state).history = host.history := by
  rw [dispatchState, scheduleDispatch_history, changeState_history]

@[simp] theorem Host.resetQueues_peer (host : Host) (index : Nat) :
    (host.resetQueues index).peers index = (host.peers index).resetQueues := by
  unfold resetQueues
  dsimp only
  rw [setPeer_self]

@[simp] theorem Host.resetQueues_history (host : Host) (index : Nat) :
    (host.resetQueues index).history = host.history := by
  unfold resetQueues
  dsimp only
  split <;> rfl

/-- What `enet_peer_reset` leaves of a peer, for a host with some `mtu`. -/
theorem Host.peerReset_peer (host : Host) (index : Nat) :
    ∃ mtu, (host.peerReset index).peers index =
      ((host.peers index).resetFields mtu).resetQueues := by
  refine ⟨((host.observe (.reset index (host.peers index))).onDisconnect index).mtu, ?_⟩
  unfold peerReset
  dsimp only
  rw [resetQueues_peer, setPeer_self, onDisconnect_peers, observe_peers]

@[simp] theorem Host.peerReset_history (host : Host) (index : Nat) :
    (host.peerReset index).history = host.history ++ [.reset index (host.peers index)] := by
  unfold peerReset
  dsimp only
  rw [resetQueues_history, setPeer_history, onDisconnect_history, observe_history]

namespace ActsOn

theorem resetQueues (host : Host) (index : Nat) : ActsOn index host (host.resetQueues index) := by
  unfold Host.resetQueues
  dsimp only
  split
  · exact of_setPeer rfl rfl (Heap.resetQueues_grows ..) rfl
  · exact of_setPeer rfl rfl (Heap.resetQueues_grows ..) rfl

theorem peerReset (host : Host) (index : Nat) : ActsOn index host (host.peerReset index) :=
  (((observe host index rfl).trans (onDisconnect _ index)).trans (setPeer _ index _)).trans
    (resetQueues _ index)

theorem startDisconnect (host : Host) (index data : Nat) :
    ActsOn index host (host.startDisconnect index data) :=
  (((resetQueues host index).trans (queueOutgoingCommand ..)).trans (onDisconnect _ index)).trans
    (setPeer _ index _)

theorem storeEvent (host : Host) (index : Nat) (type : EventType) (data : Nat) (event : Event) :
    ActsOn index host (host.storeEvent index type data event).1 :=
  observe host index rfl

theorem recalculate (index : Nat) (host : Host) : ActsOn index host host.recalculate :=
  of_same rfl rfl (.refl _) rfl

theorem dispatchTurn (host : Host) (index : Nat) (event : Event) :
    ActsOn index host (host.dispatchTurn index event).1 := by
  unfold Host.dispatchTurn
  dsimp only
  generalize taken : (host.setDispatchQueue (host.dispatchQueue.remove (.peer index))).setPeer index
    _ = popped
  have takes : ActsOn index host popped := taken ▸ of_setPeer rfl rfl (.refl _) rfl
  split
  · exact (takes.trans (changeState _ index _)).trans (observe _ index rfl)
  · exact (takes.trans (changeState _ index _)).trans (observe _ index rfl)
  · exact ((takes.trans (recalculate index _)).trans
      (storeEvent _ index .disconnect _ event)).trans (peerReset _ index)
  · refine takes.trans ?_
    have receives := peerReceive popped index
    split
    next received => rwa [received] at receives
    next packet channelID received =>
        rw [received] at receives
        refine (receives.trans
          (storeEvent _ index .receive event.data (event.setPacket packet channelID))).trans ?_
        split
        · exact refl index _
        · exact scheduleDispatch _ index
  · exact takes

theorem notifyConnect (host : Host) (index : Nat) (event : Option Event) :
    ActsOn index host (host.notifyConnect index event).1 := by
  cases event with
  | none => exact (recalculate index host).trans (dispatchState _ index _)
  | some event =>
      exact ((recalculate index host).trans (changeState _ index _)).trans
        (observe _ index rfl)

theorem notifyDisconnect (host : Host) (index : Nat) (event : Option Event) :
    ActsOn index host (host.notifyDisconnect index event).1 := by
  have recalculates : ActsOn index host (host.recalculateFrom (host.peers index).state) := by
    unfold Host.recalculateFrom
    split
    · exact recalculate index host
    · exact refl index host
  unfold Host.notifyDisconnect
  dsimp only
  refine recalculates.trans ?_
  split
  · exact peerReset _ index
  · cases event with
    | none => exact (setPeer _ index _).trans (dispatchState _ index _)
    | some event => exact (storeEvent _ index .disconnect 0 event).trans (peerReset _ index)

/-! ## Received commands -/

theorem addFragment (host : Host) (index channelID : Nat) (reliable : Bool) (address : Nat)
    (fields : SendFragment) (data : List UInt8) :
    ActsOn index host (host.addFragment index channelID reliable address fields data) := by
  unfold Host.addFragment
  split
  · exact refl index host
  · split
    · exact refl index host
    · dsimp only
      split
      · split
        · exact (setPeer host index _).trans (installDispatched _ index channelID _)
        · exact (setPeer host index _).trans (installDispatched _ index channelID _)
      · exact setPeer host index _

end ActsOn

end Enet
