import Enet.Runs.Vacant
import Enet.Runs.Drivers
import Enet.Runs.PacketCounts

/-!
# Set-up of a connection when memory runs out

`enet_host_connect` and `enet_protocol_handle_connect` allocate the channels and
then the first command, and `enet_peer_disconnect` allocates the DISCONNECT
command. What the last allocation returns is not looked at: where it fails, the
peer has entered its new state and the command that was to take it further is
missing. In every other case the operation is done in full or not at all.
-/

set_option autoImplicit false

namespace Enet

/-! ## Allocations -/

/-- The next allocation succeeds. -/
def Heap.hasNext (heap : Heap) : Bool := heap.mallocSucceeds heap.nextAddress

/-- Of the next two allocations the first succeeds and the second fails. -/
def Heap.failsSecond (heap : Heap) : Bool :=
  heap.hasNext && !heap.mallocSucceeds (heap.nextAddress + 1)

namespace Heap

theorem malloc_of_hasNext {heap : Heap} (next : heap.hasNext = true) :
    heap.malloc = (heap.malloc.1, some heap.nextAddress) := by
  have succeeds : heap.mallocSucceeds heap.nextAddress = true := next
  unfold malloc
  rw [if_pos succeeds]

theorem malloc_of_refused {heap : Heap} (refused : heap.hasNext = false) :
    heap.malloc = (heap.malloc.1, none) := by
  have fails : ¬heap.mallocSucceeds heap.nextAddress = true := by
    rw [show heap.mallocSucceeds heap.nextAddress = false from refused]
    decide
  unfold malloc
  rw [if_neg fails]

/-- A heap on which the same allocation comes next. -/
structure SameNext (heap heap' : Heap) : Prop where
  mallocs : heap'.mallocSucceeds = heap.mallocSucceeds
  next : heap'.nextAddress = heap.nextAddress

namespace SameNext

variable {heap heap' heap'' : Heap}

theorem refl (heap : Heap) : heap.SameNext heap := ⟨rfl, rfl⟩

theorem trans (first : heap.SameNext heap') (second : heap'.SameNext heap'') :
    heap.SameNext heap'' :=
  ⟨second.mallocs.trans first.mallocs, second.next.trans first.next⟩

theorem hasNext (same : heap.SameNext heap') : heap'.hasNext = heap.hasNext := by
  unfold Heap.hasNext
  rw [same.mallocs, same.next]

theorem release (heap : Heap) (packet : Packet) : heap.SameNext (heap.release packet) := by
  unfold Heap.release
  dsimp only
  split <;> exact ⟨rfl, rfl⟩

theorem removeOutgoing (heap : Heap) (outgoing : OutgoingCommand) :
    heap.SameNext (heap.removeOutgoing outgoing) := by
  unfold Heap.removeOutgoing Heap.releaseOption
  cases outgoing.packet with
  | none => exact ⟨rfl, rfl⟩
  | some packet => exact (release heap packet).trans ⟨rfl, rfl⟩

theorem removeIncoming (heap : Heap) (command : IncomingCommand) :
    heap.SameNext (heap.removeIncoming command) :=
  (release heap command.packet).trans ⟨rfl, rfl⟩

theorem foldl {α : Type} (step : Heap → α → Heap)
    (keeps : ∀ (heap : Heap) (item : α), heap.SameNext (step heap item)) (items : List α) :
    ∀ heap : Heap, heap.SameNext (items.foldl step heap) := by
  induction items with
  | nil => intro heap; exact refl heap
  | cons item items ih => intro heap; exact (keeps heap item).trans (ih (step heap item))

/-- Giving up what a peer has queued allocates nothing. -/
theorem resetQueues (heap : Heap) (peer : Peer) : heap.SameNext (heap.resetQueues peer) := by
  have outgoing := foldl Heap.removeOutgoing removeOutgoing
  have incoming := foldl Heap.removeIncoming removeIncoming
  exact ((((outgoing _ _).trans (outgoing _ _)).trans (outgoing _ _)).trans (incoming _ _)).trans
    (incoming _ _)

end SameNext

end Heap

/-! ## One command -/

/-- The last command in the queue has a number, and before it is what was queued. -/
def Peer.QueuesLast (peer peer' : Peer) (number : Nat) : Prop :=
  ∃ outgoing, peer'.outgoingCommands = peer.outgoingCommands ++ [outgoing] ∧
    outgoing.command.command.number = number

theorem Peer.stampCommand_number (command : Protocol) (number unreliableNumber group : Nat) :
    (stampCommand command number unreliableNumber group).command.number =
      command.command.number := by
  obtain ⟨kind, acknowledge, unsequenced, channelID, header⟩ := command
  cases kind <;> rfl

theorem Peer.setupOutgoingCommand_queuesLast (peer : Peer) (totalQueued : Nat)
    {outgoing : OutgoingCommand} (bare : outgoing.packet = none) :
    peer.QueuesLast (peer.setupOutgoingCommand totalQueued outgoing)
      outgoing.command.command.number := by
  obtain ⟨kept, -, -, packet, command⟩ :=
    (peer.countOutgoingData outgoing).numberOutgoingCommand_queues outgoing
  unfold setupOutgoingCommand
  generalize (peer.countOutgoingData outgoing).numberOutgoingCommand outgoing = numbered
    at kept packet command ⊢
  refine ⟨stampOutgoing numbered.2 totalQueued numbered.1.outgoingUnsequencedGroup, ?_, ?_⟩
  · have last := numbered.1.enqueueOutgoing_bare (stampOutgoing numbered.2 totalQueued
      numbered.1.outgoingUnsequencedGroup) (packet.trans bare)
    rw [last]
    exact congrArg (· ++ _) kept
  · rw [← command]
    exact stampCommand_number ..

namespace Host

/-- A command of the connection is queued where memory is left for it. -/
theorem queueOutgoingCommand_queuesLast {host : Host} (next : host.heap.hasNext = true)
    (index : Nat) (command : Protocol) :
    (host.peers index).QueuesLast
      ((host.queueOutgoingCommand index command none 0 0).1.peers index)
      command.command.number := by
  unfold queueOutgoingCommand
  rw [Heap.malloc_of_hasNext next]
  dsimp only
  unfold setupOutgoingCommand
  rw [setPeer_self]
  exact Peer.setupOutgoingCommand_queuesLast (host.peers index) _ rfl

/-- Where no memory is left, nothing is queued. -/
theorem queueOutgoingCommand_refused {host : Host} (refused : host.heap.hasNext = false)
    (index : Nat) (command : Protocol) :
    (host.queueOutgoingCommand index command none 0 0).1.peers = host.peers := by
  unfold queueOutgoingCommand
  rw [Heap.malloc_of_refused refused]
  rfl

/-! ## Connecting -/

/-- A set-up changed no slot, or the slot it took is in its state with its
command queued. -/
def SetsUp (host : Host) (made : Host × Option Nat) (state : PeerState) (number : Nat) : Prop :=
  made.2 = none ∧ made.1.peers = host.peers ∨
    ∃ index, made.2 = some index ∧ (made.1.peers index).state = state ∧
      (host.peers index).QueuesLast (made.1.peers index) number

/-- A slot that was set up, and the command that is to be queued for it. -/
theorem setsUp_iff {host before : Host} {index : Nat} {command : Protocol} {state : PeerState}
    (entered : (before.peers index).state = state)
    (queue : (before.peers index).outgoingCommands = (host.peers index).outgoingCommands) :
    host.SetsUp ((before.queueOutgoingCommand index command none 0 0).1, some index) state
        command.command.number ↔ before.heap.hasNext = true := by
  constructor
  · rintro (⟨nothing, -⟩ | ⟨other, found, -, outgoing, queued, -⟩)
    · cases nothing
    · cases found
      by_contra refused
      rw [Bool.not_eq_true] at refused
      dsimp only at queued
      rw [queueOutgoingCommand_refused refused, queue] at queued
      have longer := congrArg List.length queued
      rw [List.length_append, List.length_singleton] at longer
      omega
  · intro next
    obtain ⟨outgoing, queued, number⟩ :=
      queueOutgoingCommand_queuesLast next index command
    refine .inr ⟨index, rfl, ?_, outgoing, ?_, number⟩
    · exact (queueOutgoingCommand_sendingOnly before index command none 0 0).state.trans entered
    · rw [← queue]
      exact queued

/-- The first allocation of a set-up fails: the null pointer is stored where it is. -/
theorem SetsUp.of_vacant {host : Host} {index : Nat} (vacant : Vacant host)
    (free : (host.peers index).state = .disconnected) (heap : Heap) (state : PeerState)
    (number : Nat) :
    host.SetsUp ((host.setHeap heap).setPeer index (host.peers index).clearChannels, none) state
      number := by
  refine .inl ⟨rfl, ?_⟩
  rw [(vacant index free).clearChannels]
  exact Function.update_eq_self ..

theorem connectingPeer_state (host : Host) (peer : Peer) (address : Address)
    (channelCount connectID : Nat) :
    (host.connectingPeer peer address channelCount connectID).state = .connecting := rfl

theorem connectingPeer_outgoingCommands (host : Host) (peer : Peer) (address : Address)
    (channelCount connectID : Nat) :
    (host.connectingPeer peer address channelCount connectID).outgoingCommands =
      peer.outgoingCommands := rfl

/-- The slot that `enet_host_connect` takes once the channels are allocated. -/
theorem hostConnect_allocated {host : Host} {index : Nat} (found : host.freePeer = some index)
    (next : host.heap.hasNext = true) (address : Address) (channelCount data : Nat) :
    ∃ (before : Host) (command : Protocol), command.command.number = 2 ∧
      host.hostConnect address channelCount data =
        ((before.queueOutgoingCommand index command none 0 0).1, some index) ∧
      (before.peers index).state = .connecting ∧
      (before.peers index).outgoingCommands = (host.peers index).outgoingCommands ∧
      before.heap.hasNext = host.heap.mallocSucceeds (host.heap.nextAddress + 1) := by
  unfold hostConnect
  rw [found]
  dsimp only
  rw [Heap.malloc_of_hasNext next]
  dsimp only
  refine ⟨_, connectCommand _ _ data, rfl, rfl, ?_, ?_, rfl⟩
  · rw [setPeer_self, connectingPeer_state]
  · rw [setPeer_self, connectingPeer_outgoingCommands]
    rfl

theorem hostConnect_setsUp_iff {host : Host} (vacant : Vacant host) (address : Address)
    (channelCount data : Nat) :
    host.SetsUp (host.hostConnect address channelCount data) .connecting 2 ↔
      (host.freePeer.isSome = true → host.heap.failsSecond = false) := by
  cases found : host.freePeer with
  | none =>
      unfold hostConnect
      rw [found]
      exact ⟨fun _ impossible => (by cases impossible), fun _ => .inl ⟨rfl, rfl⟩⟩
  | some index =>
      unfold Heap.failsSecond
      cases next : host.heap.hasNext with
      | false =>
          unfold hostConnect
          rw [found]
          dsimp only
          rw [Heap.malloc_of_refused next]
          exact ⟨fun _ _ => rfl, fun _ => .of_vacant vacant (freePeer_disconnected found) _ _ _⟩
      | true =>
          obtain ⟨before, command, number, same, entered, queue, memory⟩ :=
            hostConnect_allocated found next address channelCount data
          rw [same, ← number, setsUp_iff entered queue, memory]
          cases host.heap.mallocSucceeds (host.heap.nextAddress + 1) <;> simp

/-! ## Answering -/

/-- The tests that a CONNECT command passes before anything is allocated for it. -/
def acceptsConnect (host : Host) (fields : Connect) : Bool :=
  decide (protocolMinimumChannelCount ≤ fields.channelCount) &&
    decide (fields.channelCount ≤ protocolMaximumChannelCount) &&
    !(List.range host.peerCount).any (host.isSameConnection fields.connectID) &&
    host.freePeer.isSome &&
    decide (((List.range host.peerCount).filter host.isDuplicate).length < host.duplicatePeers)

theorem acceptedPeer_state (host : Host) (peer : Peer) (fields : Connect) :
    (host.acceptedPeer peer fields).state = .acknowledgingConnect := rfl

theorem acceptedPeer_outgoingCommands (host : Host) (peer : Peer) (fields : Connect) :
    (host.acceptedPeer peer fields).outgoingCommands = peer.outgoingCommands := rfl

/-- A CONNECT command that fails a test changes nothing. -/
theorem handleConnect_refused {host : Host} {fields : Connect}
    (refused : host.acceptsConnect fields = false) :
    host.handleConnect fields = (host, none) := by
  unfold handleConnect
  split
  · rfl
  next bounded =>
      unfold acceptsConnect at refused
      simp only [not_or, Nat.not_lt, Bool.not_eq_true] at bounded
      rw [decide_eq_true bounded.1, decide_eq_true bounded.2.1, bounded.2.2] at refused
      split
      · rfl
      next found =>
          rw [found] at refused
          simp only [Bool.not_false, Bool.and_true, Option.isSome_some, Bool.true_and,
            decide_eq_false_iff_not] at refused
          rw [if_pos (Nat.le_of_not_lt refused)]

/-- What `enet_protocol_handle_connect` does with a CONNECT command that passes the tests. -/
theorem handleConnect_accepted {host : Host} {fields : Connect}
    (accepted : host.acceptsConnect fields = true) :
    ∃ index, host.freePeer = some index ∧
      host.handleConnect fields =
        match host.heap.malloc with
        | (heap, none) =>
          ((host.setHeap heap).setPeer index (host.peers index).clearChannels, none)
        | (heap, some _) =>
          let host := (host.setHeap heap).observe (.started index false)
          let peer := host.acceptedPeer (host.peers index) fields
          (((host.setPeer index peer).queueOutgoingCommand index (host.verifyCommand peer fields)
            none 0 0).1, some index) := by
  unfold acceptsConnect at accepted
  simp only [Bool.and_eq_true, decide_eq_true_eq, Bool.not_eq_true'] at accepted
  obtain ⟨⟨⟨⟨low, high⟩, new⟩, some⟩, room⟩ := accepted
  obtain ⟨index, found⟩ := Option.isSome_iff_exists.mp some
  refine ⟨index, found, ?_⟩
  have tests : ¬(fields.channelCount < protocolMinimumChannelCount ∨
      protocolMaximumChannelCount < fields.channelCount ∨
      (List.range host.peerCount).any (host.isSameConnection fields.connectID) = true) := by
    rintro (below | above | same)
    · exact Nat.not_lt_of_le low below
    · exact Nat.not_lt_of_le high above
    · rw [new] at same
      cases same
  unfold handleConnect
  rw [if_neg tests, found]
  dsimp only
  rewrite [if_neg (Nat.not_le_of_lt room)]
  rfl

/-- The slot that is taken for a CONNECT command once the channels are allocated. -/
theorem handleConnect_allocated {host : Host} {fields : Connect}
    (accepted : host.acceptsConnect fields = true) (next : host.heap.hasNext = true) :
    ∃ (index : Nat) (before : Host) (command : Protocol), command.command.number = 3 ∧
      host.handleConnect fields =
        ((before.queueOutgoingCommand index command none 0 0).1, some index) ∧
      (before.peers index).state = .acknowledgingConnect ∧
      (before.peers index).outgoingCommands = (host.peers index).outgoingCommands ∧
      before.heap.hasNext = host.heap.mallocSucceeds (host.heap.nextAddress + 1) := by
  obtain ⟨index, found, same⟩ := handleConnect_accepted accepted
  rw [Heap.malloc_of_hasNext next] at same
  dsimp only at same
  refine ⟨index, _, verifyCommand _ _ fields, rfl, same, ?_, ?_, rfl⟩
  · rw [setPeer_self, acceptedPeer_state]
  · rw [setPeer_self, acceptedPeer_outgoingCommands]
    rfl

theorem handleConnect_setsUp_iff {host : Host} (vacant : Vacant host) (fields : Connect) :
    host.SetsUp (host.handleConnect fields) .acknowledgingConnect 3 ↔
      (host.acceptsConnect fields = true → host.heap.failsSecond = false) := by
  cases accepted : host.acceptsConnect fields with
  | false =>
      rw [handleConnect_refused accepted]
      exact ⟨fun _ impossible => (by cases impossible), fun _ => .inl ⟨rfl, rfl⟩⟩
  | true =>
      unfold Heap.failsSecond
      cases next : host.heap.hasNext with
      | false =>
          obtain ⟨index, found, same⟩ := handleConnect_accepted accepted
          rw [same, Heap.malloc_of_refused next]
          exact ⟨fun _ _ => rfl, fun _ => .of_vacant vacant (freePeer_disconnected found) _ _ _⟩
      | true =>
          obtain ⟨index, before, command, number, same, entered, queue, memory⟩ :=
            handleConnect_allocated accepted next
          rw [same, ← number, setsUp_iff entered queue, memory]
          cases host.heap.mallocSucceeds (host.heap.nextAddress + 1) <;> simp

/-! ## Disconnecting -/

/-- A call of `enet_peer_disconnect` that has the peer disconnecting has queued its
DISCONNECT command. -/
def DisconnectsWithCommand (host : Host) (index data : Nat) : Prop :=
  ∀ (fuel : Nat) (host' : Host), host.peerDisconnect fuel index data = some host' →
    (host.peers index).state ≠ .disconnecting → (host'.peers index).state = .disconnecting →
    ∃ outgoing ∈ (host'.peers index).outgoingCommands, outgoing.command.command.number = 4

/-- The queue that the start of a disconnection leaves. -/
theorem startDisconnect_outgoingCommands (host : Host) (index data : Nat) :
    ∃ before : Host, before.heap.hasNext = host.heap.hasNext ∧
      (before.peers index).outgoingCommands = [] ∧
      ((host.startDisconnect index data).peers index).outgoingCommands =
        ((before.queueOutgoingCommand index
          { command := .disconnect data
            acknowledge := true
            unsequenced := false
            channelID := 0xFF
            reliableSequenceNumber := 0 } none 0 0).1.peers index).outgoingCommands := by
  refine ⟨host.resetQueues index, ?_, ?_, ?_⟩
  · rw [resetQueues_heap]
    exact (Heap.SameNext.resetQueues host.heap _).hasNext
  · rw [resetQueues_peer]
    rfl
  · unfold startDisconnect
    dsimp only
    rw [setPeer_self, onDisconnect_peers]
    rfl

theorem disconnectsWithCommand_iff (host : Host) (index data : Nat) :
    host.DisconnectsWithCommand index data ↔
      ((host.peers index).state.isConnected = true → host.heap.hasNext = true) := by
  obtain ⟨before, memory, empty, same⟩ := startDisconnect_outgoingCommands host index data
  constructor
  · intro disconnects connected
    have notYet : (host.peers index).state ≠ .disconnecting := by
      intro already
      rw [already] at connected
      cases connected
    have called : host.peerDisconnect 0 index data = some (host.startDisconnect index data) := by
      unfold peerDisconnect
      dsimp only
      rw [if_neg (by rintro (is | is | is | is) <;> rw [is] at connected <;> cases connected),
        if_pos connected]
    have entered : ((host.startDisconnect index data).peers index).state = .disconnecting := by
      unfold startDisconnect
      dsimp only
      rw [setPeer_self]
      rfl
    obtain ⟨outgoing, member, -⟩ := disconnects 0 _ called notYet entered
    by_contra refused
    rw [Bool.not_eq_true, ← memory] at refused
    rw [same, queueOutgoingCommand_refused refused, empty] at member
    cases member
  · intro room fuel host' called notYet entered
    unfold peerDisconnect at called
    dsimp only at called
    split at called
    · cases called
      exact absurd entered notYet
    · split at called
      next connected =>
          cases called
          have next : before.heap.hasNext = true := memory.trans (room connected)
          obtain ⟨outgoing, queued, number⟩ := queueOutgoingCommand_queuesLast next index
            { command := .disconnect data
              acknowledge := true
              unsequenced := false
              channelID := 0xFF
              reliableSequenceNumber := 0 }
          refine ⟨outgoing, ?_, number⟩
          rw [same, queued]
          exact List.mem_append_right _ List.mem_cons_self
      · obtain ⟨flushed, -, same⟩ := Option.map_eq_some_iff.mp called
        obtain ⟨mtu, reset⟩ := peerReset_peer flushed index
        rw [← same, reset] at entered
        cases entered

end Host

/-! ## All three -/

/-- **A connection is set up in full or not at all exactly where the last of its
allocations does not fail alone.** -/
theorem setUp_atomic_iff {activity : Activity} (visited : Visited activity) :
    (∀ address channelCount data,
      activity.1.SetsUp (activity.1.hostConnect address channelCount data) .connecting 2 ↔
        (activity.1.freePeer.isSome = true → activity.1.heap.failsSecond = false)) ∧
    (∀ fields, activity.1.SetsUp (activity.1.handleConnect fields) .acknowledgingConnect 3 ↔
        (activity.1.acceptsConnect fields = true → activity.1.heap.failsSecond = false)) ∧
    ∀ index data, activity.1.DisconnectsWithCommand index data ↔
      ((activity.1.peers index).state.isConnected = true → activity.1.heap.hasNext = true) := by
  have vacant := Vacant.visited visited
  exact ⟨fun _ _ _ => Host.hostConnect_setsUp_iff vacant _ _ _,
    fun fields => Host.handleConnect_setsUp_iff vacant fields,
    fun index data => Host.disconnectsWithCommand_iff activity.1 index data⟩

/-- A host whose second allocation fails. -/
def starvedHost : Host :=
  .create { Heap.ample with mallocSucceeds := fun allocation => allocation ≠ 1 }
    (.delivering (fun _ => 0) []) 0 1 1 0 0

theorem starvedHost_atomic_iff :
    starvedHost.SetsUp (starvedHost.hostConnect ⟨1, 2⟩ 1 0) .connecting 2 ↔
      (starvedHost.freePeer.isSome = true → starvedHost.heap.failsSecond = false) :=
  (setUp_atomic_iff (@Visited.of_reachable starvedHost none (.create ..) rfl)).1 ⟨1, 2⟩ 1 0

/-- The call returns a peer that is connecting without a CONNECT command. -/
theorem hostConnect_halfway :
    (starvedHost.hostConnect ⟨1, 2⟩ 1 0).2 = some 0 ∧
      ((starvedHost.hostConnect ⟨1, 2⟩ 1 0).1.peers 0).state = .connecting ∧
      ((starvedHost.hostConnect ⟨1, 2⟩ 1 0).1.peers 0).outgoingCommands = [] ∧
      ¬ starvedHost.SetsUp (starvedHost.hostConnect ⟨1, 2⟩ 1 0) .connecting 2 := by
  refine ⟨by decide +kernel, by decide +kernel, by decide +kernel, ?_⟩
  rintro (⟨nothing, -⟩ | ⟨index, found, -, outgoing, queued, -⟩)
  · revert nothing
    decide +kernel
  · have first : index = 0 := by
      rw [show (starvedHost.hostConnect ⟨1, 2⟩ 1 0).2 = some 0 by decide +kernel] at found
      exact (Option.some.inj found).symm
    rw [first, show ((starvedHost.hostConnect ⟨1, 2⟩ 1 0).1.peers 0).outgoingCommands = [] by
      decide +kernel] at queued
    exact absurd (congrArg List.length queued) (by rw [List.length_append]; simp)

end Enet
