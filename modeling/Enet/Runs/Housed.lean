import Enet.Runs.Freed

/-!
# The memory of a run

Whatever an application calls and whatever datagrams arrive, a command is held by
one peer until it is freed, and it is freed once. None is lost: what a peer held
it holds still, or it was freed.
-/

set_option autoImplicit false

namespace Enet

open Library Finset

/-! ## One host -/

/-- The blocks of a host, with those of the unreliable commands in the datagram of a
peer, and what became of the blocks that a host held before. -/
structure Housed (start host : Host) (sentUnreliable : List OutgoingCommand) : Prop where
  contained : Contained host
  sound : ∀ slots, host.heap.arena.Sound (host.blocks slots + outgoingBlocks sentUnreliable)
  kept : ∀ slots, start.blocks slots + ↑start.heap.freed ≤
    host.blocks slots + outgoingBlocks sentUnreliable + ↑host.heap.freed

namespace Housed

variable {start host host' : Host} {index : Nat}
  {sentUnreliable sentUnreliable' : List OutgoingCommand}

/-- **What is done for one peer**: it is enough that its own blocks are handled, and
that no block leaves the datagram but to be freed. -/
theorem handles (housed : Housed start host sentUnreliable) (acts : ActsOn index host host')
    (contained : Contained host')
    (handles : host.heap.Handles host'.heap
      ((host.peers index).blocks + outgoingBlocks sentUnreliable)
      ((host'.peers index).blocks + outgoingBlocks sentUnreliable'))
    (more : outgoingBlocks sentUnreliable + ↑host.heap.freed ≤
      outgoingBlocks sentUnreliable' + ↑host'.heap.freed) :
    Housed start host' sentUnreliable' := by
  have others : ∀ slots : Finset Nat, ∑ slot ∈ slots.erase index, (host'.peers slot).blocks =
      ∑ slot ∈ slots.erase index, (host.peers slot).blocks := fun slots =>
    sum_congr rfl fun slot erased => by rw [acts.others slot (mem_erase.mp erased).1]
  have split : ∀ (other : Host) (slots : Finset Nat), index ∈ slots →
      other.blocks slots = (other.peers index).blocks +
        ∑ slot ∈ slots.erase index, (other.peers slot).blocks :=
    fun other slots member => (add_sum_erase _ _ member).symm
  -- the blocks of slots among which is the one that is acted on
  have among : ∀ slots : Finset Nat, index ∈ slots → host.heap.Handles host'.heap
      (host.blocks slots + outgoingBlocks sentUnreliable)
      (host'.blocks slots + outgoingBlocks sentUnreliable') := by
    intro slots member
    refine (handles.beside (∑ slot ∈ slots.erase index, (host.peers slot).blocks)).congr ?_ ?_
    · rw [split host slots member]
      abel
    · rw [split host' slots member, others]
      abel
  refine ⟨contained, fun slots => ?_, fun slots => ?_⟩
  · have sound := Arena.Handles.sound (among (insert index slots) (mem_insert_self ..))
      (housed.sound _)
    exact sound.mono (add_le_add_left (sum_le_sum_of_subset (subset_insert ..)) _)
  · refine (housed.kept slots).trans ?_
    by_cases member : index ∈ slots
    · exact Arena.Handles.kept (among slots member)
    · have same : host'.blocks slots = host.blocks slots := by
        have whole := others slots
        rwa [erase_eq_of_notMem member] at whole
      rw [same, add_assoc, add_assoc]
      exact add_le_add_right more _

/-- What leaves the datagram alone. -/
theorem of_peer (housed : Housed start host sentUnreliable) (acts : ActsOn index host host')
    (contained : Contained host')
    (handles : host.heap.Handles host'.heap (host.peers index).blocks (host'.peers index).blocks) :
    Housed start host' sentUnreliable :=
  housed.handles acts contained (handles.beside _) (add_le_add_right handles.returned _)

/-- What leaves the blocks of the peer. -/
theorem same (housed : Housed start host sentUnreliable) (acts : ActsOn index host host')
    (contained : Contained host') (freed : host'.heap.freed = host.heap.freed)
    (blocks : (host'.peers index).blocks = (host.peers index).blocks) :
    Housed start host' sentUnreliable :=
  housed.of_peer acts contained (.of_same acts.mallocs.nextAddress freed blocks)

theorem setPeer (housed : Housed start host sentUnreliable) {peer : Peer}
    (contained : Contained (host.setPeer index peer))
    (blocks : peer.blocks = (host.peers index).blocks) :
    Housed start (host.setPeer index peer) sentUnreliable := by
  refine housed.same (.setPeer host index peer) contained rfl ?_
  rw [Host.setPeer_self]
  exact blocks

/-- A change of fields that hold no command. -/
theorem of_heap (housed : Housed start host sentUnreliable) (peers : host'.peers = host.peers)
    (peerCount : host'.peerCount = host.peerCount)
    (grows : host.heap.nextAddress ≤ host'.heap.nextAddress)
    (freed : host'.heap.freed = host.heap.freed) : Housed start host' sentUnreliable := by
  have blocks : host'.blocks = host.blocks := by
    funext slots
    unfold Host.blocks
    rw [peers]
  refine ⟨⟨?_, ?_⟩, fun slots => ?_, fun slots => ?_⟩
  · rw [peers]
    exact housed.contained.peers
  · rw [peers, peerCount]
    exact housed.contained.spare
  · rw [blocks]
    exact Arena.Handles.sound (Heap.Handles.of_same grows freed rfl) (housed.sound slots)
  · rw [blocks, freed]
    exact housed.kept slots

theorem quiet (housed : Housed start host sentUnreliable) (quiet : Quiet host host') :
    Housed start host' sentUnreliable := by
  have blocks : host'.blocks = host.blocks := by
    funext slots
    exact sum_congr rfl fun slot _ => (quiet.peers slot).blocks
  refine ⟨housed.contained.quiet quiet, fun slots => ?_, fun slots => ?_⟩
  · rw [blocks, quiet.heap]
    exact housed.sound slots
  · rw [blocks, quiet.heap]
    exact housed.kept slots

/-- **Resetting the queues of a peer frees its commands.** -/
theorem emptied (housed : Housed start host sentUnreliable) (acts : ActsOn index host host')
    (contained : Contained host')
    (heap : host'.heap = host.heap.resetQueues (host.peers index))
    (empty : (host'.peers index).blocks = 0) : Housed start host' sentUnreliable := by
  refine housed.of_peer acts contained ?_
  rw [heap, empty]
  exact .resetQueues host.heap (host.peers index)

/-! ## Edits -/

/-- **An edit frees the commands that it takes out of the queues.** -/
theorem edit (edit : Edit index host host') (housed : Housed start host sentUnreliable) :
    Housed start host' sentUnreliable := by
  have contained := housed.contained.edit edit
  cases edit with
  | quiet quiet => exact housed.quiet quiet
  | malloc => exact housed.of_heap rfl rfl (Heap.malloc_grows host.heap).nextAddress rfl
  | observe observation about fresh => exact housed.of_heap rfl rfl le_rfl rfl
  | schedule =>
      refine housed.same (.scheduleDispatch host index) contained
        (congrArg Heap.freed (host.scheduleDispatch_heap index)) ?_
      rw [Host.scheduleDispatch_peer]
      rfl
  | unschedule =>
      exact @setPeer start (host.setDispatchQueue (host.dispatchQueue.remove (.peer index))) index
        sentUnreliable (housed.of_heap rfl rfl le_rfl rfl) _ contained rfl
  | changeState state used stays may =>
      refine housed.same (.changeState host index state) contained
        (congrArg Heap.freed (host.changeState_heap index state)) ?_
      rw [Host.changeState_peer]
      rfl
  | eventData data => exact housed.setPeer contained rfl
  | resetQueues =>
      refine housed.emptied (.resetQueues host index) contained (host.resetQueues_heap index) ?_
      rw [Host.resetQueues_peer]
      rfl
  | reset =>
      obtain ⟨mtu, same⟩ := Host.peerReset_peer host index
      refine housed.emptied (.peerReset host index) contained (host.peerReset_heap index) ?_
      rw [same]
      rfl
  | clearChannels free =>
      exact housed.setPeer contained (Peer.blocks_of_empty
        ((housed.contained.peers index).unopened (.inl free)) (fun _ => rfl) rfl rfl)
  | connecting address channelCount connectID slot free locally =>
      exact housed.setPeer contained ((Host.connectingPeer_takes host (host.peers index) address
        (Host.clampChannelCount channelCount) connectID).blocks
          ((housed.contained.peers index).unopened (.inl free)))
  | accepted fields slot free channels admits =>
      exact housed.setPeer contained ((host.acceptedPeer_takes (host.peers index) fields).blocks
        ((housed.contained.peers index).unopened (.inl free)))
  | verified fields waits =>
      have empty := (housed.contained.peers index).unopened (.inr waits)
      exact housed.setPeer contained (Peer.blocks_of_empty empty empty rfl rfl)
  | bandwidth incomingBandwidth outgoingBandwidth =>
      unfold Host.handleBandwidthLimit at contained ⊢
      dsimp only at contained ⊢
      split
      · exact housed
      next up =>
          rw [if_neg up] at contained
          exact @setPeer start (host.setBandwidthLimitedPeers _ _) index sentUnreliable
            (housed.of_heap rfl rfl le_rfl rfl) _ contained rfl
  | queue command control bare =>
      exact housed.of_peer (.queueOutgoingCommand ..) contained
        (host.queueOutgoingCommand_handles ..)
  | removeSent number channelID =>
      exact housed.of_peer (SendsFor.removeSentReliableCommand host index number channelID).acts
        contained (host.removeSentReliableCommand_handles ..)
  | scanTimeouts =>
      have sending := Peer.SendingOnly.checkTimeouts (host.peers index) host.serviceTime
      refine housed.setPeer contained ?_
      rw [Peer.blocks, sending.incomingBlocks, Peer.outgoingBlocks, Peer.checkTimeouts_pending]
      rfl
  | receive step heard =>
      exact housed.of_peer step.receivesFor.acts contained (Host.receiveStep_handles step)
  | acknowledge acknowledgement => exact housed.setPeer contained rfl
  | acknowledged rest => exact housed.setPeer contained rfl

/-! ## Transmission -/

/-- **A check of the outgoing commands** holds the unreliable commands that it puts in
the datagram. -/
theorem scan (housed : Housed start host sentUnreliable) (index : Nat) :
    Housed start (host.installScan index (host.scanOutgoing index sentUnreliable))
      (host.scanOutgoing index sentUnreliable).sentUnreliable := by
  have contained := Contained.maintained.scan host index sentUnreliable housed.contained
  have scans := (host.peers index).checkOutgoingCommands_handles host.heap host.datagram
    sentUnreliable host.serviceTime
  obtain ⟨sent, split⟩ := OutgoingScan.run_sentUnreliable host.serviceTime
    ((host.peers index).outgoingCommands.length +
      (host.peers index).outgoingSendReliableCommands.length)
    (.start (host.peers index) host.heap host.datagram sentUnreliable)
  have acts : ActsOn index host
      (host.installScan index (host.scanOutgoing index sentUnreliable)) := by
    have grows := Peer.checkOutgoingCommands_grows (host.peers index) host.heap host.datagram
      sentUnreliable host.serviceTime
    have scanned : ActsOn index host ((host.setHeap
        (host.scanOutgoing index sentUnreliable).heap).setDatagram
        (host.scanOutgoing index sentUnreliable).datagram) := .of_same rfl rfl grows rfl
    exact scanned.trans (.setPeer _ index _)
  refine housed.handles acts contained ?_ ?_
  · unfold Host.installScan
    rw [Host.setPeer_self]
    exact scans
  · rw [show (host.scanOutgoing index sentUnreliable).sentUnreliable = sentUnreliable ++ sent from
      split.symm, outgoingBlocks_append]
    exact add_le_add (Multiset.le_add_right ..) scans.returned

/-- The commands of a datagram that was sent are freed. -/
theorem free (housed : Housed start host sentUnreliable) :
    Housed start (host.freeSent sentUnreliable) [] := by
  have frees := Heap.Handles.foldl_removeOutgoing sentUnreliable host.heap
  have grows := Heap.foldl_grows _ Heap.removeOutgoing_grows sentUnreliable host.heap
  have acts : ActsOn 0 host (host.freeSent sentUnreliable) := .of_same rfl rfl grows rfl
  refine housed.handles acts ⟨housed.contained.peers, housed.contained.spare⟩ ?_ ?_
  · exact (frees.beside (host.peers 0).blocks).congr (add_comm ..) (add_comm ..)
  · exact frees.kept

theorem maintained (start : Host) : Maintained (Housed start) where
  edit := edit
  scan := fun _ index _ housed => housed.scan index
  free := fun _ _ housed => housed.free
  take := fun host index housed => housed.of_peer (.peerReceive host index)
    (housed.contained.peerReceive index) (host.peerReceive_handles index)
  packet := fun host index channelID packet housed =>
    housed.of_peer (.peerSend host index channelID packet)
      (housed.contained.sendsFor (.peerSend ..)) (host.peerSend_handles index channelID packet)
  discard := fun _ _ _ housed => housed.of_heap rfl rfl le_rfl rfl
  configure := fun _ _ _ _ _ _ _ _ housed => housed.of_heap rfl rfl le_rfl rfl

end Housed

/-! ## Applications -/

/-- The hosts that an application leads to from some host on. It makes and destroys
packets, and calls the library as it likes. -/
inductive Host.LeadsTo (start : Host) : Host → Prop where
  | refl : LeadsTo start start
  | packetCreate {host : Host} (data : Option (List UInt8)) (dataLength : Nat)
      (flags : PacketFlags) (leads : LeadsTo start host) :
      LeadsTo start (host.setHeap (host.heap.createPacket data dataLength flags).1)
  | packetDestroy {host : Host} (packet : Packet) (leads : LeadsTo start host) :
      LeadsTo start (host.setHeap (host.heap.destroy packet))
  | call {host host' : Host} {event : Option Event} {value : Int} (fuel : Nat) (call : Host.Call)
      (leads : LeadsTo start host) (returns : call.run fuel host = some (host', event, value)) :
      LeadsTo start host'

theorem Housed.leadsTo {start host host' : Host} (leads : host.LeadsTo host')
    (housed : Housed start host []) : Housed start host' [] := by
  induction leads with
  | refl => exact housed
  | @packetCreate host data dataLength flags leads ih =>
      have creates := Heap.Handles.createPacket host.heap data dataLength flags
      refine ⟨⟨ih.contained.peers, ih.contained.spare⟩, fun slots => ?_, fun slots => ?_⟩
      · exact Arena.Handles.sound (creates _) (ih.sound slots)
      · exact (ih.kept slots).trans (Arena.Handles.kept (creates _))
  | packetDestroy packet leads ih => exact ih.of_heap rfl rfl le_rfl rfl
  | call fuel call leads returns ih =>
      exact (Housed.maintained start).run (call_run call returns) ih

/-- **The memory of the commands of a host**: each is held once, by one peer, none is
held that was freed, and none was freed twice. -/
structure Host.CommandsSound (host : Host) : Prop where
  freed : host.heap.freed.Nodup
  held : ∀ index, (host.peers index).blocks.Nodup
  apart : ∀ index other, index ≠ other →
    Disjoint (host.peers index).blocks (host.peers other).blocks
  alive : ∀ index, ∀ address ∈ (host.peers index).blocks, address ∉ host.heap.freed
  known : ∀ index, ∀ address ∈ (host.peers index).blocks, address < host.heap.nextAddress

theorem Housed.commandsSound {start host : Host} (housed : Housed start host []) :
    host.CommandsSound := by
  have single : ∀ index, host.heap.arena.Sound (host.peers index).blocks := by
    intro index
    have sound := housed.sound {index}
    rwa [outgoingBlocks_nil, add_zero, Host.blocks, sum_singleton] at sound
  refine ⟨(single 0).freed_nodup, fun index => (single index).held_nodup, ?_,
    fun index address member => (single index).alive member, fun index address member =>
      (single index).known address (Multiset.mem_add.mpr (.inl member))⟩
  intro index other different
  have sound := housed.sound {index, other}
  rw [outgoingBlocks_nil, add_zero, Host.blocks, sum_pair different] at sound
  exact sound.disjoint

/-- A new host holds no command. -/
theorem Housed.create {heap : Heap} (world : World) (randomSeed peerCount channelLimit
    incomingBandwidth outgoingBandwidth : Nat) (once : heap.freed.Nodup)
    (known : ∀ address ∈ heap.freed, address < heap.nextAddress) :
    Housed (.create heap world randomSeed peerCount channelLimit incomingBandwidth
      outgoingBandwidth) (.create heap world randomSeed peerCount channelLimit incomingBandwidth
        outgoingBandwidth) [] := by
  have none : ∀ slots, (Host.create heap world randomSeed peerCount channelLimit
      incomingBandwidth outgoingBandwidth).blocks slots = 0 := fun slots =>
    sum_eq_zero fun _ _ => rfl
  refine ⟨.create .., fun slots => ?_, fun slots => ?_⟩
  · rw [none, outgoingBlocks_nil, add_zero]
    refine ⟨?_, fun address member => ?_⟩
    · rw [zero_add]
      exact Multiset.coe_nodup.mpr once
    · rw [zero_add] at member
      exact known address member
  · rw [outgoingBlocks_nil, add_zero]

/-- **Every command is freed once**, whatever an application calls and whatever
datagrams arrive: in every state between calls the memory of the commands is sound, and
from there on what is freed stays freed, and a command stays with its peer until it is
freed. -/
theorem commands_freed_once {heap : Heap} (world : World) (randomSeed peerCount channelLimit
    incomingBandwidth outgoingBandwidth : Nat) (once : heap.freed.Nodup)
    (known : ∀ address ∈ heap.freed, address < heap.nextAddress) {host : Host}
    (leads : (Host.create heap world randomSeed peerCount channelLimit incomingBandwidth
      outgoingBandwidth).LeadsTo host) :
    host.CommandsSound ∧ ∀ host', host.LeadsTo host' →
      (∀ address ∈ host.heap.freed, address ∈ host'.heap.freed) ∧
      ∀ index, ∀ address ∈ (host.peers index).blocks,
        address ∈ (host'.peers index).blocks ∨ address ∈ host'.heap.freed := by
  have housed := (Housed.create world randomSeed peerCount channelLimit incomingBandwidth
    outgoingBandwidth once known).leadsTo leads
  refine ⟨housed.commandsSound, fun host' leads' => ?_⟩
  have restarts : Housed host host [] := ⟨housed.contained, housed.sound, fun slots => by
    rw [outgoingBlocks_nil, add_zero]⟩
  have kept := (restarts.leadsTo leads').kept
  refine ⟨fun address member => ?_, fun index address member => ?_⟩
  · have grown := kept ∅
    rw [outgoingBlocks_nil, add_zero, Host.blocks, Host.blocks, sum_empty, sum_empty, zero_add,
      zero_add] at grown
    exact Multiset.mem_of_le grown member
  · have own := kept {index}
    rw [outgoingBlocks_nil, add_zero, Host.blocks, Host.blocks, sum_singleton,
      sum_singleton] at own
    exact Multiset.mem_add.mp (Multiset.mem_of_le own (Multiset.mem_add.mpr (.inl member)))

theorem servedHost_leadsTo {datagrams : List (Address × List UInt8)} {calls : Nat} {host : Host}
    (serves : servedHost datagrams calls = some host) :
    (Host.create .ample (.delivering (fun _ => 1) datagrams) 0 1 1 0 0).LeadsTo host := by
  induction calls generalizing host with
  | zero => cases serves; exact .refl
  | succ calls ih =>
      obtain ⟨before, served, serves⟩ := Option.bind_eq_some_iff.mp serves
      obtain ⟨⟨after, event, value⟩, returns, rfl⟩ := Option.map_eq_some_iff.mp serves
      exact .call 5 (.service (some noEvent) 0) (ih served) returns

/-- The VERIFY_CONNECT command of a new connection, freed where it is acknowledged. -/
theorem commands_freed_once_acknowledged :
    ∃ before host, servedHost connectDatagrams 1 = some before ∧
      servedHost connectDatagrams 2 = some host ∧
      (before.peers 0).blocks = {1} ∧ host.heap.freed = [1] ∧ host.CommandsSound := by
  have early : (servedHost connectDatagrams 1).map (fun host =>
      (host.peers 0).outgoingBlocks + (host.peers 0).incomingBlocks) = some {1} := by
    decide +kernel
  have late : (servedHost connectDatagrams 2).map (fun host => host.heap.freed) = some [1] := by
    decide +kernel
  obtain ⟨before, served, held⟩ := Option.map_eq_some_iff.mp early
  obtain ⟨host, serves, freed⟩ := Option.map_eq_some_iff.mp late
  exact ⟨before, host, served, serves, held, freed, (commands_freed_once _ 0 1 1 0 0 List.nodup_nil
    (fun _ member => absurd member List.not_mem_nil) (servedHost_leadsTo serves)).1⟩

end Enet
