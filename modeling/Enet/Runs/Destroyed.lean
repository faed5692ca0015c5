import Enet.Runs.Housed
import Enet.Runs.PacketCalls

/-!
# The end of a host

`enet_host_destroy` resets every peer, with whatever its queues hold. It leaves no
command and no packet of the library behind, and gives none back twice.
-/

set_option autoImplicit false

namespace Enet

open Library Finset

/-! ## The heap -/

/-- Resetting the queues allocates nothing. -/
theorem Heap.resetQueues_next (heap : Heap) (peer : Peer) :
    (heap.resetQueues peer).nextAddress = heap.nextAddress := by
  have outgoing : ∀ (commands : List OutgoingCommand) (heap : Heap),
      (commands.foldl removeOutgoing heap).arena.next = heap.arena.next := by
    intro commands heap
    rw [foldl_removeOutgoing_arena, Arena.foldl_give_next]
  have incoming : ∀ (commands : List IncomingCommand) (heap : Heap),
      (commands.foldl removeIncoming heap).arena.next = heap.arena.next := by
    intro commands heap
    rw [foldl_removeIncoming_arena, Arena.foldl_give_next]
  unfold resetQueues
  dsimp only
  exact (incoming ..).trans ((incoming ..).trans ((outgoing ..).trans ((outgoing ..).trans
    (outgoing ..))))

/-! ## The loop -/

namespace Host

/-- Some of the peers are reset: what they held is given back, and the others are as they
were. -/
structure Resets (host : Host) (count : Nat) (host' : Host) : Prop where
  others : ∀ index, count ≤ index → host'.peers index = host.peers index
  next : host'.heap.nextAddress = host.heap.nextAddress
  frees : host.heap.Handles host'.heap (host.blocks (range count)) 0
  releases : host.heap.Releases host'.heap
    (∑ index ∈ range count, (host.peers index).references) 0

/-- **One more peer is reset.** -/
theorem Resets.peerReset {host host' : Host} {count : Nat} (resets : host.Resets count host') :
    host.Resets (count + 1) (host'.peerReset count) := by
  have acts := ActsOn.peerReset host' count
  have same := resets.others count le_rfl
  have heap := host'.peerReset_heap count
  rw [same] at heap
  refine ⟨fun index above => ?_, ?_, ?_, ?_⟩
  · rw [acts.others index (by omega)]
    exact resets.others index (by omega)
  · rw [heap, Heap.resetQueues_next, resets.next]
  · rw [heap, blocks, sum_range_succ]
    have first := resets.frees.beside (host.peers count).blocks
    rw [zero_add] at first
    exact first.trans (.resetQueues host'.heap (host.peers count))
  · rw [heap, sum_range_succ]
    have first := resets.releases.beside (host.peers count).references
    rw [zero_add] at first
    exact first.trans (.resetQueues host'.heap (host.peers count))

theorem hostDestroy_resets (host : Host) : host.Resets host.peerCount host.hostDestroy := by
  unfold hostDestroy
  induction host.peerCount with
  | zero => exact ⟨fun _ _ => rfl, rfl, .refl _ _, .refl _ _⟩
  | succ count ih =>
      rw [List.range_succ, List.foldl_append]
      exact ih.peerReset

end Host

/-! ## The packets -/

/-- What a host leaves in memory once it is destroyed. -/
structure Host.LeavesNothing (host : Host) : Prop where
  unreferenced : ∀ packet : Packet,
    host.hostDestroy.heap.referenceCount packet.address = 0
  once : host.hostDestroy.heap.destroyed.Nodup
  destroyed : ∀ address, address ∈ host.hostDestroy.heap.destroyed ↔
    address ∈ host.heap.destroyed ∨ address ∈ host.references
  freed : (↑host.hostDestroy.heap.freed : Multiset Nat) =
    host.blocks (range host.peerCount) + ↑host.heap.freed

/-- **A host that is destroyed leaves nothing behind**: of an application that sends
packets it has, every packet that a command refers to is destroyed, once, and every
command is freed, once. -/
theorem host_destroyed {host : Host} (handled : host.Handled) : host.LeavesNothing := by
  have kept := handled.kept
  have resets := host.hostDestroy_resets
  obtain ⟨items, split, released⟩ := resets.releases
  rw [add_zero] at split
  have held : host.references = ↑items := split
  have moves : Ledger.Moves ⟨fun _ => False, fun _ => False, fun _ => False⟩
      (host.heap.ledger, host.references) (host.hostDestroy.heap.ledger, 0) := by
    have gives := Ledger.Moves.releases ⟨fun _ => False, fun _ => False, fun _ => False⟩ items
      host.heap.ledger 0
    rwa [add_zero, ← held, ← released] at gives
  have balanced := moves.balanced kept.balanced
  refine ⟨fun packet => ?_, balanced.once, fun address => ⟨fun gone => ?_, ?_⟩, ?_⟩
  · exact (balanced.count packet.address).trans (Multiset.count_zero _)
  · rcases moves.destroyed gone with before | was | never | never
    · exact .inl before
    · exact .inr was
    · exact never.elim
    · exact never.elim
  · rintro (before | was)
    · exact moves.still before
    · exact (moves.left kept.balanced was (Multiset.notMem_zero _)).resolve_right id
  · have settled := Arena.Handles.settled resets.frees resets.next
    rwa [zero_add] at settled

/-- A packet that was sent and not delivered is destroyed with its host. -/
theorem host_destroyed_sent :
    ∃ host : Host, host.Handled ∧ host.heap.destroyed = [] ∧
      host.hostDestroy.heap.destroyed.length = 1 ∧ host.LeavesNothing := by
  let flags : PacketFlags := ⟨true, false, false, false⟩
  have evaluated : (servedHost connectDatagrams 2).map (fun host =>
      let created := host.heap.createPacket (some [65]) 1 flags
      let packet : Packet := ⟨host.heap.nextAddress, flags, [65]⟩
      (decide (packet.address < created.1.nextAddress ∧ packet.address ∉ created.1.destroyed ∧
          packet.address ∉ (host.setHeap created.1).incomingReferences),
        ((host.setHeap created.1).peerSend 0 0 packet).1.heap.destroyed,
        ((host.setHeap created.1).peerSend 0 0 packet).1.hostDestroy.heap.destroyed.length)) =
      some (true, [], 1) := by decide +kernel
  obtain ⟨host, serves, same⟩ := Option.map_eq_some_iff.mp evaluated
  simp only [Prod.mk.injEq, decide_eq_true_eq] at same
  obtain ⟨⟨allocated, alive, own⟩, none, one⟩ := same
  have created := Host.Handled.packetCreate (some [65]) 1 flags (servedHost_handled serves)
  have handled := Host.Handled.call 0 (.send 0 0 ⟨host.heap.nextAddress, flags, [65]⟩) created
    (by rintro packet ⟨⟩; exact ⟨allocated, alive, own⟩) rfl
  exact ⟨_, handled, none, one, host_destroyed handled⟩

end Enet
