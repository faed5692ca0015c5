import Enet.Library.Counting
import Enet.Library.Ledger
import Enet.Channels.Conserved
import Enet.Runs.Queues
import Enet.Runs.Rules

/-!
# The references to packets

A packet is referred to by the commands that point to it: those in the three
queues of outgoing commands of every peer, in its dispatched commands, and in
the lists of its channels. What the functions on the queues take out they
release; what they move they still refer to.
-/

set_option autoImplicit false

namespace Enet

open Library Finset

/-! ## Commands -/

/-- The packets that outgoing commands point to. -/
def outgoingPackets (commands : List OutgoingCommand) : Multiset Nat :=
  ↑(commands.filterMap fun outgoing => outgoing.packet.map Packet.address)

/-- The packets that received commands point to. -/
def incomingPackets (commands : Multiset IncomingCommand) : Multiset Nat :=
  commands.map fun command => command.packet.address

@[simp] theorem outgoingPackets_nil : outgoingPackets [] = 0 := rfl

@[simp] theorem outgoingPackets_append (commands others : List OutgoingCommand) :
    outgoingPackets (commands ++ others) = outgoingPackets commands + outgoingPackets others := by
  rw [outgoingPackets, List.filterMap_append, ← Multiset.coe_add]
  rfl

theorem outgoingPackets_cons (outgoing : OutgoingCommand) (commands : List OutgoingCommand) :
    outgoingPackets (outgoing :: commands) =
      outgoingPackets [outgoing] + outgoingPackets commands :=
  outgoingPackets_append [outgoing] commands

/-- A command refers to its packet, whatever else of it changes. -/
theorem outgoingPackets_congr {outgoing other : OutgoingCommand}
    (same : outgoing.packet = other.packet) :
    outgoingPackets [outgoing] = outgoingPackets [other] := by
  unfold outgoingPackets
  rw [List.filterMap_cons, List.filterMap_cons, same]

theorem outgoingPackets_eraseIdx {commands : List OutgoingCommand} {place : Nat}
    {outgoing : OutgoingCommand} (found : commands[place]? = some outgoing) :
    outgoingPackets commands =
      outgoingPackets [outgoing] + outgoingPackets (commands.eraseIdx place) := by
  obtain ⟨inside, here⟩ := List.getElem?_eq_some_iff.mp found
  have split := List.take_append_drop place commands
  rw [List.drop_eq_getElem_cons inside, here] at split
  rw [List.eraseIdx_eq_take_drop_succ]
  conv => lhs; rw [← split]
  rw [outgoingPackets_append, outgoingPackets_append, outgoingPackets_cons]
  abel

@[simp] theorem incomingPackets_zero : incomingPackets 0 = 0 := rfl

@[simp] theorem incomingPackets_add (commands others : Multiset IncomingCommand) :
    incomingPackets (commands + others) = incomingPackets commands + incomingPackets others :=
  Multiset.map_add ..

/-! ## Peers and hosts -/

namespace Peer

/-- The packets that the outgoing commands of a peer point to. -/
def outgoingReferences (peer : Peer) : Multiset Nat :=
  outgoingPackets peer.outgoingCommands + outgoingPackets peer.outgoingSendReliableCommands +
    outgoingPackets peer.sentReliableCommands

/-- The packets that the received commands of a peer point to. -/
def incomingReferences (peer : Peer) : Multiset Nat :=
  incomingPackets ↑peer.dispatchedCommands +
    ∑ channelID ∈ range peer.channelCount, incomingPackets (peer.channels channelID).commands

/-- The packets that the commands of a peer point to. -/
def references (peer : Peer) : Multiset Nat := peer.outgoingReferences + peer.incomingReferences

end Peer

namespace Host

/-- The packets that the received commands of a host point to. -/
def incomingReferences (host : Host) : Multiset Nat :=
  ∑ index ∈ range host.peerCount, (host.peers index).incomingReferences

/-- The packets that the commands of a host point to, one for each command. -/
def references (host : Host) : Multiset Nat :=
  ∑ index ∈ range host.peerCount, (host.peers index).references

end Host

/-! ## The heap -/

/-- The counts of references, and the packets destroyed. -/
def Heap.ledger (heap : Heap) : Ledger Nat := ⟨heap.referenceCount, heap.destroyed⟩

namespace Heap

@[simp] theorem malloc_ledger (heap : Heap) : heap.malloc.1.ledger = heap.ledger := rfl

@[simp] theorem free_ledger (heap : Heap) (address : Nat) :
    (heap.free address).ledger = heap.ledger := rfl

@[simp] theorem acquire_ledger (heap : Heap) (packet : Packet) :
    (heap.acquire packet).ledger = heap.ledger.acquire packet.address := rfl

@[simp] theorem destroy_ledger (heap : Heap) (packet : Packet) :
    (heap.destroy packet).ledger = heap.ledger.destroy packet.address := rfl

@[simp] theorem unreference_ledger (heap : Heap) (packet : Packet) :
    (heap.unreference packet).ledger = heap.ledger.drop packet.address := rfl

@[simp] theorem release_ledger (heap : Heap) (packet : Packet) :
    (heap.release packet).ledger = heap.ledger.release packet.address := by
  unfold release Ledger.release
  dsimp only
  split
  next none => exact (if_pos none).symm
  next some => exact (if_neg some).symm

theorem ledger_of_malloc {heap heap' : Heap} {result : Option Nat}
    (allocated : heap.malloc = (heap', result)) : heap'.ledger = heap.ledger := by
  rw [← heap.malloc_ledger, allocated]

/-- References given up: what is not held any more was released. -/
def Releases (heap heap' : Heap) (held held' : Multiset Nat) : Prop :=
  ∃ items : List Nat, held = ↑items + held' ∧
    heap'.ledger = items.foldl Ledger.release heap.ledger

namespace Releases

variable {heap heap' heap'' : Heap} {held held' held'' : Multiset Nat}

theorem of_same (ledger : heap'.ledger = heap.ledger) (same : held = held') :
    heap.Releases heap' held held' :=
  ⟨[], by rw [same, Multiset.coe_nil, zero_add], ledger⟩

theorem refl (heap : Heap) (held : Multiset Nat) : heap.Releases heap held held := of_same rfl rfl

theorem trans (first : heap.Releases heap' held held')
    (second : heap'.Releases heap'' held' held'') : heap.Releases heap'' held held'' := by
  obtain ⟨items, split, releases⟩ := first
  obtain ⟨others, split', releases'⟩ := second
  refine ⟨items ++ others, ?_, ?_⟩
  · rw [split, split', ← Multiset.coe_add, add_assoc]
  · rw [releases', releases, List.foldl_append]

/-- What else is held stays held. -/
theorem beside (releases : heap.Releases heap' held held') (others : Multiset Nat) :
    heap.Releases heap' (held + others) (held' + others) := by
  obtain ⟨items, split, released⟩ := releases
  exact ⟨items, by rw [split, add_assoc], released⟩

theorem congr {kept kept' : Multiset Nat} (releases : heap.Releases heap' held held')
    (same : kept = held) (same' : kept' = held') : heap.Releases heap' kept kept' := by
  rw [same, same']
  exact releases

/-- Less is held afterwards. -/
theorem le (releases : heap.Releases heap' held held') : held' ≤ held := by
  obtain ⟨items, split, -⟩ := releases
  rw [split]
  exact Multiset.le_add_left ..

theorem removeOutgoing (heap : Heap) (outgoing : OutgoingCommand) :
    heap.Releases (heap.removeOutgoing outgoing) (outgoingPackets [outgoing]) 0 := by
  unfold Heap.removeOutgoing
  cases carried : outgoing.packet with
  | none => exact .of_same rfl (by simp [outgoingPackets, carried])
  | some packet =>
      exact ⟨[packet.address], by simp [outgoingPackets, carried], heap.release_ledger packet⟩

theorem removeIncoming (heap : Heap) (command : IncomingCommand) :
    heap.Releases (heap.removeIncoming command) (incomingPackets {command}) 0 :=
  ⟨[command.packet.address], rfl, heap.release_ledger command.packet⟩

theorem foldl_removeOutgoing (commands : List OutgoingCommand) : ∀ heap : Heap,
    heap.Releases (commands.foldl Heap.removeOutgoing heap) (outgoingPackets commands) 0 := by
  induction commands with
  | nil => intro heap; exact .refl heap 0
  | cons outgoing commands ih =>
      intro heap
      have first := (removeOutgoing heap outgoing).beside (outgoingPackets commands)
      rw [zero_add, ← outgoingPackets_cons] at first
      exact first.trans (ih _)

theorem foldl_removeIncoming (commands : List IncomingCommand) : ∀ heap : Heap,
    heap.Releases (commands.foldl Heap.removeIncoming heap) (incomingPackets ↑commands) 0 := by
  induction commands with
  | nil => intro heap; exact .refl heap 0
  | cons command commands ih =>
      intro heap
      have first := (removeIncoming heap command).beside (incomingPackets ↑commands)
      rw [zero_add, ← incomingPackets_add, Multiset.singleton_add, Multiset.cons_coe] at first
      exact first.trans (ih _)

end Releases

end Heap

theorem Peer.incomingCommands_packets (peer : Peer) :
    incomingPackets ↑peer.incomingCommands =
      ∑ channelID ∈ range peer.channelCount,
        incomingPackets (peer.channels channelID).commands := by
  unfold Peer.incomingCommands
  induction peer.channelCount with
  | zero => rfl
  | succ count ih =>
      rw [List.range_succ, List.flatMap_append, sum_range_succ, ← ih, ← Multiset.coe_add,
        incomingPackets_add]
      simp [Channel.commands]

/-- **Resetting the queues releases every packet of the peer.** -/
theorem Heap.Releases.resetQueues (heap : Heap) (peer : Peer) :
    heap.Releases (heap.resetQueues peer) peer.references 0 := by
  have sent := foldl_removeOutgoing peer.sentReliableCommands heap
  have outgoing := foldl_removeOutgoing peer.outgoingCommands
    (peer.sentReliableCommands.foldl Heap.removeOutgoing heap)
  have reliable := foldl_removeOutgoing peer.outgoingSendReliableCommands
    (peer.outgoingCommands.foldl Heap.removeOutgoing
      (peer.sentReliableCommands.foldl Heap.removeOutgoing heap))
  have all := (sent.beside (outgoingPackets peer.outgoingCommands +
    outgoingPackets peer.outgoingSendReliableCommands + peer.incomingReferences))
  rw [zero_add, add_assoc] at all
  have next := outgoing.beside (outgoingPackets peer.outgoingSendReliableCommands +
    peer.incomingReferences)
  rw [zero_add] at next
  have after := reliable.beside peer.incomingReferences
  rw [zero_add] at after
  have dispatched := (foldl_removeIncoming peer.dispatchedCommands
    (peer.outgoingSendReliableCommands.foldl Heap.removeOutgoing
      (peer.outgoingCommands.foldl Heap.removeOutgoing
        (peer.sentReliableCommands.foldl Heap.removeOutgoing heap)))).beside
    (incomingPackets ↑peer.incomingCommands)
  rw [zero_add, peer.incomingCommands_packets] at dispatched
  have waiting := foldl_removeIncoming peer.incomingCommands
    (peer.dispatchedCommands.foldl Heap.removeIncoming
      (peer.outgoingSendReliableCommands.foldl Heap.removeOutgoing
        (peer.outgoingCommands.foldl Heap.removeOutgoing
          (peer.sentReliableCommands.foldl Heap.removeOutgoing heap))))
  rw [peer.incomingCommands_packets] at waiting
  refine ((((all.trans next).trans after).trans dispatched).trans waiting).congr ?_ rfl
  unfold Peer.references Peer.outgoingReferences
  abel

end Enet
