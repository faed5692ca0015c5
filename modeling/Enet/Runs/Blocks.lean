import Enet.Library.Arena
import Enet.Runs.Carrying
import Enet.Runs.Memory
import Enet.Runs.Ownership

/-!
# The memory of commands

A command is a block of memory of its own, from the allocation that makes it to
the function that frees it. Outgoing commands are in the three queues of a peer,
received ones in its dispatched commands and in its channels; while a datagram is
filled, the unreliable commands that it carries are held until it is sent.
-/

set_option autoImplicit false

namespace Enet

open Library Finset

/-! ## Commands -/

/-- The addresses of outgoing commands. -/
def outgoingBlocks (commands : List OutgoingCommand) : Multiset Nat :=
  ↑(commands.map OutgoingCommand.address)

/-- The addresses of received commands. -/
def incomingBlocks (commands : Multiset IncomingCommand) : Multiset Nat :=
  commands.map IncomingCommand.address

@[simp] theorem outgoingBlocks_nil : outgoingBlocks [] = 0 := rfl

@[simp] theorem outgoingBlocks_append (commands others : List OutgoingCommand) :
    outgoingBlocks (commands ++ others) = outgoingBlocks commands + outgoingBlocks others := by
  rw [outgoingBlocks, List.map_append, ← Multiset.coe_add]
  rfl

theorem outgoingBlocks_cons (outgoing : OutgoingCommand) (commands : List OutgoingCommand) :
    outgoingBlocks (outgoing :: commands) = {outgoing.address} + outgoingBlocks commands :=
  outgoingBlocks_append [outgoing] commands

/-- The core of a command is at its address. -/
theorem cores_blocks (commands : List OutgoingCommand) :
    (cores commands).map OutgoingCommand.address = outgoingBlocks commands := by
  unfold cores outgoingBlocks
  rw [Multiset.map_coe, List.map_map]
  rfl

@[simp] theorem incomingBlocks_add (commands others : Multiset IncomingCommand) :
    incomingBlocks (commands + others) = incomingBlocks commands + incomingBlocks others :=
  Multiset.map_add ..

/-! ## Peers and hosts -/

namespace Peer

/-- The blocks of the outgoing commands of a peer. -/
def outgoingBlocks (peer : Peer) : Multiset Nat := peer.pending.map OutgoingCommand.address

/-- The blocks of the received commands of a peer. -/
def incomingBlocks (peer : Peer) : Multiset Nat := Enet.incomingBlocks peer.received

/-- The blocks of the commands of a peer. -/
def blocks (peer : Peer) : Multiset Nat := peer.outgoingBlocks + peer.incomingBlocks

variable {peer peer' : Peer}

theorem outgoingBlocks_eq (peer : Peer) : peer.outgoingBlocks =
    Enet.outgoingBlocks peer.outgoingCommands +
      Enet.outgoingBlocks peer.outgoingSendReliableCommands +
        Enet.outgoingBlocks peer.sentReliableCommands := by
  unfold outgoingBlocks pending
  rw [Multiset.map_add, Multiset.map_add, cores_blocks, cores_blocks, cores_blocks]

theorem blocks_congr (pending : peer'.pending = peer.pending)
    (received : peer'.received = peer.received) : peer'.blocks = peer.blocks := by
  rw [blocks, outgoingBlocks, incomingBlocks, pending, received]
  rfl

theorem SendingOnly.incomingBlocks (sending : peer.SendingOnly peer') :
    peer'.incomingBlocks = peer.incomingBlocks :=
  congrArg Enet.incomingBlocks
    (received_congr sending.dispatchedCommands sending.channelCount sending.channels)

theorem Alike.blocks (alike : peer.Alike peer') : peer'.blocks = peer.blocks := by
  unfold Peer.blocks
  rw [(SendingOnly.of_alike alike).incomingBlocks, Peer.outgoingBlocks, alike.pending]
  rfl

/-- Empty channels for empty channels. -/
theorem blocks_of_empty (empty : ∀ channelID, (peer.channels channelID).commands = 0)
    (empty' : ∀ channelID, (peer'.channels channelID).commands = 0)
    (dispatched : peer'.dispatchedCommands = peer.dispatchedCommands)
    (pending : peer'.pending = peer.pending) : peer'.blocks = peer.blocks := by
  refine blocks_congr pending ?_
  unfold received
  rw [sum_eq_zero fun channelID _ => empty channelID,
    sum_eq_zero fun channelID _ => empty' channelID, dispatched]

theorem TakenBy.blocks (takes : peer.TakenBy peer')
    (empty : ∀ channelID, (peer.channels channelID).commands = 0) :
    peer'.blocks = peer.blocks :=
  blocks_of_empty empty (fun channelID => by rw [takes.channels]; rfl) takes.dispatched
    (pending_congr takes.outgoingCommands takes.outgoingSendReliableCommands
      takes.sentReliableCommands)

end Peer

/-- The blocks of the commands of some slots. -/
def Host.blocks (host : Host) (slots : Finset Nat) : Multiset Nat :=
  ∑ index ∈ slots, (host.peers index).blocks

/-! ## The heap -/

/-- The next address, and the addresses freed. -/
def Heap.arena (heap : Heap) : Arena Nat := ⟨heap.nextAddress, heap.freed⟩

namespace Heap

@[simp] theorem arena_next (heap : Heap) : heap.arena.next = heap.nextAddress := rfl

@[simp] theorem arena_freed (heap : Heap) : heap.arena.freed = heap.freed := rfl

@[simp] theorem free_arena (heap : Heap) (address : Nat) :
    (heap.free address).arena = heap.arena.give address := rfl

@[simp] theorem acquire_arena (heap : Heap) (packet : Packet) :
    (heap.acquire packet).arena = heap.arena := rfl

@[simp] theorem destroy_arena (heap : Heap) (packet : Packet) :
    (heap.destroy packet).arena = heap.arena := rfl

@[simp] theorem release_arena (heap : Heap) (packet : Packet) :
    (heap.release packet).arena = heap.arena := by
  unfold release
  dsimp only
  split <;> rfl

@[simp] theorem releaseOption_arena (heap : Heap) (packet : Option Packet) :
    (heap.releaseOption packet).arena = heap.arena := by
  cases packet with
  | none => rfl
  | some packet => exact heap.release_arena packet

@[simp] theorem removeOutgoing_arena (heap : Heap) (outgoing : OutgoingCommand) :
    (heap.removeOutgoing outgoing).arena = heap.arena.give outgoing.address :=
  congrArg (fun arena => Arena.give arena outgoing.address) (heap.releaseOption_arena _)

@[simp] theorem removeIncoming_arena (heap : Heap) (command : IncomingCommand) :
    (heap.removeIncoming command).arena = heap.arena.give command.address :=
  congrArg (fun arena => Arena.give arena command.address) (heap.release_arena _)

theorem foldl_removeOutgoing_arena (commands : List OutgoingCommand) : ∀ heap : Heap,
    (commands.foldl removeOutgoing heap).arena =
      (commands.map OutgoingCommand.address).foldl Arena.give heap.arena := by
  induction commands with
  | nil => intro heap; rfl
  | cons outgoing commands ih =>
      intro heap
      rw [List.foldl_cons, ih, removeOutgoing_arena, List.map_cons, List.foldl_cons]

theorem foldl_removeIncoming_arena (commands : List IncomingCommand) : ∀ heap : Heap,
    (commands.foldl removeIncoming heap).arena =
      (commands.map IncomingCommand.address).foldl Arena.give heap.arena := by
  induction commands with
  | nil => intro heap; rfl
  | cons command commands ih =>
      intro heap
      rw [List.foldl_cons, ih, removeIncoming_arena, List.map_cons, List.foldl_cons]

theorem foldl_acquire_arena (packet : Packet) (commands : List OutgoingCommand) : ∀ heap : Heap,
    (commands.foldl (fun heap _ => heap.acquire packet) heap).arena = heap.arena := by
  induction commands with
  | nil => intro heap; rfl
  | cons outgoing commands ih => intro heap; exact (ih _).trans (heap.acquire_arena packet)

/-- The blocks of commands that are handled. -/
def Handles (heap heap' : Heap) (held held' : Multiset Nat) : Prop :=
  heap.arena.Handles heap'.arena held held'

namespace Handles

variable {heap heap' heap'' : Heap} {held held' held'' : Multiset Nat}

theorem of_same (grows : heap.nextAddress ≤ heap'.nextAddress) (freed : heap'.freed = heap.freed)
    (same : held' = held) : heap.Handles heap' held held' := Arena.Handles.of_same grows freed same

theorem refl (heap : Heap) (held : Multiset Nat) : heap.Handles heap held held :=
  Arena.Handles.refl ..

theorem trans (first : heap.Handles heap' held held')
    (second : heap'.Handles heap'' held' held'') : heap.Handles heap'' held held'' :=
  Arena.Handles.trans first second

theorem beside (handles : heap.Handles heap' held held') (others : Multiset Nat) :
    heap.Handles heap' (held + others) (held' + others) := Arena.Handles.beside handles others

theorem congr {kept kept' : Multiset Nat} (handles : heap.Handles heap' held held')
    (same : kept = held) (same' : kept' = held') : heap.Handles heap' kept kept' :=
  Arena.Handles.congr handles same same'

/-- A new block. -/
theorem malloc {address : Nat} (allocated : heap.malloc = (heap', some address)) :
    heap.Handles heap' 0 {address} := by
  obtain ⟨taken, grown⟩ := malloc_some allocated
  refine Arena.Handles.make (show heap.nextAddress ≤ address from taken.ge)
    (show address < heap'.nextAddress by omega) ?_
  exact congrArg (fun result : Heap × Option Nat => result.1.freed) allocated.symm

/-- An allocation whose block no command holds. -/
theorem malloc_unheld {result : Option Nat} (allocated : heap.malloc = (heap', result))
    (held : Multiset Nat) : heap.Handles heap' held held :=
  of_same (grows_of_malloc allocated).nextAddress
    (congrArg (fun result : Heap × Option Nat => result.1.freed) allocated.symm) rfl

/-- A block that is freed. -/
theorem free (heap : Heap) (address : Nat) : heap.Handles (heap.free address) {address} 0 :=
  Arena.Handles.give heap.arena address

theorem removeOutgoing (heap : Heap) (outgoing : OutgoingCommand) :
    heap.Handles (heap.removeOutgoing outgoing) {outgoing.address} 0 := by
  unfold Handles
  rw [removeOutgoing_arena]
  exact .give ..

theorem foldl_removeOutgoing (commands : List OutgoingCommand) (heap : Heap) :
    heap.Handles (commands.foldl Heap.removeOutgoing heap) (outgoingBlocks commands) 0 := by
  unfold Handles
  rw [foldl_removeOutgoing_arena]
  exact .gives ..

theorem foldl_removeIncoming (commands : List IncomingCommand) (heap : Heap) :
    heap.Handles (commands.foldl Heap.removeIncoming heap) (incomingBlocks ↑commands) 0 := by
  unfold Handles
  rw [foldl_removeIncoming_arena]
  exact .gives ..

/-- **The blocks of a packet that cannot be made are freed.** -/
theorem createPacket (heap : Heap) (data : Option (List UInt8)) (dataLength : Nat)
    (flags : PacketFlags) (held : Multiset Nat) :
    heap.Handles (heap.createPacket data dataLength flags).1 held held := by
  unfold Heap.createPacket
  split
  next allocated => exact malloc_unheld allocated held
  next first address allocated =>
      split
      · exact malloc_unheld allocated held
      · split
        next second allocated' =>
            have frees := (((malloc allocated).trans (malloc_unheld allocated' _)).trans
              (free second address)).beside held
            rwa [zero_add] at frees
        next allocated' =>
            exact (malloc_unheld allocated held).trans (malloc_unheld allocated' held)

/-- **A received command is one block**, which is freed again where its fragments
cannot be tracked. -/
theorem allocateIncoming (heap : Heap) (command : Protocol) (data : Option (List UInt8))
    (dataLength : Nat) (flags : PacketFlags) (fragmentCount : Nat) :
    heap.Handles (Host.allocateIncoming heap command data dataLength flags fragmentCount).1 0
      (incomingBlocks
        ↑(Host.allocateIncoming heap command data dataLength flags fragmentCount).2.toList) := by
  have creates := createPacket heap data dataLength flags 0
  unfold Host.allocateIncoming
  split
  next created => rw [created] at creates; exact creates
  next first packet created =>
      rw [created] at creates
      split
      next allocated => exact creates.trans (malloc_unheld allocated 0)
      next second address allocated =>
          have made := creates.trans (malloc allocated)
          dsimp only
          split
          · exact made
          · split
            · exact made.trans (free second address)
            · split
              next allocated' =>
                  exact (made.trans (malloc_unheld allocated' _)).trans (free _ address)
              next allocated' => exact made.trans (malloc_unheld allocated' _)

end Handles

end Heap

/-- The received commands of the channels in use. -/
theorem Peer.incomingCommands_eq (peer : Peer) :
    (↑peer.incomingCommands : Multiset IncomingCommand) =
      ∑ channelID ∈ range peer.channelCount, (peer.channels channelID).commands := by
  unfold incomingCommands
  induction peer.channelCount with
  | zero => rfl
  | succ count ih =>
      rw [List.range_succ, List.flatMap_append, sum_range_succ, ← ih, ← Multiset.coe_add]
      simp [Channel.commands]

/-- **Resetting the queues frees every command of the peer.** -/
theorem Heap.Handles.resetQueues (heap : Heap) (peer : Peer) :
    heap.Handles (heap.resetQueues peer) peer.blocks 0 := by
  have incoming : peer.incomingBlocks = Enet.incomingBlocks ↑peer.dispatchedCommands +
      Enet.incomingBlocks ↑peer.incomingCommands := by
    unfold Peer.incomingBlocks Peer.received
    rw [incomingBlocks_add, peer.incomingCommands_eq]
  have sent := foldl_removeOutgoing peer.sentReliableCommands heap
  have outgoing := foldl_removeOutgoing peer.outgoingCommands
    (peer.sentReliableCommands.foldl Heap.removeOutgoing heap)
  have reliable := foldl_removeOutgoing peer.outgoingSendReliableCommands
    (peer.outgoingCommands.foldl Heap.removeOutgoing
      (peer.sentReliableCommands.foldl Heap.removeOutgoing heap))
  have dispatched := foldl_removeIncoming peer.dispatchedCommands
    (peer.outgoingSendReliableCommands.foldl Heap.removeOutgoing
      (peer.outgoingCommands.foldl Heap.removeOutgoing
        (peer.sentReliableCommands.foldl Heap.removeOutgoing heap)))
  have waiting := foldl_removeIncoming peer.incomingCommands
    (peer.dispatchedCommands.foldl Heap.removeIncoming
      (peer.outgoingSendReliableCommands.foldl Heap.removeOutgoing
        (peer.outgoingCommands.foldl Heap.removeOutgoing
          (peer.sentReliableCommands.foldl Heap.removeOutgoing heap))))
  -- what the later loops free is held until then
  have first := sent.beside (outgoingBlocks peer.outgoingCommands +
    (outgoingBlocks peer.outgoingSendReliableCommands + peer.incomingBlocks))
  have second := outgoing.beside
    (outgoingBlocks peer.outgoingSendReliableCommands + peer.incomingBlocks)
  have third := reliable.beside peer.incomingBlocks
  have fourth := dispatched.beside (Enet.incomingBlocks ↑peer.incomingCommands)
  rw [zero_add] at first second third fourth
  rw [← incoming] at fourth
  refine ((((first.trans second).trans third).trans fourth).trans waiting).congr ?_ rfl
  rw [Peer.blocks, peer.outgoingBlocks_eq]
  abel

end Enet
