import Enet.Runs.Contained
import Enet.Runs.Released

/-!
# The books of a call

From the state in which a call begins, the counts of references, the packets
destroyed and the references held are books that the call moves. The packets
that it makes for received commands have addresses that were not allocated
before; each of these is referred to once, until the application has it.
-/

set_option autoImplicit false

namespace Enet

open Library Finset

/-! ## Books -/

/-- `enet_peer_queue_incoming_command` makes the packet with this address, after some calls
of the allocator, and then either queues it or finds no memory for the rest. -/
inductive Heap.MakesPacket (begun : Heap) : (queues : Bool) → (address : Nat) → Prop where
  | made {heap : Heap} {packet : Packet} {queued : Heap × Option IncomingCommand}
      (command : Protocol) (data : Option (List UInt8)) (dataLength : Nat) (flags : PacketFlags)
      (fragmentCount : Nat) (grows : begun.Grows heap)
      (few : fragmentCount ≤ protocolMaximumFragmentCount)
      (created : (heap.createPacket data dataLength flags).2 = some packet)
      (allocated : Host.allocateIncoming heap command data dataLength flags fragmentCount =
        queued) :
      MakesPacket begun queued.2.isSome packet.address

/-- The books that a call has moved, which began with this memory. -/
structure Booked (rules : Ledger.Rules Nat) (start : Ledger.Books Nat) (begun : Heap) (heap : Heap)
    (held received : Multiset Nat) : Prop where
  moves : Ledger.Moves rules start (heap.ledger, held)
  balanced : heap.ledger.Balanced held
  since : begun.Grows heap
  known : ∀ address ∈ held, address < heap.nextAddress
  destroyed : ∀ address ∈ heap.destroyed, address < heap.nextAddress
  single : ∀ address ∈ received, held.count address = 1
  given : ∀ address, rules.hands address →
    address < heap.nextAddress ∧ address ∉ held ∧ address ∉ heap.destroyed

namespace Booked

variable {rules : Ledger.Rules Nat} {start : Ledger.Books Nat} {begun heap heap' : Heap}
  {held held' received received' : Multiset Nat}

/-- The books after moves that take nothing new. -/
theorem moved (booked : Booked rules start begun heap held received)
    (moves : Ledger.Moves rules (heap.ledger, held) (heap'.ledger, held'))
    (grows : heap.Grows heap')
    (known : ∀ address ∈ held', address < heap'.nextAddress)
    (destroyed : ∀ address ∈ heap'.destroyed, address < heap'.nextAddress)
    (single : ∀ address ∈ received', held'.count address = 1)
    (given : ∀ address, rules.hands address → address ∉ held' ∧ address ∉ heap'.destroyed) :
    Booked rules start begun heap' held' received' :=
  ⟨booked.moves.trans moves, moves.balanced booked.balanced, booked.since.trans grows, known,
    destroyed, single, fun address handed =>
      ⟨Nat.lt_of_lt_of_le (booked.given address handed).1 grows.nextAddress,
        given address handed⟩⟩

/-- **References given up.** -/
theorem releases (booked : Booked rules start begun heap held received)
    (releases : heap.Releases heap' held held') (grows : heap.Grows heap')
    (fewer : received' ≤ received) (within : received' ≤ held') :
    Booked rules start begun heap' held' received' := by
  have less := releases.le
  obtain ⟨items, split, released⟩ := releases
  have moves : ∀ rules : Ledger.Rules Nat,
      Ledger.Moves rules (heap.ledger, held) (heap'.ledger, held') := by
    intro rules
    rw [released, split]
    exact Ledger.Moves.releases rules items heap.ledger held'
  have were : ∀ address ∈ heap'.destroyed, address ∈ heap.destroyed ∨ address ∈ held := by
    intro address member
    rcases (moves ⟨fun _ => False, fun _ => False, fun _ => False⟩).destroyed member with
      old | old | absurd | absurd
    · exact .inl old
    · exact .inr old
    · exact absurd.elim
    · exact absurd.elim
  refine booked.moved (moves rules) grows ?_ ?_ ?_ ?_
  · intro address member
    exact Nat.lt_of_lt_of_le (booked.known address (Multiset.mem_of_le less member))
      grows.nextAddress
  · intro address member
    refine Nat.lt_of_lt_of_le ?_ grows.nextAddress
    rcases were address member with old | old
    · exact booked.destroyed address old
    · exact booked.known address old
  · intro address member
    have once := booked.single address (Multiset.mem_of_le fewer member)
    have bound := Multiset.count_le_of_le address less
    have positive := Multiset.count_pos.mpr (Multiset.mem_of_le within member)
    omega
  · intro address handed
    obtain ⟨-, unheld, alive⟩ := booked.given address handed
    exact ⟨fun member => unheld (Multiset.mem_of_le less member),
      fun gone => (were address gone).elim alive unheld⟩

/-- Nothing is released. -/
theorem same (booked : Booked rules start begun heap held received)
    (ledger : heap'.ledger = heap.ledger) (grows : heap.Grows heap')
    (held_eq : held' = held) (received_eq : received' = received) (within : received ≤ held) :
    Booked rules start begun heap' held' received' := by
  rw [held_eq, received_eq]
  exact booked.releases (.of_same ledger rfl) grows le_rfl within

/-- **A packet made for a received command.** -/
theorem make (booked : Booked rules start begun heap held received) {address : Nat}
    (may : rules.acquires address) (grows : heap.Grows heap')
    (new : heap.nextAddress ≤ address) (below : address < heap'.nextAddress)
    (ledger : heap'.ledger = heap.ledger.acquire address) :
    Booked rules start begun heap' (address ::ₘ held) (address ::ₘ received) := by
  have unheld : address ∉ held := fun member => by
    have known := booked.known address member
    omega
  have alive : address ∉ heap.ledger.destroyed := fun member => by
    have known := booked.destroyed address member
    omega
  have kept : heap'.destroyed = heap.destroyed := congrArg Ledger.destroyed ledger
  refine booked.moved ?_ grows ?_ ?_ ?_ ?_
  · rw [ledger]
    exact .single (.acquire _ _ _ may alive)
  · intro other member
    rcases Multiset.mem_cons.mp member with same | member
    · omega
    · have known := booked.known other member
      omega
  · intro other member
    rw [kept] at member
    have known := booked.destroyed other member
    omega
  · intro other member
    rcases Multiset.mem_cons.mp member with same | member
    · rw [same, Multiset.count_cons_self, Multiset.count_eq_zero.mpr unheld]
    · have once := booked.single other member
      have different : other ≠ address := by
        rintro rfl
        rw [Multiset.count_eq_zero.mpr unheld] at once
        cases once
      rw [Multiset.count_cons_of_ne different]
      exact once
  · intro other handed
    obtain ⟨old, unheld, uncalled⟩ := booked.given other handed
    refine ⟨fun member => ?_, by rw [kept]; exact uncalled⟩
    rcases Multiset.mem_cons.mp member with same | member
    · omega
    · exact unheld member

/-- A packet made and destroyed again. -/
theorem unmake (booked : Booked rules start begun heap held received) {address : Nat}
    (may : rules.discards address) (grows : heap.Grows heap')
    (new : heap.nextAddress ≤ address) (below : address < heap'.nextAddress)
    (ledger : heap'.ledger = heap.ledger.destroy address) :
    Booked rules start begun heap' held received := by
  have unheld : address ∉ held := fun member => by
    have known := booked.known address member
    omega
  have alive : address ∉ heap.ledger.destroyed := fun member => by
    have known := booked.destroyed address member
    omega
  have gone : heap'.destroyed = address :: heap.destroyed := congrArg Ledger.destroyed ledger
  refine booked.moved ?_ grows ?_ ?_ booked.single ?_
  · rw [ledger]
    exact .single (.discard _ _ _ may alive unheld)
  · intro other member
    have known := booked.known other member
    omega
  · intro other member
    rw [gone] at member
    rcases List.mem_cons.mp member with same | member
    · omega
    · have known := booked.destroyed other member
      omega
  · intro other handed
    obtain ⟨old, unheld, uncalled⟩ := booked.given other handed
    refine ⟨unheld, fun member => ?_⟩
    rw [gone] at member
    rcases List.mem_cons.mp member with same | member
    · omega
    · exact uncalled member

/-- **References taken to a packet of the application**, by as many commands. -/
theorem take {β : Type} (booked : Booked rules start begun heap held received) {address : Nat}
    (may : rules.acquires address) (allocated : address < heap.nextAddress)
    (alive : address ∉ heap.destroyed) (own : address ∉ received)
    (ungiven : ¬rules.hands address) (holders : List β) (grows : heap.Grows heap')
    (ledger : heap'.ledger =
      holders.foldl (fun ledger _ => ledger.acquire address) heap.ledger) :
    Booked rules start begun heap' (Multiset.replicate holders.length address + held)
      received := by
  have moves := Ledger.Moves.acquires may holders heap.ledger held alive
  rw [← ledger] at moves
  have kept : heap'.destroyed = heap.destroyed :=
    (congrArg Ledger.destroyed ledger).trans (Ledger.foldl_acquire_destroyed address holders _)
  refine booked.moved moves grows ?_ ?_ ?_ ?_
  · intro other member
    rcases Multiset.mem_add.mp member with taken | member
    · rw [Multiset.eq_of_mem_replicate taken]
      exact Nat.lt_of_lt_of_le allocated grows.nextAddress
    · exact Nat.lt_of_lt_of_le (booked.known other member) grows.nextAddress
  · intro other member
    rw [kept] at member
    exact Nat.lt_of_lt_of_le (booked.destroyed other member) grows.nextAddress
  · intro other member
    have different : other ≠ address := fun same => own (same ▸ member)
    rw [Multiset.count_add, booked.single other member,
      Multiset.count_eq_zero.mpr fun taken => different (Multiset.eq_of_mem_replicate taken)]
  · intro other handed
    obtain ⟨-, unheld, uncalled⟩ := booked.given other handed
    refine ⟨fun member => ?_, by rw [kept]; exact uncalled⟩
    rcases Multiset.mem_add.mp member with taken | member
    · rw [Multiset.eq_of_mem_replicate taken] at handed
      exact ungiven handed
    · exact unheld member

/-- A packet of the application destroyed while nobody refers to it. -/
theorem discard (booked : Booked rules start begun heap held received) {address : Nat}
    (may : rules.discards address) (allocated : address < heap.nextAddress)
    (alive : address ∉ heap.destroyed) (unheld : address ∉ held) (ungiven : ¬rules.hands address)
    (grows : heap.Grows heap') (ledger : heap'.ledger = heap.ledger.destroy address) :
    Booked rules start begun heap' held received := by
  have gone : heap'.destroyed = address :: heap.destroyed := congrArg Ledger.destroyed ledger
  refine booked.moved ?_ grows ?_ ?_ booked.single ?_
  · rw [ledger]
    exact .single (.discard _ _ _ may alive unheld)
  · exact fun other member => Nat.lt_of_lt_of_le (booked.known other member) grows.nextAddress
  · intro other member
    rw [gone] at member
    refine Nat.lt_of_lt_of_le ?_ grows.nextAddress
    rcases List.mem_cons.mp member with equal | member
    · rw [equal]
      exact allocated
    · exact booked.destroyed other member
  · intro other handed
    obtain ⟨-, unheld, uncalled⟩ := booked.given other handed
    refine ⟨unheld, fun member => ?_⟩
    rw [gone] at member
    rcases List.mem_cons.mp member with equal | member
    · exact ungiven (equal ▸ handed)
    · exact uncalled member

/-- **A packet handed to the application**, with the last reference to it: the first
packet that these books hand over. -/
theorem handOver {address : Nat} {rules' : Ledger.Rules Nat}
    (booked : Booked rules start begun heap (address ::ₘ held) (address ::ₘ received))
    (none : ∀ other, ¬rules.hands other) (hands : ∀ other, rules'.hands other ↔ other = address)
    (acquires : rules'.acquires = rules.acquires) (discards : rules'.discards = rules.discards)
    (grows : heap.Grows heap') (ledger : heap'.ledger = heap.ledger.drop address)
    (within : received ≤ held) : Booked rules' start begun heap' held received := by
  have last : address ∉ held := by
    have once := booked.single address (Multiset.mem_cons_self ..)
    rw [Multiset.count_cons_self] at once
    exact Multiset.count_eq_zero.mp (by omega)
  have moves : Ledger.Moves rules' start (heap'.ledger, held) := by
    have before : Ledger.Moves rules' start _ := booked.moves.mono (fun other may => acquires ▸ may)
      (fun other handed => absurd handed (none other)) (fun other may => discards ▸ may)
    rw [ledger]
    exact before.tail (.handOver _ _ _ ((hands address).mpr rfl) last)
  have kept : heap'.destroyed = heap.destroyed := congrArg Ledger.destroyed ledger
  refine ⟨moves, ?_, booked.since.trans grows, ?_, ?_, ?_, ?_⟩
  · rw [ledger]
    exact booked.balanced.drop
  · exact fun other member => Nat.lt_of_lt_of_le
      (booked.known other (Multiset.mem_cons_of_mem member)) grows.nextAddress
  · intro other member
    rw [kept] at member
    exact Nat.lt_of_lt_of_le (booked.destroyed other member) grows.nextAddress
  · intro other member
    have once := booked.single other (Multiset.mem_cons_of_mem member)
    have different : other ≠ address := fun same => last (same ▸ Multiset.mem_of_le within member)
    rwa [Multiset.count_cons_of_ne different] at once
  · intro other handed
    rw [(hands other).mp handed, kept]
    exact ⟨Nat.lt_of_lt_of_le (booked.known address (Multiset.mem_cons_self ..)) grows.nextAddress,
      last, booked.balanced.alive⟩

end Booked

end Enet
