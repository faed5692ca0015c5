import Mathlib.Algebra.Order.Group.Multiset

/-!
# Blocks of memory

An arena hands out addresses in ascending order and lists those that were given
back. Its blocks are held or given back: what handles them makes new blocks, and
gives back blocks that were held.

Where every block is held once or was given back once, this stays so. Then no
block is given back twice, and none is held that was given back.
-/

set_option autoImplicit false

namespace Enet.Library

universe u

/-- The next address that is handed out, and the addresses given back. -/
structure Arena (α : Type u) where
  next : α
  freed : List α

namespace Arena

variable {α : Type u}

/-- Give an address back. -/
def give (arena : Arena α) (address : α) : Arena α :=
  { arena with freed := address :: arena.freed }

@[simp] theorem give_next (arena : Arena α) (address : α) :
    (arena.give address).next = arena.next := rfl

@[simp] theorem give_freed (arena : Arena α) (address : α) :
    (arena.give address).freed = address :: arena.freed := rfl

theorem foldl_give_next (addresses : List α) : ∀ arena : Arena α,
    (addresses.foldl give arena).next = arena.next := by
  induction addresses with
  | nil => intro arena; rfl
  | cons address addresses ih => intro arena; exact ih _

variable [LinearOrder α]

/-- Every block was handed out, and is held once or was given back once. -/
structure Sound (arena : Arena α) (held : Multiset α) : Prop where
  once : (held + ↑arena.freed).Nodup
  known : ∀ address ∈ held + ↑arena.freed, address < arena.next

/-- Blocks that are handled: some are new, and what is not held any more was given
back. -/
structure Handles (arena arena' : Arena α) (held held' : Multiset α) : Prop where
  grows : arena.next ≤ arena'.next
  returned : (↑arena.freed : Multiset α) ≤ ↑arena'.freed
  conserved : ∃ made : Multiset α, made.Nodup ∧
    (∀ address ∈ made, arena.next ≤ address ∧ address < arena'.next) ∧
      held' + ↑arena'.freed = made + (held + ↑arena.freed)

namespace Sound

variable {arena : Arena α} {held held' : Multiset α} {address : α}

/-- Fewer holders hold fewer blocks. -/
theorem mono (sound : arena.Sound held) (fewer : held' ≤ held) : arena.Sound held' :=
  ⟨Multiset.nodup_of_le (add_le_add_left fewer _) sound.once, fun address member =>
    sound.known address (Multiset.mem_of_le (add_le_add_left fewer _) member)⟩

theorem alive (sound : arena.Sound held) (member : address ∈ held) : address ∉ arena.freed :=
  fun freed => Multiset.disjoint_left.mp (Multiset.nodup_add.mp sound.once).2.2 member
    (Multiset.mem_coe.mpr freed)

theorem freed_nodup (sound : arena.Sound held) : arena.freed.Nodup :=
  Multiset.coe_nodup.mp (Multiset.nodup_add.mp sound.once).2.1

theorem held_nodup (sound : arena.Sound held) : held.Nodup :=
  (Multiset.nodup_add.mp sound.once).1

theorem disjoint {others : Multiset α} (sound : arena.Sound (held + others)) :
    Disjoint held others :=
  (Multiset.nodup_add.mp sound.held_nodup).2.2

end Sound

namespace Handles

variable {arena arena' arena'' : Arena α} {held held' held'' : Multiset α}

/-- Nothing is made or given back. -/
theorem of_same (grows : arena.next ≤ arena'.next) (freed : arena'.freed = arena.freed)
    (same : held' = held) : arena.Handles arena' held held' :=
  ⟨grows, by rw [freed], 0, Multiset.nodup_zero, fun _ member => absurd member
    (Multiset.notMem_zero _), by rw [freed, same, zero_add]⟩

theorem refl (arena : Arena α) (held : Multiset α) : arena.Handles arena held held :=
  of_same le_rfl rfl rfl

theorem trans (first : arena.Handles arena' held held')
    (second : arena'.Handles arena'' held' held'') : arena.Handles arena'' held held'' := by
  obtain ⟨made, once, new, split⟩ := first.conserved
  obtain ⟨more, once', new', split'⟩ := second.conserved
  refine ⟨first.grows.trans second.grows, first.returned.trans second.returned, more + made,
    ?_, fun address member => ?_, ?_⟩
  · refine Multiset.nodup_add.mpr ⟨once', once, Multiset.disjoint_left.mpr ?_⟩
    intro address late early
    exact absurd (new address early).2 ((new' address late).1.not_gt)
  · rcases Multiset.mem_add.mp member with late | early
    · exact ⟨first.grows.trans (new' address late).1, (new' address late).2⟩
    · exact ⟨(new address early).1, (new address early).2.trans_le second.grows⟩
  · rw [split', split, add_assoc]

/-- What else is held stays held. -/
theorem beside (handles : arena.Handles arena' held held') (others : Multiset α) :
    arena.Handles arena' (held + others) (held' + others) := by
  obtain ⟨made, once, new, split⟩ := handles.conserved
  refine ⟨handles.grows, handles.returned, made, once, new, ?_⟩
  rw [add_right_comm, split, add_right_comm held, add_assoc]

theorem congr {kept kept' : Multiset α} (handles : arena.Handles arena' held held')
    (same : kept = held) (same' : kept' = held') : arena.Handles arena' kept kept' := by
  rw [same, same']
  exact handles

/-- A new block. -/
theorem make {address : α} (new : arena.next ≤ address) (below : address < arena'.next)
    (freed : arena'.freed = arena.freed) : arena.Handles arena' 0 {address} := by
  refine ⟨new.trans below.le, by rw [freed], {address}, Multiset.nodup_singleton _, ?_, ?_⟩
  · intro other member
    rw [Multiset.mem_singleton.mp member]
    exact ⟨new, below⟩
  · rw [freed, zero_add]

/-- A block that is given back. -/
theorem give (arena : Arena α) (address : α) :
    arena.Handles (arena.give address) {address} 0 := by
  refine ⟨le_rfl, ?_, 0, Multiset.nodup_zero, fun _ member => absurd member
    (Multiset.notMem_zero _), ?_⟩
  · rw [give_freed, ← Multiset.cons_coe]
    exact Multiset.le_cons_self _ _
  · rw [give_freed, ← Multiset.cons_coe, zero_add, zero_add, Multiset.singleton_add]

/-- Blocks given back one after the other. -/
theorem gives (addresses : List α) : ∀ arena : Arena α,
    arena.Handles (addresses.foldl Arena.give arena) ↑addresses 0 := by
  induction addresses with
  | nil => intro arena; exact refl arena 0
  | cons address addresses ih =>
      intro arena
      have first := (give arena address).beside ↑addresses
      rw [zero_add, Multiset.singleton_add, Multiset.cons_coe] at first
      exact first.trans (ih _)

/-- **Blocks that are handled stay sound.** -/
theorem sound (handles : arena.Handles arena' held held') (sound : arena.Sound held) :
    arena'.Sound held' := by
  obtain ⟨made, once, new, split⟩ := handles.conserved
  refine ⟨?_, fun address member => ?_⟩
  · rw [split]
    refine Multiset.nodup_add.mpr ⟨once, sound.once, Multiset.disjoint_left.mpr ?_⟩
    intro address late early
    exact absurd (sound.known address early) ((new address late).1.not_gt)
  · rw [split] at member
    rcases Multiset.mem_add.mp member with late | early
    · exact (new address late).2
    · exact (sound.known address early).trans_le handles.grows

/-- **No block is lost**: it is held, or was given back. -/
theorem kept (handles : arena.Handles arena' held held') :
    held + ↑arena.freed ≤ held' + ↑arena'.freed := by
  obtain ⟨made, -, -, split⟩ := handles.conserved
  rw [split]
  exact Multiset.le_add_left ..

/-- Where no address was handed out, what is not held any more is what was given back. -/
theorem settled (handles : arena.Handles arena' held held') (none : arena'.next = arena.next) :
    held' + ↑arena'.freed = held + ↑arena.freed := by
  obtain ⟨made, -, new, split⟩ := handles.conserved
  have empty : made = 0 := Multiset.eq_zero_of_forall_notMem fun address member => by
    obtain ⟨since, below⟩ := new address member
    rw [none] at below
    exact absurd below since.not_gt
  rw [split, empty, zero_add]

end Handles

end Arena

end Enet.Library
