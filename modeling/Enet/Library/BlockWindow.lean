import Mathlib.Data.List.Nodup

/-!
# A window of one block

A receiver tells copies of numbered messages apart by one mark for each number of
the current block of numbers. It drops a number of an earlier block; a number of a
later block moves the window there and clears the marks. Whatever the order of
arrival, nothing is taken twice, and what is dropped though its block has not
passed has been taken before.
-/

set_option autoImplicit false

namespace Enet.Library

/-- The current block, and the places in it that are marked. -/
structure BlockWindow where
  block : ℕ
  marked : ℕ → Bool

namespace BlockWindow

variable {size number : ℕ} {window : BlockWindow} {arrived taken : List ℕ}

/-- The window before anything has arrived. -/
def start : BlockWindow := ⟨0, fun _ => false⟩

/-- An arrival that is dropped. -/
def Drops (size : ℕ) (window : BlockWindow) (number : ℕ) : Prop :=
  number / size < window.block ∨
    number / size = window.block ∧ window.marked (number % size) = true

/-- The window at the block of a number. -/
def move (size : ℕ) (window : BlockWindow) (number : ℕ) : BlockWindow :=
  if number / size = window.block then window else ⟨number / size, fun _ => false⟩

/-- The window once a number has been taken. -/
def mark (size : ℕ) (window : BlockWindow) (number : ℕ) : BlockWindow :=
  ⟨number / size, Function.update (window.move size number).marked (number % size) true⟩

theorem move_block (size : ℕ) (window : BlockWindow) (number : ℕ) :
    (window.move size number).block = number / size := by
  unfold move
  split
  next same => exact same.symm
  · rfl

/-- The windows of all orders of arrival, with the numbers that have been taken. What is
not dropped may still be refused. -/
inductive Run (size : ℕ) : BlockWindow → (taken : List ℕ) → Prop
  | start : Run size start []
  | refuses {window : BlockWindow} {taken : List ℕ} (number : ℕ) (run : Run size window taken)
      (new : ¬ window.Drops size number) : Run size (window.move size number) taken
  | takes {window : BlockWindow} {taken : List ℕ} (number : ℕ) (run : Run size window taken)
      (new : ¬ window.Drops size number) :
      Run size (window.mark size number) (number :: taken)

/-- **The invariant**: what has been taken is behind the window or marked, and what is
marked has been taken. -/
structure Sound (size : ℕ) (window : BlockWindow) (taken : List ℕ) : Prop where
  distinct : taken.Nodup
  behind : ∀ number ∈ taken, window.Drops size number
  marked : ∀ place < size, window.marked place = true → size * window.block + place ∈ taken

theorem sound_start (size : ℕ) : Sound size start [] :=
  ⟨List.nodup_nil, fun _ none => (List.not_mem_nil none).elim, fun _ _ none => nomatch none⟩

/-- What the window drops, it drops once it has moved on. -/
theorem Drops.move {other : ℕ} (drops : window.Drops size other)
    (new : ¬ window.Drops size number) : (window.move size number).Drops size other := by
  unfold BlockWindow.move
  split
  · exact drops
  next later =>
      unfold Drops at drops new
      refine .inl ?_
      dsimp only
      omega

namespace Sound

theorem move (sound : Sound size window taken) (new : ¬ window.Drops size number) :
    Sound size (window.move size number) taken := by
  refine ⟨sound.distinct, fun other member => (sound.behind other member).move new, ?_⟩
  unfold BlockWindow.move
  split
  · exact sound.marked
  · intro place _ none
    cases none

theorem mark (sound : Sound size window taken)
    (new : ¬ window.Drops size number) :
    Sound size (window.mark size number) (number :: taken) := by
  have moved := sound.move new
  have block := window.move_block size number
  refine ⟨List.nodup_cons.mpr ⟨fun member => new (sound.behind number member), sound.distinct⟩,
    fun other member => ?_, fun place within marked => ?_⟩
  · rcases List.mem_cons.mp member with rfl | member
    · exact .inr ⟨rfl, Function.update_self ..⟩
    · have drops := moved.behind other member
      unfold Drops BlockWindow.mark at *
      rw [block] at drops
      refine drops.imp_right fun current => ⟨current.1, ?_⟩
      dsimp only
      by_cases same : other % size = number % size
      · rw [same, Function.update_self]
      · rw [Function.update_of_ne same]
        exact current.2
  · unfold BlockWindow.mark at marked ⊢
    dsimp only at marked ⊢
    by_cases same : place = number % size
    · rw [same, Nat.div_add_mod]
      exact List.mem_cons_self
    · rw [Function.update_of_ne same] at marked
      have member := moved.marked place within marked
      rw [block] at member
      exact List.mem_cons_of_mem number member

/-- What is dropped though its block has not passed has been taken. -/
theorem mem_of_drops (positive : 0 < size) (sound : Sound size window taken)
    (drops : window.Drops size number) (current : window.block ≤ number / size) :
    number ∈ taken := by
  rcases drops with behind | ⟨same, marked⟩
  · omega
  · have member := sound.marked (number % size) (Nat.mod_lt number positive) marked
    rwa [← same, Nat.div_add_mod] at member

end Sound

/-- **Every run keeps the invariant.** -/
theorem Run.sound (run : Run size window taken) : Sound size window taken := by
  induction run with
  | start => exact sound_start size
  | refuses number run new ih => exact ih.move new
  | takes number run new ih => exact ih.mark new

end BlockWindow

end Enet.Library
