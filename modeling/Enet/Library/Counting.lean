import Mathlib.Algebra.BigOperators.Group.Finset.Piecewise
import Mathlib.Algebra.Order.BigOperators.Group.Finset

/-!
# Sums over slots

A table of slots is summed up slot by slot. Where two tables differ in one slot,
their sums differ by what that slot holds.
-/

set_option autoImplicit false

namespace Enet.Library

open Finset

variable {f g : ℕ → ℕ} {index count : ℕ}

/-- Two tables that differ in one slot. -/
theorem sum_range_swap (same : ∀ other, other ≠ index → g other = f other)
    (within : index < count) :
    ∑ slot ∈ range count, g slot + f index = ∑ slot ∈ range count, f slot + g index := by
  have member : index ∈ range count := mem_range.mpr within
  have others : ∑ slot ∈ (range count).erase index, g slot =
      ∑ slot ∈ (range count).erase index, f slot :=
    sum_congr rfl fun other erased => same other (mem_erase.mp erased).1
  rw [← add_sum_erase _ g member, ← add_sum_erase _ f member, others]
  omega

/-- A slot holds no more than the table. -/
theorem le_sum_range (within : index < count) : f index ≤ ∑ slot ∈ range count, f slot :=
  single_le_sum (fun _ _ => Nat.zero_le _) (mem_range.mpr within)

/-- The slots that pass a test, counted one by one. -/
theorem card_filter_range (test : ℕ → Bool) :
    #{slot ∈ range count | test slot} = ∑ slot ∈ range count, (test slot).toNat := by
  rw [card_filter]
  exact sum_congr rfl fun slot _ => by cases test slot <;> rfl

/-- Fewer numbers than there are below a bound leave one out. -/
theorem card_lt_iff_exists_notMem {numbers : Finset ℕ} (within : numbers ⊆ range count) :
    numbers.card < count ↔ ∃ number < count, number ∉ numbers := by
  constructor
  · intro fewer
    by_contra all
    push Not at all
    have covered : range count ⊆ numbers := fun number inside => all number (mem_range.mp inside)
    have bound := card_le_card covered
    rw [card_range] at bound
    omega
  · rintro ⟨number, inside, absent⟩
    have smaller := card_lt_card ⟨within, fun covers => absent (covers (mem_range.mpr inside))⟩
    rwa [card_range] at smaller

end Enet.Library
