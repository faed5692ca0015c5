import Mathlib.Algebra.Order.Ring.Nat

/-!
# Shares of a range

A range is divided into as many units as a total has, and a share takes some of
them. A place lies in a share if and only if its unit does, so the unit of a
place tells which share it lies in.
-/

set_option autoImplicit false

namespace Enet.Library

/-- A share of a total: `count` units behind `under` others. -/
structure Share where
  under : Nat
  count : Nat
  total : Nat
  deriving DecidableEq, Repr

namespace Share

/-- A share is not empty and lies within its total. -/
structure Proper (share : Share) : Prop where
  positive : 0 < share.count
  within : share.under + share.count ≤ share.total

/-- The share that a unit lies in. -/
def Has (share : Share) (unit : Nat) : Prop :=
  share.under ≤ unit ∧ unit < share.under + share.count

variable {share : Share}

/-- **A place lies in a share if and only if its unit does.** -/
theorem has_div_iff {size place : Nat} (positive : 0 < size) :
    share.Has (place / size) ↔
      share.under * size ≤ place ∧ place < share.under * size + size * share.count := by
  unfold Has
  rw [Nat.le_div_iff_mul_le positive, Nat.div_lt_iff_lt_mul positive, Nat.add_mul,
    Nat.mul_comm share.count]

/-- The units of a total fit into the range. -/
theorem Proper.fits (proper : share.Proper) (range : Nat) :
    share.under * (range / share.total) + range / share.total * share.count ≤ range := by
  calc share.under * (range / share.total) + range / share.total * share.count
      = (share.under + share.count) * (range / share.total) := by
        rw [Nat.add_mul, Nat.mul_comm share.count]
    _ ≤ share.total * (range / share.total) := Nat.mul_le_mul_right _ proper.within
    _ ≤ range := Nat.mul_div_le _ _

end Share

end Enet.Library
