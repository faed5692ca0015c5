import Mathlib.Algebra.BigOperators.Group.Finset.Basic
import Mathlib.Algebra.Order.BigOperators.Group.Finset
import Mathlib.Algebra.BigOperators.Ring.Finset

/-!
# Filling up a budget

Claimants with weights share a budget at a common rate, in units of a scale. A
rate fits when all of them together stay within the budget. A claimant that is
content with less than the rate gives it may be paid and leaves: the rate still
fits what is left. The fair rate for a total that covers the weights fits.
-/

set_option autoImplicit false

namespace Enet.Library

open Finset

variable {ι : Type*} {weight : ι → ℕ} {scale rate budget : ℕ} {claimants : Finset ι}

/-- All claimants can be served at a rate. -/
def Fits (weight : ι → ℕ) (scale : ℕ) (claimants : Finset ι) (rate budget : ℕ) : Prop :=
  rate * ∑ claimant ∈ claimants, weight claimant ≤ scale * budget

/-- The largest rate, up to the scale, for a total of the weights. -/
def fairRate (scale total budget : ℕ) : ℕ :=
  if total ≤ budget then scale else budget * scale / total

theorem fairRate_le (scale total budget : ℕ) : fairRate scale total budget ≤ scale := by
  unfold fairRate
  split
  · exact le_rfl
  · refine Nat.div_le_of_le_mul ?_
    exact Nat.mul_le_mul_right scale (by omega)

/-- The fair rate fits whatever the total covers. -/
theorem fits_fairRate {total : ℕ} (covered : ∑ claimant ∈ claimants, weight claimant ≤ total) :
    Fits weight scale claimants (fairRate scale total budget) budget := by
  unfold Fits fairRate
  split
  next enough => exact Nat.mul_le_mul_left scale (covered.trans enough)
  · calc budget * scale / total * ∑ claimant ∈ claimants, weight claimant
        ≤ budget * scale / total * total := Nat.mul_le_mul_left _ covered
      _ ≤ budget * scale := Nat.div_mul_le_self _ _
      _ = scale * budget := Nat.mul_comm _ _

namespace Fits

variable {claimant : ι} {part : ℕ}

/-- What one claimant gets at the rate is within the budget. -/
theorem share_le (fits : Fits weight scale claimants rate budget) (member : claimant ∈ claimants) :
    rate * weight claimant ≤ scale * budget :=
  (Nat.mul_le_mul_left rate (single_le_sum (fun _ _ => Nat.zero_le _) member)).trans fits

/-- A claimant content with less than its share can be paid. -/
theorem part_le (fits : Fits weight scale claimants rate budget) (member : claimant ∈ claimants)
    (content : scale * part < rate * weight claimant) : part ≤ budget := by
  have within : scale * part < scale * budget := content.trans_le (fits.share_le member)
  exact Nat.le_of_lt (Nat.lt_of_mul_lt_mul_left within)

/-- **The rate still fits once a claimant content with less is paid.** -/
theorem erase [DecidableEq ι] (fits : Fits weight scale claimants rate budget)
    (member : claimant ∈ claimants)
    (content : scale * part < rate * weight claimant) :
    Fits weight scale (claimants.erase claimant) rate (budget - part) := by
  have paid := fits.part_le member content
  have split := sum_erase_add claimants weight member
  unfold Fits at fits ⊢
  rw [← split, Nat.mul_add] at fits
  rw [Nat.mul_sub]
  have covered : scale * part ≤ scale * budget := Nat.mul_le_mul_left scale paid
  omega

end Fits

end Enet.Library
