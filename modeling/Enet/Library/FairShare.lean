import Mathlib.Algebra.BigOperators.Group.Finset.Basic
import Mathlib.Algebra.Order.BigOperators.Group.Finset
import Mathlib.Order.Bounds.Basic

/-!
# Fair shares

Members share a capacity. Some of them, the claimants, ask for no more than a
demand. Those whose demand is below a level are given what they ask for, and what
is left is divided among the others; the level rises to that share until it
rises no more. It ends at the least level that is as high as its share.
-/

set_option autoImplicit false

namespace Enet.Library

open Finset

variable {ι : Type*} {demand : ι → ℕ} {claimants settled more : Finset ι}
  {members capacity level : ℕ}

/-! ## Shares -/

/-- The claimants whose demand is below a level. -/
def below (demand : ι → ℕ) (claimants : Finset ι) (level : ℕ) : Finset ι :=
  {claimant ∈ claimants | demand claimant < level}

/-- The share of each member that is not settled in what the settled ones leave. -/
def shareOf (demand : ι → ℕ) (members capacity : ℕ) (settled : Finset ι) : ℕ :=
  (capacity - ∑ claimant ∈ settled, demand claimant) / (members - settled.card)

/-- The share once the claimants below a level are settled. -/
def share (demand : ι → ℕ) (claimants : Finset ι) (members capacity level : ℕ) : ℕ :=
  shareOf demand members capacity (below demand claimants level)

/-- The least level that is as high as its share. -/
def IsFairLevel (demand : ι → ℕ) (claimants : Finset ι) (members capacity level : ℕ) : Prop :=
  IsLeast {level | share demand claimants members capacity level ≤ level} level

theorem mem_below {claimant : ι} :
    claimant ∈ below demand claimants level ↔ claimant ∈ claimants ∧ demand claimant < level :=
  Finset.mem_filter

theorem below_subset (demand : ι → ℕ) (claimants : Finset ι) (level : ℕ) :
    below demand claimants level ⊆ claimants :=
  Finset.filter_subset ..

theorem below_mono {lower : ℕ} (le : lower ≤ level) :
    below demand claimants lower ⊆ below demand claimants level := by
  intro claimant member
  obtain ⟨claims, under⟩ := mem_below.mp member
  exact mem_below.mpr ⟨claims, under.trans_le le⟩

@[simp] theorem below_zero : below demand claimants 0 = ∅ :=
  Finset.filter_false_of_mem fun _ _ => Nat.not_lt_zero _

/-- A fair level exists: the capacity is as high as any share. -/
theorem exists_fairLevel (demand : ι → ℕ) (claimants : Finset ι) (members capacity : ℕ) :
    ∃ level, IsFairLevel demand claimants members capacity level := by
  have reached : ∃ level, share demand claimants members capacity level ≤ level :=
    ⟨capacity, (Nat.div_le_self ..).trans (Nat.sub_le ..)⟩
  exact ⟨Nat.find reached, Nat.find_spec reached, fun _ holds => Nat.find_min' reached holds⟩

/-! ## What can be afforded -/

/-- The settled claimants are given what they ask for, and each other member a level. -/
structure Affords (demand : ι → ℕ) (members capacity : ℕ) (settled : Finset ι) (level : ℕ) :
    Prop where
  covered : ∑ claimant ∈ settled, demand claimant ≤ capacity
  rest : level * (members - settled.card) ≤ capacity - ∑ claimant ∈ settled, demand claimant

namespace Affords

/-- The share can be afforded. -/
theorem of_share (covered : ∑ claimant ∈ settled, demand claimant ≤ capacity) :
    Affords demand members capacity settled (shareOf demand members capacity settled) :=
  ⟨covered, Nat.div_mul_le_self ..⟩

theorem mono {lower : ℕ} (affords : Affords demand members capacity settled level)
    (le : lower ≤ level) : Affords demand members capacity settled lower :=
  ⟨affords.covered, (Nat.mul_le_mul_right _ le).trans affords.rest⟩

/-- What can be afforded is no more than the share. -/
theorem le_share (affords : Affords demand members capacity settled level)
    (rest : settled.card < members) : level ≤ shareOf demand members capacity settled :=
  (Nat.le_div_iff_mul_le (by omega)).mpr affords.rest

/-- **Settling claimants that ask for no more than the level** leaves it affordable. -/
theorem settle [DecidableEq ι] (affords : Affords demand members capacity settled level)
    (subset : settled ⊆ more)
    (modest : ∀ claimant ∈ more, claimant ∉ settled → demand claimant ≤ level)
    (few : more.card ≤ members) : Affords demand members capacity more level := by
  obtain ⟨covered, rest⟩ := affords
  have split := sum_sdiff (f := demand) subset
  have size := card_sdiff_add_card_eq_card subset
  have paid : ∑ claimant ∈ more \ settled, demand claimant ≤ #(more \ settled) * level :=
    sum_le_card_nsmul _ _ _ fun claimant member =>
      modest claimant (mem_sdiff.mp member).1 (mem_sdiff.mp member).2
  have product : level * (members - settled.card) =
      level * (members - more.card) + #(more \ settled) * level := by
    rw [Nat.mul_comm _ level, ← Nat.mul_add]
    congr 1
    omega
  refine ⟨by omega, by omega⟩

/-- All claimants together, each at its demand or the level, are within the capacity. -/
theorem sum_min_le (affords : Affords demand members capacity (below demand claimants level) level)
    (few : claimants.card ≤ members) :
    ∑ claimant ∈ claimants, min (demand claimant) level ≤ capacity := by
  classical
  obtain ⟨covered, rest⟩ := affords
  have subset := below_subset demand claimants level
  have size := card_sdiff_add_card_eq_card subset
  have low : ∑ claimant ∈ below demand claimants level, min (demand claimant) level =
      ∑ claimant ∈ below demand claimants level, demand claimant :=
    sum_congr rfl fun claimant member => Nat.min_eq_left (mem_below.mp member).2.le
  have high : ∑ claimant ∈ claimants \ below demand claimants level, min (demand claimant) level ≤
      #(claimants \ below demand claimants level) * level :=
    sum_le_card_nsmul _ _ _ fun claimant _ => Nat.min_le_right ..
  have fewer : level * #(claimants \ below demand claimants level) ≤
      level * (members - #(below demand claimants level)) :=
    Nat.mul_le_mul_left _ (by omega)
  rw [Nat.mul_comm] at high
  rw [← sum_sdiff subset, low]
  omega

end Affords

/-! ## Rising levels -/

/-- A level that the rise has reached: it can be afforded, and no lower level ends the rise. -/
structure Reaches (demand : ι → ℕ) (claimants : Finset ι) (members capacity level : ℕ) :
    Prop where
  affords : Affords demand members capacity (below demand claimants level) level
  lower : ∀ lower < level, #(below demand claimants lower) < members →
    lower < share demand claimants members capacity lower

namespace Reaches

theorem zero : Reaches demand claimants members capacity 0 := by
  refine ⟨⟨?_, ?_⟩, fun lower under => absurd under (Nat.not_lt_zero _)⟩
  · rw [below_zero, sum_empty]
    exact Nat.zero_le _
  · rw [Nat.zero_mul]
    exact Nat.zero_le _

/-- Between a level and its share, any level can be afforded. -/
theorem between [DecidableEq ι] (few : claimants.card ≤ members) {top : ℕ}
    (reaches : Reaches demand claimants members capacity level) {lower : ℕ}
    (le : level ≤ lower) (under : lower ≤ top)
    (within : top ≤ share demand claimants members capacity level) :
    Affords demand members capacity (below demand claimants lower) top := by
  refine ((Affords.of_share reaches.affords.covered).mono within).settle (below_mono le)
    (fun claimant member _ => ?_) ((card_le_card (below_subset ..)).trans few)
  exact (mem_below.mp member).2.le.trans under

/-- **The level rises to its share.** -/
theorem rise [DecidableEq ι] (few : claimants.card ≤ members)
    (reaches : Reaches demand claimants members capacity level)
    (rest : #(below demand claimants level) < members) :
    level ≤ share demand claimants members capacity level ∧
      Reaches demand claimants members capacity
        (share demand claimants members capacity level) := by
  have rises := reaches.affords.le_share rest
  refine ⟨rises, reaches.between few rises le_rfl le_rfl, fun lower under open' => ?_⟩
  rcases Nat.lt_or_ge lower level with below | above
  · exact reaches.lower lower below open'
  · exact (reaches.between few above (Nat.le_succ lower) under).le_share open'

/-- **Where the rise ends, each claimant has what the fair level gives it.** -/
theorem min_fair (few : claimants.card ≤ members)
    (reaches : Reaches demand claimants members capacity level)
    (ends : share demand claimants members capacity level ≤ level) {fair : ℕ}
    (isFair : IsFairLevel demand claimants members capacity fair) :
    ∀ claimant ∈ claimants, min (demand claimant) fair = min (demand claimant) level := by
  intro claimant member
  have least : fair ≤ level := isFair.2 ends
  rcases Nat.lt_or_ge #(below demand claimants fair) members with rest | all
  · rcases Nat.lt_or_ge fair level with under | same
    · exact absurd isFair.1 (Nat.not_le.mpr (reaches.lower fair under rest))
    · rw [Nat.le_antisymm least same]
  · have everyone := eq_of_subset_of_card_le (below_subset demand claimants fair)
      (few.trans all)
    rw [← everyone] at member
    have under := (mem_below.mp member).2
    rw [Nat.min_eq_left under.le, Nat.min_eq_left (under.le.trans least)]

end Reaches

end Enet.Library
