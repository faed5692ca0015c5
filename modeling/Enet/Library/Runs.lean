import Mathlib.Logic.Relation

/-!
# Invariants of runs

Rules for the reflexive transitive closure of a step relation, and for a loop
over a list that checks each of its steps.
-/

set_option autoImplicit false

namespace Enet.Library

open Relation

universe u

variable {σ : Type u} {Step : σ → σ → Prop}

/-- What every step keeps, every run keeps. -/
theorem runs_keep (Invariant : σ → Prop)
    (keeps : ∀ {before after : σ}, Step before after → Invariant before → Invariant after)
    {first last : σ} (run : ReflTransGen Step first last) (initial : Invariant first) :
    Invariant last := by
  induction run with
  | refl => exact initial
  | tail _ step ih => exact keeps step ih

/-- What every step relates to its start, every run does. -/
theorem runs_relate (Relates : σ → σ → Prop) (refl : ∀ state, Relates state state)
    (trans : ∀ {a b c : σ}, Relates a b → Relates b c → Relates a c)
    (relates : ∀ {before after : σ}, Step before after → Relates before after)
    {first last : σ} (run : ReflTransGen Step first last) : Relates first last := by
  induction run with
  | refl => exact refl first
  | tail _ step ih => exact trans ih (relates step)

/-- What every turn relates to its start, a loop over a list does. -/
theorem foldl_relates {α : Type*} (Relates : σ → σ → Prop) (refl : ∀ state, Relates state state)
    (trans : ∀ {a b c : σ}, Relates a b → Relates b c → Relates a c) {step : σ → α → σ}
    (relates : ∀ state item, Relates state (step state item)) (items : List α) :
    ∀ state, Relates state (items.foldl step state) := by
  induction items with
  | nil => exact refl
  | cons item items ih => exact fun state => trans (relates state item) (ih _)

/-- A checked loop goes the way of the plain one where an invariant keeps its checks true. -/
theorem foldlM_eq_some {α : Type*} {checked : σ → α → Option σ} {step : σ → α → σ}
    (Invariant : σ → Prop) (items : List α)
    (passes : ∀ state, Invariant state → ∀ item ∈ items,
      checked state item = some (step state item) ∧ Invariant (step state item)) :
    ∀ state, Invariant state →
      items.foldlM checked state = some (items.foldl step state) ∧
        Invariant (items.foldl step state) := by
  induction items with
  | nil => intro state holds; exact ⟨rfl, holds⟩
  | cons item items ih =>
      intro state holds
      obtain ⟨same, kept⟩ := passes state holds item List.mem_cons_self
      rw [List.foldlM_cons, same, List.foldl_cons]
      exact ih (fun state holds other member =>
        passes state holds other (List.mem_cons_of_mem item member)) _ kept

end Enet.Library
