import Mathlib.Data.List.TakeWhile

/-!
# Two ways to drop elements of a list

One drops every element with a property, the other the longest prefix with a
property that may be another one. They leave the same list exactly when the
elements to drop are that prefix.
-/

set_option autoImplicit false

namespace Enet.Library

variable {α : Type} {p q : α → Bool}

/-- **When dropping a prefix drops exactly the elements with a property.** -/
theorem filter_eq_dropWhile_iff (items : List α) :
    items.filter (fun item => !p item) = items.dropWhile q ↔
      (∀ item ∈ items.takeWhile p, q item = true) ∧
        (∀ item ∈ (items.dropWhile p).head?, q item = false) ∧
        ∀ item ∈ items.dropWhile p, p item = false := by
  induction items with
  | nil => simp
  | cons head rest ih =>
      cases dropped : p head with
      | true =>
          rw [List.filter_cons_of_neg (by simp [dropped]), List.takeWhile_cons_of_pos dropped,
            List.dropWhile_cons_of_pos dropped]
          cases passed : q head with
          | true =>
              rw [List.dropWhile_cons_of_pos passed, ih]
              simp [passed]
          | false =>
              rw [List.dropWhile_cons_of_neg (by simp [passed])]
              refine iff_of_false (fun same => ?_) (fun both => ?_)
              · have member : head ∈ rest.filter fun item => !p item := same ▸ List.mem_cons_self
                have kept := (List.mem_filter.mp member).2
                rw [dropped] at kept
                cases kept
              · have passes := both.1 head List.mem_cons_self
                rw [passed] at passes
                cases passes
      | false =>
          rw [List.filter_cons_of_pos (by simp [dropped]),
            List.takeWhile_cons_of_neg (by simp [dropped]),
            @List.dropWhile_cons_of_neg _ p _ _ (by simp [dropped])]
          cases passed : q head with
          | true =>
              rw [List.dropWhile_cons_of_pos passed]
              refine iff_of_false (fun same => ?_) (fun both => ?_)
              · have first := List.head?_dropWhile_not q rest
                rw [← same] at first
                simp [passed] at first
              · have stops := both.2.1 head rfl
                rw [passed] at stops
                cases stops
          | false =>
              rw [List.dropWhile_cons_of_neg (by simp [passed]), List.cons_inj_right,
                List.filter_eq_self]
              simp [passed, dropped]

end Enet.Library
