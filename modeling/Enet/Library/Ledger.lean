import Mathlib.Algebra.Order.Group.Multiset
import Enet.Library.Runs

/-!
# Counted references

A ledger counts the references to each item, and lists the items destroyed. Its
books are the ledger with the references that are in fact held. A move of the
books takes a reference, gives one up, hands an item over with its last
reference, or discards an item that nobody refers to; the rules of the books
say which items may be taken, handed over and discarded.

Books that are balanced stay balanced: then no item is destroyed twice or while
a reference to it is held, and an item loses its last reference only to be
destroyed or handed over.
-/

set_option autoImplicit false

namespace Enet.Library

open Relation

universe u

variable {α : Type u} [DecidableEq α]

/-- The counts of references, and the items destroyed. -/
@[ext] structure Ledger (α : Type u) where
  count : α → ℕ
  destroyed : List α

namespace Ledger

/-- Take a reference. -/
def acquire (ledger : Ledger α) (item : α) : Ledger α :=
  { ledger with count := Function.update ledger.count item (ledger.count item + 1) }

/-- Give up a reference. -/
def drop (ledger : Ledger α) (item : α) : Ledger α :=
  { ledger with count := Function.update ledger.count item (ledger.count item - 1) }

/-- Destroy an item. -/
def destroy (ledger : Ledger α) (item : α) : Ledger α :=
  { ledger with destroyed := item :: ledger.destroyed }

/-- Give up a reference, and destroy the item with the last one. -/
def release (ledger : Ledger α) (item : α) : Ledger α :=
  if (ledger.drop item).count item = 0 then (ledger.drop item).destroy item
  else ledger.drop item

/-- The counts are those of the references held, and what is destroyed is gone. -/
structure Balanced (ledger : Ledger α) (held : Multiset α) : Prop where
  count : ∀ item, ledger.count item = held.count item
  once : ledger.destroyed.Nodup
  gone : ∀ item ∈ ledger.destroyed, item ∉ held

namespace Balanced

variable {ledger : Ledger α} {held : Multiset α} {item : α}

theorem acquire (balanced : ledger.Balanced held) (alive : item ∉ ledger.destroyed) :
    (ledger.acquire item).Balanced (item ::ₘ held) := by
  refine ⟨fun other => ?_, balanced.once, fun other destroyed member => ?_⟩
  · rcases eq_or_ne other item with same | different
    · rw [same, Multiset.count_cons_self, ← balanced.count item]
      exact Function.update_self ..
    · rw [Multiset.count_cons_of_ne different, ← balanced.count other]
      exact Function.update_of_ne different ..
  · rcases Multiset.mem_cons.mp member with same | member
    · rw [same] at destroyed
      exact alive destroyed
    · exact balanced.gone other destroyed member

theorem drop_count (balanced : ledger.Balanced (item ::ₘ held)) (other : α) :
    (ledger.drop item).count other = held.count other := by
  have counted := balanced.count other
  rcases eq_or_ne other item with same | different
  · rw [same, Multiset.count_cons_self] at counted
    rw [same, show (ledger.drop item).count item = ledger.count item - 1 from
      Function.update_self .., counted, Nat.add_sub_cancel]
  · rw [Multiset.count_cons_of_ne different] at counted
    rw [← counted]
    exact Function.update_of_ne different ..

theorem alive (balanced : ledger.Balanced (item ::ₘ held)) : item ∉ ledger.destroyed :=
  fun destroyed => balanced.gone item destroyed (Multiset.mem_cons_self item held)

theorem drop (balanced : ledger.Balanced (item ::ₘ held)) : (ledger.drop item).Balanced held :=
  ⟨balanced.drop_count, balanced.once, fun other destroyed member =>
    balanced.gone other destroyed (Multiset.mem_cons_of_mem member)⟩

theorem destroy (balanced : ledger.Balanced held) (alive : item ∉ ledger.destroyed)
    (unheld : item ∉ held) : (ledger.destroy item).Balanced held := by
  refine ⟨balanced.count, List.nodup_cons.mpr ⟨alive, balanced.once⟩, ?_⟩
  intro other destroyed
  rcases List.mem_cons.mp destroyed with same | destroyed
  · rw [same]
    exact unheld
  · exact balanced.gone other destroyed

theorem release (balanced : ledger.Balanced (item ::ₘ held)) :
    (ledger.release item).Balanced held := by
  unfold Ledger.release
  split
  next none =>
      rw [balanced.drop_count, Multiset.count_eq_zero] at none
      exact balanced.drop.destroy balanced.alive none
  · exact balanced.drop

/-- The last reference is given up with the item destroyed. -/
theorem destroyed_of_last (balanced : ledger.Balanced (item ::ₘ held)) (last : item ∉ held) :
    item ∈ (ledger.release item).destroyed := by
  unfold Ledger.release
  rw [if_pos (by rw [balanced.drop_count, Multiset.count_eq_zero.mpr last])]
  exact List.mem_cons_self

end Balanced

theorem release_destroyed (ledger : Ledger α) (item : α) :
    (ledger.release item).destroyed = item :: ledger.destroyed ∨
      (ledger.release item).destroyed = ledger.destroyed := by
  unfold release
  split
  · exact .inl rfl
  · exact .inr rfl

theorem foldl_acquire_destroyed {β : Type} (item : α) (holders : List β) : ∀ ledger : Ledger α,
    (holders.foldl (fun ledger _ => ledger.acquire item) ledger).destroyed = ledger.destroyed := by
  induction holders with
  | nil => intro ledger; rfl
  | cons holder holders ih => intro ledger; exact ih _

/-! ## Books -/

/-- A ledger, and the references held. -/
abbrev Books (α : Type u) : Type u := Ledger α × Multiset α

/-- Which items may be taken, handed over and discarded. -/
structure Rules (α : Type u) where
  acquires : α → Prop
  hands : α → Prop
  discards : α → Prop

/-- One move of the books. -/
inductive Move (rules : Rules α) : Books α → Books α → Prop where
  | acquire (ledger : Ledger α) (held : Multiset α) (item : α) (may : rules.acquires item)
      (alive : item ∉ ledger.destroyed) :
      Move rules (ledger, held) (ledger.acquire item, item ::ₘ held)
  | release (ledger : Ledger α) (held : Multiset α) (item : α) :
      Move rules (ledger, item ::ₘ held) (ledger.release item, held)
  | handOver (ledger : Ledger α) (held : Multiset α) (item : α) (may : rules.hands item)
      (last : item ∉ held) :
      Move rules (ledger, item ::ₘ held) (ledger.drop item, held)
  | discard (ledger : Ledger α) (held : Multiset α) (item : α) (may : rules.discards item)
      (alive : item ∉ ledger.destroyed) (unheld : item ∉ held) :
      Move rules (ledger, held) (ledger.destroy item, held)

/-- Moves in sequence. -/
abbrev Moves (rules : Rules α) : Books α → Books α → Prop := ReflTransGen (Move rules)

namespace Moves

variable {rules rules' : Rules α} {before after : Books α} {item : α}

/-- **Balanced books stay balanced.** -/
theorem balanced (moves : Moves rules before after) (balanced : before.1.Balanced before.2) :
    after.1.Balanced after.2 := by
  refine runs_keep (fun books : Books α => books.1.Balanced books.2) ?_ moves balanced
  intro before after move balanced
  cases move with
  | acquire ledger held item may alive => exact balanced.acquire alive
  | release => exact balanced.release
  | handOver => exact balanced.drop
  | discard ledger held item may alive unheld => exact balanced.destroy alive unheld

/-- **What is not held any more was destroyed or handed over.** -/
theorem left (moves : Moves rules before after) (balanced : before.1.Balanced before.2)
    (held : item ∈ before.2) (gone : item ∉ after.2) :
    item ∈ after.1.destroyed ∨ rules.hands item := by
  have kept : after.1.Balanced after.2 ∧
      (item ∈ after.2 ∨ item ∈ after.1.destroyed ∨ rules.hands item) := by
    refine runs_keep (fun books : Books α => books.1.Balanced books.2 ∧
      (item ∈ books.2 ∨ item ∈ books.1.destroyed ∨ rules.hands item)) ?_ moves
      ⟨balanced, .inl held⟩
    rintro before after move ⟨balanced, fate⟩
    refine ⟨Moves.balanced (.single move) balanced, ?_⟩
    cases move with
    | acquire ledger held other =>
        exact fate.imp_left Multiset.mem_cons_of_mem
    | release ledger held other =>
        rcases fate with member | destroyed | handed
        · by_cases still : item ∈ held
          · exact .inl still
          · rcases Multiset.mem_cons.mp member with same | member
            · rw [← same] at balanced ⊢
              exact .inr (.inl (balanced.destroyed_of_last still))
            · exact absurd member still
        · refine .inr (.inl ?_)
          rcases release_destroyed ledger other with same | same
          · rw [same]
            exact List.mem_cons_of_mem _ destroyed
          · rw [same]
            exact destroyed
        · exact .inr (.inr handed)
    | handOver ledger held other may last =>
        rcases fate with member | destroyed | handed
        · rcases Multiset.mem_cons.mp member with same | member
          · rw [same]
            exact .inr (.inr may)
          · exact .inl member
        · exact .inr (.inl destroyed)
        · exact .inr (.inr handed)
    | discard => exact fate.imp_right (Or.imp_left (List.mem_cons_of_mem _))
  exact kept.2.resolve_left gone

/-- What is destroyed stays so. -/
theorem still (moves : Moves rules before after) (gone : item ∈ before.1.destroyed) :
    item ∈ after.1.destroyed := by
  refine runs_keep (fun books : Books α => item ∈ books.1.destroyed) ?_ moves gone
  intro before after move gone
  cases move with
  | acquire => exact gone
  | release ledger held other =>
      rcases release_destroyed ledger other with same | same
      · exact same ▸ List.mem_cons_of_mem _ gone
      · exact same ▸ gone
  | handOver => exact gone
  | discard => exact List.mem_cons_of_mem _ gone

/-- **What is destroyed was held, taken or discarded.** -/
theorem destroyed (moves : Moves rules before after) (gone : item ∈ after.1.destroyed) :
    item ∈ before.1.destroyed ∨ item ∈ before.2 ∨ rules.acquires item ∨ rules.discards item := by
  induction moves using ReflTransGen.head_induction_on with
  | refl => exact .inl gone
  | head move _ ih =>
      cases move with
      | acquire ledger held other may alive =>
          rcases ih with destroyed | held | may
          · exact .inl destroyed
          · rcases Multiset.mem_cons.mp held with same | held
            · rw [same]
              exact .inr (.inr (.inl may))
            · exact .inr (.inl held)
          · exact .inr (.inr may)
      | release ledger held other =>
          rcases ih with destroyed | held | may
          · rcases release_destroyed ledger other with same | same
            · rw [same] at destroyed
              rcases List.mem_cons.mp destroyed with same | destroyed
              · rw [same]
                exact .inr (.inl (Multiset.mem_cons_self ..))
              · exact .inl destroyed
            · rw [same] at destroyed
              exact .inl destroyed
          · exact .inr (.inl (Multiset.mem_cons_of_mem held))
          · exact .inr (.inr may)
      | handOver ledger held other =>
          exact ih.imp_right (Or.imp_left Multiset.mem_cons_of_mem)
      | discard ledger held other may =>
          rcases ih with destroyed | rest
          · rcases List.mem_cons.mp destroyed with same | destroyed
            · rw [same]
              exact .inr (.inr (.inr may))
            · exact .inl destroyed
          · exact .inr rest

/-- More may be done under rules that allow more. -/
theorem mono (moves : Moves rules before after)
    (acquires : ∀ item, rules.acquires item → rules'.acquires item)
    (hands : ∀ item, rules.hands item → rules'.hands item)
    (discards : ∀ item, rules.discards item → rules'.discards item) :
    Moves rules' before after := by
  refine ReflTransGen.mono ?_ before after moves
  intro before after move
  cases move with
  | acquire ledger held item may alive => exact .acquire ledger held item (acquires item may) alive
  | release ledger held item => exact .release ledger held item
  | handOver ledger held item may last => exact .handOver ledger held item (hands item may) last
  | discard ledger held item may alive unheld =>
      exact .discard ledger held item (discards item may) alive unheld

/-- References given up one after the other. -/
theorem releases (rules : Rules α) (items : List α) : ∀ (ledger : Ledger α) (held : Multiset α),
    Moves rules (ledger, (items : Multiset α) + held) (items.foldl release ledger, held) := by
  induction items with
  | nil =>
      intro ledger held
      rw [Multiset.coe_nil, zero_add]
      exact .refl
  | cons item items ih =>
      intro ledger held
      rw [← Multiset.cons_coe, Multiset.cons_add]
      exact .head (.release ledger _ item) (ih _ held)

/-- References taken one after the other to one item. -/
theorem acquires {β : Type} (may : rules.acquires item) (holders : List β) :
    ∀ (ledger : Ledger α) (held : Multiset α), item ∉ ledger.destroyed →
      Moves rules (ledger, held)
        (holders.foldl (fun ledger _ => ledger.acquire item) ledger,
          Multiset.replicate holders.length item + held) := by
  induction holders with
  | nil =>
      intro ledger held alive
      rw [List.length_nil, Multiset.replicate_zero, zero_add]
      exact .refl
  | cons holder holders ih =>
      intro ledger held alive
      rw [List.length_cons, Multiset.replicate_succ, Multiset.cons_add, ← Multiset.add_cons]
      exact .head (.acquire ledger held item may alive) (ih _ _ alive)

end Moves

end Ledger

end Enet.Library
