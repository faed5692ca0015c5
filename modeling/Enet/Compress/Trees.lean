import Enet.Model.Compress
import Mathlib.Data.List.Nodup
import Mathlib.Data.List.Perm.Basic
import Mathlib.Algebra.Order.BigOperators.Group.List
import Mathlib.Algebra.Order.Group.Nat

/-!
# The trees of the contexts

The tree of a context, apart from the table that it is kept in: each node is an
entry of the table with a value and a count. What the walks of the coder do to
the table they do to this tree; the counts under a node are those of its left
subtree and its own.
-/

set_option autoImplicit false

namespace Enet

/-- A symbol in the tree of a context. -/
structure CodeEntry where
  index : Nat
  value : Nat
  count : Nat
  deriving DecidableEq, Repr

/-- The tree of a context. -/
inductive CodeTree where
  | nil
  | node (entry : CodeEntry) (left right : CodeTree)

namespace CodeTree

/-! ## Contents -/

/-- The symbols of a tree, from left to right. -/
def entries : CodeTree → List CodeEntry
  | nil => []
  | node entry left right => left.entries ++ entry :: right.entries

/-- The entries of the table that a tree takes. -/
def indices (tree : CodeTree) : List Nat := tree.entries.map CodeEntry.index

/-- The symbols of a tree with their values. -/
def names (tree : CodeTree) : List (Nat × Nat) :=
  tree.entries.map fun entry => (entry.value, entry.index)

/-- The values of a tree, from left to right. -/
def values (tree : CodeTree) : List Nat := tree.entries.map CodeEntry.value

/-- The counts of a tree, together. -/
def weight (tree : CodeTree) : Nat := (tree.entries.map CodeEntry.count).sum

@[simp] theorem entries_nil : nil.entries = [] := rfl

theorem entries_node (entry : CodeEntry) (left right : CodeTree) :
    (node entry left right).entries = left.entries ++ entry :: right.entries := rfl

@[simp] theorem weight_nil : nil.weight = 0 := rfl

theorem weight_node (entry : CodeEntry) (left right : CodeTree) :
    (node entry left right).weight = left.weight + (entry.count + right.weight) := by
  simp [weight, entries]

theorem mem_indices_node {entry : CodeEntry} {left right : CodeTree} {index : Nat} :
    index ∈ (node entry left right).indices ↔
      index ∈ left.indices ∨ index = entry.index ∨ index ∈ right.indices := by
  simp [indices, entries]

theorem indices_node (entry : CodeEntry) (left right : CodeTree) :
    (node entry left right).indices = left.indices ++ entry.index :: right.indices := by
  simp [indices, entries]

theorem mem_indices_iff {tree : CodeTree} {index : Nat} :
    index ∈ tree.indices ↔ ∃ value, (value, index) ∈ tree.names := by
  unfold indices names
  simp only [List.mem_map, Prod.mk.injEq]
  constructor
  · rintro ⟨entry, member, rfl⟩
    exact ⟨entry.value, entry, member, rfl, rfl⟩
  · rintro ⟨value, entry, member, -, same⟩
    exact ⟨entry, member, same⟩

/-- A symbol has one value. -/
theorem name_unique {tree : CodeTree} {index value value' : Nat} (distinct : tree.indices.Nodup)
    (member : (value, index) ∈ tree.names) (member' : (value', index) ∈ tree.names) :
    value = value' := by
  unfold names at member member'
  obtain ⟨entry, inTree, same⟩ := List.mem_map.mp member
  obtain ⟨entry', inTree', same'⟩ := List.mem_map.mp member'
  obtain ⟨rfl, rfl⟩ := Prod.mk.inj same
  obtain ⟨rfl, here⟩ := Prod.mk.inj same'
  rw [List.inj_on_of_nodup_map distinct inTree inTree' here.symm]

theorem count_le_weight {tree : CodeTree} {entry : CodeEntry} (member : entry ∈ tree.entries) :
    entry.count ≤ tree.weight :=
  List.single_le_sum (fun _ _ => Nat.zero_le _) _ (List.mem_map_of_mem member)

/-! ## Operations -/

/-- The counts of a tree, halved and rounded up. -/
def halve : CodeTree → CodeTree
  | nil => nil
  | node entry left right =>
    node { entry with count := entry.count - entry.count / 2 } left.halve right.halve

/-- A value counted in a tree, as a new symbol where it is new. -/
def insert (value update new : Nat) : CodeTree → CodeTree
  | nil => node ⟨new, value, update⟩ nil nil
  | node entry left right =>
    if value < entry.value then node entry (insert value update new left) right
    else if entry.value < value then node entry left (insert value update new right)
    else node { entry with count := entry.count + update } left right

/-- Whether a value has a symbol where the tree looks for it. -/
def finds (value : Nat) : CodeTree → Bool
  | nil => false
  | node entry left right =>
    if value < entry.value then left.finds value
    else if entry.value < value then right.finds value
    else true

/-- The symbol of a value, what comes under it and its count. -/
def locate (value new : Nat) : CodeTree → CodedSymbol
  | nil => ⟨new, 0, 0⟩
  | node entry left right =>
    if value < entry.value then locate value new left
    else if entry.value < value then
      let located := locate value new right
      { located with under := left.weight + entry.count + located.under }
    else ⟨entry.index, left.weight, entry.count⟩

theorem halve_indices (tree : CodeTree) : tree.halve.indices = tree.indices := by
  induction tree with
  | nil => rfl
  | node entry left right ihLeft ihRight =>
      unfold halve
      rw [indices_node, indices_node, ihLeft, ihRight]

theorem halve_names (tree : CodeTree) : tree.halve.names = tree.names := by
  induction tree with
  | nil => rfl
  | node entry left right ihLeft ihRight =>
      unfold halve
      unfold names at ihLeft ihRight ⊢
      rw [entries_node, entries_node, List.map_append, List.map_append, List.map_cons,
        List.map_cons, ihLeft, ihRight]

theorem halve_entries (tree : CodeTree) : tree.halve.entries =
    tree.entries.map fun entry => { entry with count := entry.count - entry.count / 2 } := by
  induction tree with
  | nil => rfl
  | node entry left right ihLeft ihRight =>
      unfold halve
      rw [entries_node, entries_node, ihLeft, ihRight, List.map_append, List.map_cons]

/-- Halving leaves half of the counts, and one more half for each symbol. -/
theorem two_mul_weight_halve_le (tree : CodeTree) :
    2 * tree.halve.weight ≤ tree.weight + tree.entries.length := by
  induction tree with
  | nil => simp [halve]
  | node entry left right ihLeft ihRight =>
      unfold halve
      rw [weight_node, weight_node]
      rw [entries_node, List.length_append, List.length_cons]
      dsimp only
      omega

theorem weight_halve_le (tree : CodeTree) : tree.halve.weight ≤ tree.weight := by
  induction tree with
  | nil => exact Nat.le_refl 0
  | node entry left right ihLeft ihRight =>
      unfold halve
      rw [weight_node, weight_node]
      dsimp only
      omega

/-! ## Counting a value -/

/-- What counting a value does to a tree, with the symbol of the value, what comes under
it and its old count: a symbol of the value is counted once more, or a new one is put
between two others. -/
inductive Grown (value update new : Nat) (tree tree' : CodeTree) : CodedSymbol → Bool → Prop where
  | found (before after : List CodeEntry) (entry : CodeEntry)
      (split : tree.entries = before ++ entry :: after) (same : entry.value = value)
      (grown : tree'.entries = before ++ { entry with count := entry.count + update } :: after) :
      Grown value update new tree tree'
        ⟨entry.index, (before.map CodeEntry.count).sum, entry.count⟩ true
  | created (before after : List CodeEntry) (split : tree.entries = before ++ after)
      (grown : tree'.entries = before ++ ⟨new, value, update⟩ :: after) :
      Grown value update new tree tree' ⟨new, (before.map CodeEntry.count).sum, 0⟩ false

namespace Grown

variable {value update new : Nat} {tree tree' left left' right right' : CodeTree}
  {coded : CodedSymbol} {found : Bool} {entry : CodeEntry}

theorem nil (value update new : Nat) :
    Grown value update new .nil (.node ⟨new, value, update⟩ .nil .nil) ⟨new, 0, 0⟩ false :=
  .created [] [] rfl rfl

theorem here (entry : CodeEntry) (update new : Nat) (left right : CodeTree) :
    Grown entry.value update new (.node entry left right)
      (.node { entry with count := entry.count + update } left right)
      ⟨entry.index, left.weight, entry.count⟩ true :=
  .found left.entries right.entries entry rfl rfl rfl

theorem inLeft (grown : Grown value update new left left' coded found) (entry : CodeEntry)
    (right : CodeTree) :
    Grown value update new (.node entry left right) (.node entry left' right) coded found := by
  cases grown with
  | found before after other split same grown =>
      refine .found before (after ++ entry :: right.entries) other ?_ same ?_
      · rw [entries_node, split, List.append_assoc, List.cons_append]
      · rw [entries_node, grown, List.append_assoc, List.cons_append]
  | created before after split grown =>
      refine .created before (after ++ entry :: right.entries) ?_ ?_
      · rw [entries_node, split, List.append_assoc]
      · rw [entries_node, grown, List.append_assoc, List.cons_append]

theorem inRight (grown : Grown value update new right right' coded found) (entry : CodeEntry)
    (left : CodeTree) :
    Grown value update new (.node entry left right) (.node entry left right')
      { coded with under := left.weight + entry.count + coded.under } found := by
  have sums : ∀ before : List CodeEntry,
      left.weight + entry.count + (before.map CodeEntry.count).sum =
        ((left.entries ++ entry :: before).map CodeEntry.count).sum := by
    intro before
    simp [weight, Nat.add_assoc]
  cases grown with
  | found before after other split same grown =>
      dsimp only
      rw [sums]
      refine .found (left.entries ++ entry :: before) after other ?_ same ?_
      · rw [entries_node, split, List.append_assoc, List.cons_append]
      · rw [entries_node, grown, List.append_assoc, List.cons_append]
  | created before after split grown =>
      dsimp only
      rw [sums]
      refine .created (left.entries ++ entry :: before) after ?_ ?_
      · rw [entries_node, split, List.append_assoc, List.cons_append]
      · rw [entries_node, grown, List.append_assoc, List.cons_append]

/-- The symbols that are added. -/
theorem mem_names (grown : Grown value update new tree tree' coded found) {value' index : Nat}
    (member : (value', index) ∈ tree'.names) :
    (value', index) ∈ tree.names ∨ value' = value ∧ index = new ∧ found = false := by
  unfold names at member ⊢
  cases grown with
  | found before after found split same grown =>
      rw [grown] at member
      rw [split]
      exact .inl (by simpa using member)
  | created before after split grown =>
      rw [grown] at member
      rw [split]
      simp only [List.map_append, List.map_cons, List.mem_append, List.mem_cons,
        Prod.mk.injEq] at member ⊢
      tauto

theorem names_subset (grown : Grown value update new tree tree' coded found) :
    tree.names ⊆ tree'.names := by
  intro name member
  unfold names at member ⊢
  cases grown with
  | found before after found split same grown =>
      rw [split] at member
      rw [grown]
      simpa using member
  | created before after split grown =>
      rw [split] at member
      rw [grown]
      simp only [List.map_append, List.map_cons, List.mem_append, List.mem_cons] at member ⊢
      tauto

theorem nodup (grown : Grown value update new tree tree' coded found)
    (distinct : tree.indices.Nodup) (fresh : new ∉ tree.indices) : tree'.indices.Nodup := by
  unfold indices at distinct fresh ⊢
  cases grown with
  | found before after found split same grown =>
      rw [split] at distinct
      rw [grown]
      simpa using distinct
  | created before after split grown =>
      rw [split] at distinct fresh
      rw [grown]
      rw [List.map_append] at distinct fresh
      rw [List.map_append, List.map_cons]
      exact List.perm_middle.nodup_iff.mpr (List.nodup_cons.mpr ⟨fresh, distinct⟩)

/-- The symbol of the value is in the tree. -/
theorem symbol_mem (grown : Grown value update new tree tree' coded found) :
    (value, coded.symbol) ∈ tree'.names := by
  unfold names
  cases grown with
  | found before after found split same grown =>
      subst same
      rw [grown]
      simp
  | created before after split grown =>
      rw [grown]
      simp

/-- One of the counts is the old one and the update. -/
theorem counts (grown : Grown value update new tree tree' coded found)
    (member : entry ∈ tree'.entries) :
    (∃ old ∈ tree.entries, entry.count = old.count) ∨ entry.count = coded.count + update := by
  cases grown with
  | found before after found split same grown =>
      rw [grown, List.mem_append, List.mem_cons] at member
      rw [split]
      rcases member with member | rfl | member
      · exact .inl ⟨entry, by simp [member], rfl⟩
      · exact .inr rfl
      · exact .inl ⟨entry, by simp [member], rfl⟩
  | created before after split grown =>
      rw [grown, List.mem_append, List.mem_cons] at member
      rw [split]
      rcases member with member | rfl | member
      · exact .inl ⟨entry, by simp [member], rfl⟩
      · exact .inr (Nat.zero_add _).symm
      · exact .inl ⟨entry, by simp [member], rfl⟩

/-- The old count is one of the tree, or none. -/
theorem count_mem (grown : Grown value update new tree tree' coded found) :
    (∃ entry ∈ tree.entries, entry.count = coded.count) ∨ coded.count = 0 := by
  cases grown with
  | found before after entry split same grown => exact .inl ⟨entry, by rw [split]; simp, rfl⟩
  | created before after split grown => exact .inr rfl

/-- A value has a count where it is found. -/
theorem count_pos (grown : Grown value update new tree tree' coded found)
    (counted : ∀ entry ∈ tree.entries, 0 < entry.count) : 0 < coded.count ↔ found = true := by
  cases grown with
  | found before after entry split same grown =>
      exact iff_of_true (counted entry (by rw [split]; simp)) rfl
  | created before after split grown => exact iff_of_false (Nat.lt_irrefl 0) Bool.false_ne_true

/-- A value that is not found gets the new symbol. -/
theorem of_absent (grown : Grown value update new tree tree' coded false) :
    coded.symbol = new ∧ coded.count = 0 := by
  cases grown with
  | created before after split grown => exact ⟨rfl, rfl⟩

/-- A value is found in a tree that has it. -/
theorem ne_nil (grown : Grown value update new tree tree' coded true) : tree ≠ .nil := by
  rintro rfl
  cases grown with
  | found before after found split same grown => exact absurd split (by simp)

theorem weight (grown : Grown value update new tree tree' coded found) :
    tree'.weight = tree.weight + update := by
  unfold CodeTree.weight
  cases grown with
  | found before after found split same grown =>
      rw [split, grown]
      simp only [List.map_append, List.map_cons, List.sum_append, List.sum_cons]
      omega
  | created before after split grown =>
      rw [split, grown]
      simp only [List.map_append, List.map_cons, List.sum_append, List.sum_cons]
      omega

/-- What comes under a value, and its own count, are among the counts. -/
theorem le_weight (grown : Grown value update new tree tree' coded found) :
    coded.under + coded.count ≤ tree.weight := by
  unfold CodeTree.weight
  cases grown with
  | found before after found split same grown =>
      rw [split, List.map_append, List.sum_append, List.map_cons, List.sum_cons]
      dsimp only
      omega
  | created before after split grown =>
      rw [split, List.map_append, List.sum_append]
      dsimp only
      omega

end Grown

/-- Where a value goes: its symbol is counted once more, or it is new. -/
theorem insert_grown (value update new : Nat) (tree : CodeTree) :
    Grown value update new tree (tree.insert value update new) (tree.locate value new)
      (tree.finds value) := by
  induction tree with
  | nil => exact .nil value update new
  | node entry left right ihLeft ihRight =>
      unfold insert locate finds
      split
      · exact ihLeft.inLeft entry right
      · split
        · exact ihRight.inRight entry left
        · obtain rfl : entry.value = value := by omega
          exact .here entry update new left right

/-! ## Order -/

theorem values_node (entry : CodeEntry) (left right : CodeTree) :
    (node entry left right).values = left.values ++ entry.value :: right.values := by
  simp [values, entries]

/-- The values ascend where those on the left of a node are below it and those on the
right above it. -/
theorem ascending_node {entry : CodeEntry} {left right : CodeTree} :
    (node entry left right).values.Pairwise (· < ·) ↔
      left.values.Pairwise (· < ·) ∧ right.values.Pairwise (· < ·) ∧
        (∀ value ∈ left.values, value < entry.value) ∧
        (∀ value ∈ right.values, entry.value < value) := by
  rw [values_node, List.pairwise_append, List.pairwise_cons]
  constructor
  · rintro ⟨ascendsLeft, ⟨above, ascendsRight⟩, below⟩
    exact ⟨ascendsLeft, ascendsRight, fun value member => below value member _ List.mem_cons_self,
      above⟩
  · rintro ⟨ascendsLeft, ascendsRight, below, above⟩
    refine ⟨ascendsLeft, ⟨above, ascendsRight⟩, fun value member other after => ?_⟩
    rcases List.mem_cons.mp after with rfl | after
    · exact below value member
    · exact (below value member).trans (above other after)

theorem mem_values_insert {value update new other : Nat} {tree : CodeTree}
    (member : other ∈ (tree.insert value update new).values) :
    other = value ∨ other ∈ tree.values := by
  have grown := insert_grown value update new tree
  unfold values at member ⊢
  generalize tree.insert value update new = tree', tree.locate value new = coded,
    tree.finds value = found at member grown
  cases grown with
  | found before after found split same grown =>
      rw [grown] at member
      rw [split]
      simpa using Or.inr member
  | created before after split grown =>
      rw [grown] at member
      rw [split]
      simp only [List.map_append, List.map_cons, List.mem_append, List.mem_cons] at member ⊢
      tauto

theorem ascending_insert {value update new : Nat} {tree : CodeTree}
    (ascends : tree.values.Pairwise (· < ·)) :
    (tree.insert value update new).values.Pairwise (· < ·) := by
  induction tree with
  | nil => exact List.pairwise_singleton _ _
  | node entry left right ihLeft ihRight =>
      obtain ⟨ascendsLeft, ascendsRight, below, above⟩ := ascending_node.mp ascends
      unfold insert
      split
      next less =>
          refine ascending_node.mpr ⟨ihLeft ascendsLeft, ascendsRight, ?_, above⟩
          intro other member
          rcases mem_values_insert member with rfl | member
          · exact less
          · exact below other member
      next =>
          split
          next greater =>
              refine ascending_node.mpr ⟨ascendsLeft, ihRight ascendsRight, below, ?_⟩
              intro other member
              rcases mem_values_insert member with rfl | member
              · exact greater
              · exact above other member
          next => exact ascending_node.mpr ⟨ascendsLeft, ascendsRight, below, above⟩

end CodeTree

/-! ## Trees in the table -/

namespace CodeSymbol

/-- What the trees read of a symbol is the same. -/
structure SameNode (symbol symbol' : CodeSymbol) : Prop where
  value : symbol'.value = symbol.value
  count : symbol'.count = symbol.count
  under : symbol'.under = symbol.under
  left : symbol'.left = symbol.left
  right : symbol'.right = symbol.right

/-- What a symbol holds as a context is the same. -/
structure SameContext (symbol symbol' : CodeSymbol) : Prop where
  symbols : symbol'.symbols = symbol.symbols
  escapes : symbol'.escapes = symbol.escapes
  total : symbol'.total = symbol.total
  parent : symbol'.parent = symbol.parent

theorem SameNode.refl (symbol : CodeSymbol) : symbol.SameNode symbol := ⟨rfl, rfl, rfl, rfl, rfl⟩

theorem SameNode.trans {symbol symbol' symbol'' : CodeSymbol}
    (first : symbol.SameNode symbol') (second : symbol'.SameNode symbol'') :
    symbol.SameNode symbol'' :=
  ⟨second.value.trans first.value, second.count.trans first.count,
    second.under.trans first.under, second.left.trans first.left,
    second.right.trans first.right⟩

theorem SameContext.refl (symbol : CodeSymbol) : symbol.SameContext symbol := ⟨rfl, rfl, rfl, rfl⟩

theorem SameContext.trans {symbol symbol' symbol'' : CodeSymbol}
    (first : symbol.SameContext symbol') (second : symbol'.SameContext symbol'') :
    symbol.SameContext symbol'' :=
  ⟨second.symbols.trans first.symbols, second.escapes.trans first.escapes,
    second.total.trans first.total, second.parent.trans first.parent⟩

end CodeSymbol

/-- The tree behind an offset from an entry of the table. -/
def Holds (symbols : Nat → CodeSymbol) : (base offset : Nat) → CodeTree → Prop
  | _, offset, .nil => offset = 0
  | base, offset, .node entry left right =>
    offset ≠ 0 ∧ entry.index = base + offset ∧ (symbols entry.index).value = entry.value ∧
      (symbols entry.index).count = entry.count ∧
      (symbols entry.index).under = left.weight + entry.count ∧
      Holds symbols entry.index (symbols entry.index).left left ∧
      Holds symbols entry.index (symbols entry.index).right right

namespace Holds

variable {symbols symbols' : Nat → CodeSymbol} {base offset : Nat} {tree : CodeTree}

/-- A tree does not depend on the rest of the table. -/
theorem congr (holds : Holds symbols base offset tree)
    (same : ∀ index ∈ tree.indices, (symbols index).SameNode (symbols' index)) :
    Holds symbols' base offset tree := by
  induction tree generalizing base offset with
  | nil => exact holds
  | node entry left right ihLeft ihRight =>
      obtain ⟨linked, here, value, count, under, holdsLeft, holdsRight⟩ := holds
      have own := same entry.index (CodeTree.mem_indices_node.mpr (.inr (.inl rfl)))
      refine ⟨linked, here, own.value.trans value, own.count.trans count, own.under.trans under,
        ?_, ?_⟩
      · rw [own.left]
        exact ihLeft holdsLeft fun index member =>
          same index (CodeTree.mem_indices_node.mpr (.inl member))
      · rw [own.right]
        exact ihRight holdsRight fun index member =>
          same index (CodeTree.mem_indices_node.mpr (.inr (.inr member)))

/-- The links of a tree go up. -/
theorem above (holds : Holds symbols base offset tree) : ∀ index ∈ tree.indices, base < index := by
  induction tree generalizing base offset with
  | nil => exact fun index member => absurd member List.not_mem_nil
  | node entry left right ihLeft ihRight =>
      obtain ⟨linked, here, -, -, -, holdsLeft, holdsRight⟩ := holds
      have up : base < entry.index := by omega
      intro index member
      rcases CodeTree.mem_indices_node.mp member with inLeft | rfl | inRight
      · exact up.trans (ihLeft holdsLeft index inLeft)
      · exact up
      · exact up.trans (ihRight holdsRight index inRight)

/-- What comes under a symbol is among the counts of the tree. -/
theorem under_le (holds : Holds symbols base offset tree) :
    ∀ entry ∈ tree.entries, (symbols entry.index).under ≤ tree.weight := by
  induction tree generalizing base offset with
  | nil => exact fun entry member => absurd member List.not_mem_nil
  | node entry left right ihLeft ihRight =>
      obtain ⟨-, -, -, -, under, holdsLeft, holdsRight⟩ := holds
      intro other member
      rw [CodeTree.weight_node]
      rw [CodeTree.entries_node, List.mem_append, List.mem_cons] at member
      rcases member with inLeft | rfl | inRight
      · have := ihLeft holdsLeft other inLeft
        omega
      · omega
      · have := ihRight holdsRight other inRight
        omega

/-- The count of a symbol is in the table. -/
theorem count_eq (holds : Holds symbols base offset tree) :
    ∀ entry ∈ tree.entries, (symbols entry.index).count = entry.count := by
  induction tree generalizing base offset with
  | nil => exact fun entry member => absurd member List.not_mem_nil
  | node entry left right ihLeft ihRight =>
      obtain ⟨-, -, -, count, -, holdsLeft, holdsRight⟩ := holds
      intro other member
      rw [CodeTree.entries_node, List.mem_append, List.mem_cons] at member
      rcases member with inLeft | rfl | inRight
      · exact ihLeft holdsLeft other inLeft
      · exact count
      · exact ihRight holdsRight other inRight

theorem nil_iff (holds : Holds symbols base offset tree) : offset = 0 ↔ tree = .nil := by
  cases tree with
  | nil => exact iff_of_true holds rfl
  | node entry left right => exact iff_of_false holds.1 (by intro absurd; cases absurd)

end Holds

end Enet
