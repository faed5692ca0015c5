import Enet.Compress.Trees
import Enet.Compress.Checked

/-!
# Walks down a tree

The loops of the coder down the tree of a context end, stay inside the table,
and do to the table what insertion and halving do to the tree.
-/

set_option autoImplicit false

namespace Enet

/-! ## Computations that go on -/

theorem fit8_of_lt {value : Nat} (within : value < 256) : fit8 value = .ok value := if_pos within

theorem fit16_of_lt {value : Nat} (within : value < 65536) : fit16 value = .ok value :=
  if_pos within

theorem minus_of_le {a b : Nat} (less : b ≤ a) : minus a b = .ok (a - b) := if_pos less

namespace RangeCoder

/-- Write to the fields of an entry inside the table. -/
def write (coder : RangeCoder) (index : Nat) (change : CodeSymbol → CodeSymbol) : RangeCoder :=
  coder.setSymbol index (change (coder.symbols index))

/-- The next entry of the table, with a new symbol in it. -/
def create (coder : RangeCoder) (value count : Nat) : RangeCoder :=
  { coder.write coder.nextSymbol fun _ => newSymbol value count with
    nextSymbol := coder.nextSymbol + 1 }

variable {coder coder' : RangeCoder} {index : Nat} {change : CodeSymbol → CodeSymbol}

theorem symbol_checked (inside : index < rangeCoderSymbols) :
    (coder.symbol index).checked = .ok (coder.symbols index) := by
  unfold symbol
  rw [if_pos inside]
  rfl

theorem modify_checked (inside : index < rangeCoderSymbols) :
    (coder.modify index change).checked = .ok (coder.write index change) := by
  unfold modify
  rw [if_pos inside]
  rfl

theorem symbolCreateChecked_of_lt {value count : Nat} (byte : value < 256) (small : count < 256)
    (room : coder.nextSymbol < rangeCoderSymbols) :
    coder.symbolCreateChecked value count = .ok (coder.create value count, coder.nextSymbol) := by
  have modified : coder.modify coder.nextSymbol (fun _ => newSymbol value count) =
      .ok (coder.write coder.nextSymbol fun _ => newSymbol value count) := if_pos room
  unfold symbolCreateChecked symbolCreate
  rw [fit8_of_lt byte, CheckedCoding.ok_bind, fit8_of_lt small, CheckedCoding.ok_bind, modified]
  rfl

@[simp] theorem write_self :
    (coder.write index change).symbols index = change (coder.symbols index) :=
  Function.update_self ..

theorem write_of_ne {other : Nat} (different : other ≠ index) :
    (coder.write index change).symbols other = coder.symbols other :=
  Function.update_of_ne different ..

@[simp] theorem write_nextSymbol : (coder.write index change).nextSymbol = coder.nextSymbol := rfl

@[simp] theorem create_self (value count : Nat) :
    (coder.create value count).symbols coder.nextSymbol = newSymbol value count :=
  Function.update_self ..

theorem create_of_ne (value count : Nat) (different : index ≠ coder.nextSymbol) :
    (coder.create value count).symbols index = coder.symbols index :=
  Function.update_of_ne different ..

@[simp] theorem create_nextSymbol (value count : Nat) :
    (coder.create value count).nextSymbol = coder.nextSymbol + 1 := rfl

end RangeCoder

namespace CodeTree

variable {entry : CodeEntry} {left right : CodeTree}

/-- The parts of a tree whose symbols are distinct. -/
theorem nodup_node (distinct : (node entry left right).indices.Nodup) :
    left.indices.Nodup ∧ right.indices.Nodup ∧ entry.index ∉ left.indices ∧
      entry.index ∉ right.indices ∧ ∀ index ∈ left.indices, index ∉ right.indices := by
  rw [indices_node, List.nodup_append] at distinct
  obtain ⟨distinctLeft, distinctRight, apart⟩ := distinct
  obtain ⟨notRight, distinctRight⟩ := List.nodup_cons.mp distinctRight
  refine ⟨distinctLeft, distinctRight, ?_, notRight, fun index inLeft inRight => ?_⟩
  · exact fun inLeft => apart _ inLeft _ List.mem_cons_self rfl
  · exact apart index inLeft index (List.mem_cons_of_mem _ inRight) rfl

end CodeTree

/-! ## Changes of one tree -/

/-- A change of the table that concerns one tree only, and new symbols. -/
structure Regrows (coder coder' : RangeCoder) (tree : CodeTree) : Prop where
  outside : ∀ index, index ∉ tree.indices → index < coder.nextSymbol →
    coder'.symbols index = coder.symbols index
  contexts : ∀ index ∈ tree.indices, (coder.symbols index).SameContext (coder'.symbols index)
  predicted : coder'.predicted = coder.predicted
  order : coder'.order = coder.order

namespace Regrows

variable {coder coder' coder'' : RangeCoder} {tree tree' : CodeTree}

theorem refl (coder : RangeCoder) (tree : CodeTree) : Regrows coder coder tree :=
  ⟨fun _ _ _ => rfl, fun _ _ => CodeSymbol.SameContext.refl _, rfl, rfl⟩

theorem trans (first : Regrows coder coder' tree) (second : Regrows coder' coder'' tree)
    (grows : coder.nextSymbol ≤ coder'.nextSymbol) : Regrows coder coder'' tree where
  outside := fun index away below =>
    (second.outside index away (Nat.lt_of_lt_of_le below grows)).trans
      (first.outside index away below)
  contexts := fun index member => (first.contexts index member).trans (second.contexts index member)
  predicted := second.predicted.trans first.predicted
  order := second.order.trans first.order

/-- A change of a part of a tree. -/
theorem mono (regrows : Regrows coder coder' tree) (part : ∀ index ∈ tree.indices,
    index ∈ tree'.indices) (below : ∀ index ∈ tree'.indices, index < coder.nextSymbol) :
    Regrows coder coder' tree' where
  outside := fun index away => regrows.outside index fun member => away (part index member)
  contexts := by
    intro index member
    by_cases inside : index ∈ tree.indices
    · exact regrows.contexts index inside
    · rw [regrows.outside index inside (below index member)]
      exact CodeSymbol.SameContext.refl _
  predicted := regrows.predicted
  order := regrows.order

/-- A change of the counts and the links of one symbol of the tree. -/
theorem write {index : Nat} {change : CodeSymbol → CodeSymbol} (member : index ∈ tree.indices)
    (same : ∀ symbol, CodeSymbol.SameContext symbol (change symbol)) :
    Regrows coder (coder.write index change) tree where
  outside := by
    rintro other away -
    exact RangeCoder.write_of_ne fun same => away (same ▸ member)
  contexts := by
    intro other _
    by_cases here : other = index
    · subst here
      rw [RangeCoder.write_self]
      exact same _
    · rw [RangeCoder.write_of_ne here]
      exact CodeSymbol.SameContext.refl _
  predicted := rfl
  order := rfl

end Regrows

/-! ## Insertion -/

/-- What counting a value in a tree does to the table. -/
structure Grows (coder coder' : RangeCoder) (base offset : Nat) (tree tree' : CodeTree)
    (found : Bool) : Prop extends Regrows coder coder' tree where
  holds : Holds coder'.symbols base offset tree'
  next : coder'.nextSymbol = if found then coder.nextSymbol else coder.nextSymbol + 1
  created : found = false →
    CodeSymbol.SameContext (RangeCoder.newSymbol 0 0) (coder'.symbols coder.nextSymbol)

namespace Grows

variable {base offset left'' right'' : Nat} {found : Bool}
  {coder coder' : RangeCoder} {entry : CodeEntry} {left left' right right' : CodeTree}

/-- A value that went to the left of a node. -/
theorem ofLeft (holds : Holds coder.symbols base offset (.node entry left right))
    (distinct : (CodeTree.node entry left right).indices.Nodup)
    (inside : ∀ index ∈ (CodeTree.node entry left right).indices, index < coder.nextSymbol)
    {under : Nat} (node : coder'.symbols entry.index =
      ((coder.symbols entry.index).setUnder under).setLeft left'')
    (sum : under = left'.weight + entry.count)
    (grown : Holds coder'.symbols entry.index left'' left')
    (outside : ∀ index, index ∉ left.indices → index ≠ entry.index → index < coder.nextSymbol →
      coder'.symbols index = coder.symbols index)
    (contexts : ∀ index ∈ left.indices,
      (coder.symbols index).SameContext (coder'.symbols index))
    (predicted : coder'.predicted = coder.predicted) (order : coder'.order = coder.order)
    (next : coder'.nextSymbol = if found then coder.nextSymbol else coder.nextSymbol + 1)
    (created : found = false → CodeSymbol.SameContext
      (RangeCoder.newSymbol 0 0) (coder'.symbols coder.nextSymbol)) :
    Grows coder coder' base offset (.node entry left right) (.node entry left' right) found := by
  obtain ⟨linked, here, sameValue, sameCount, sameUnder, holdsLeft, holdsRight⟩ := holds
  obtain ⟨-, -, -, notRight, apart⟩ := CodeTree.nodup_node distinct
  have onRight : ∀ index ∈ right.indices, coder'.symbols index = coder.symbols index := by
    intro index member
    refine outside index (fun inLeft => apart index inLeft member) ?_ ?_
    · rintro rfl
      exact notRight member
    · exact inside index (CodeTree.mem_indices_node.mpr (.inr (.inr member)))
  refine ⟨⟨?_, ?_, predicted, order⟩, ⟨linked, here, ?_, ?_, ?_, ?_, ?_⟩, next, created⟩
  · intro index away below
    rw [CodeTree.mem_indices_node, not_or, not_or] at away
    exact outside index away.1 away.2.1 below
  · intro index member
    rcases CodeTree.mem_indices_node.mp member with inLeft | rfl | inRight
    · exact contexts index inLeft
    · rw [node]
      exact ⟨rfl, rfl, rfl, rfl⟩
    · rw [onRight index inRight]
      exact CodeSymbol.SameContext.refl _
  · rw [node]
    exact sameValue
  · rw [node]
    exact sameCount
  · rw [node]
    exact sum
  · rw [node]
    exact grown
  · rw [node]
    refine holdsRight.congr fun index member => ?_
    rw [onRight index member]
    exact CodeSymbol.SameNode.refl _

/-- A value that went to the right of a node. -/
theorem ofRight (holds : Holds coder.symbols base offset (.node entry left right))
    (distinct : (CodeTree.node entry left right).indices.Nodup)
    (inside : ∀ index ∈ (CodeTree.node entry left right).indices, index < coder.nextSymbol)
    (node : coder'.symbols entry.index = (coder.symbols entry.index).setRight right'')
    (grown : Holds coder'.symbols entry.index right'' right')
    (outside : ∀ index, index ∉ right.indices → index ≠ entry.index → index < coder.nextSymbol →
      coder'.symbols index = coder.symbols index)
    (contexts : ∀ index ∈ right.indices,
      (coder.symbols index).SameContext (coder'.symbols index))
    (predicted : coder'.predicted = coder.predicted) (order : coder'.order = coder.order)
    (next : coder'.nextSymbol = if found then coder.nextSymbol else coder.nextSymbol + 1)
    (created : found = false → CodeSymbol.SameContext
      (RangeCoder.newSymbol 0 0) (coder'.symbols coder.nextSymbol)) :
    Grows coder coder' base offset (.node entry left right) (.node entry left right') found := by
  obtain ⟨linked, here, sameValue, sameCount, sameUnder, holdsLeft, holdsRight⟩ := holds
  obtain ⟨-, -, notLeft, -, apart⟩ := CodeTree.nodup_node distinct
  have onLeft : ∀ index ∈ left.indices, coder'.symbols index = coder.symbols index := by
    intro index member
    refine outside index (apart index member) ?_ ?_
    · rintro rfl
      exact notLeft member
    · exact inside index (CodeTree.mem_indices_node.mpr (.inl member))
  refine ⟨⟨?_, ?_, predicted, order⟩, ⟨linked, here, ?_, ?_, ?_, ?_, ?_⟩, next, created⟩
  · intro index away below
    rw [CodeTree.mem_indices_node, not_or, not_or] at away
    exact outside index away.2.2 away.2.1 below
  · intro index member
    rcases CodeTree.mem_indices_node.mp member with inLeft | rfl | inRight
    · rw [onLeft index inLeft]
      exact CodeSymbol.SameContext.refl _
    · rw [node]
      exact ⟨rfl, rfl, rfl, rfl⟩
    · exact contexts index inRight
  · rw [node]
    exact sameValue
  · rw [node]
    exact sameCount
  · rw [node]
    exact sameUnder
  · rw [node]
    refine holdsLeft.congr fun index member => ?_
    rw [onLeft index member]
    exact CodeSymbol.SameNode.refl _
  · rw [node]
    exact grown

/-- A value that is counted once more. -/
theorem ofSame (holds : Holds coder.symbols base offset (.node entry left right))
    (distinct : (CodeTree.node entry left right).indices.Nodup) (update : Nat) :
    Grows coder (coder.write entry.index
      (·.setCount (entry.count + update) (left.weight + entry.count + update))) base offset
      (.node entry left right) (.node { entry with count := entry.count + update } left right)
      true := by
  obtain ⟨linked, here, sameValue, sameCount, sameUnder, holdsLeft, holdsRight⟩ := holds
  obtain ⟨-, -, notLeft, notRight, -⟩ := CodeTree.nodup_node distinct
  refine ⟨.write (CodeTree.mem_indices_node.mpr (.inr (.inl rfl))) fun _ => ⟨rfl, rfl, rfl, rfl⟩,
    ⟨linked, here, ?_, ?_, ?_, ?_, ?_⟩, rfl, fun no => nomatch no⟩
  all_goals
    dsimp only
    rw [RangeCoder.write_self]
  · exact sameValue
  · rfl
  · exact Nat.add_assoc _ _ _
  · refine holdsLeft.congr fun index member => ?_
    rw [RangeCoder.write_of_ne fun here : index = entry.index => notLeft (here ▸ member)]
    exact CodeSymbol.SameNode.refl _
  · refine holdsRight.congr fun index member => ?_
    rw [RangeCoder.write_of_ne fun here : index = entry.index => notRight (here ▸ member)]
    exact CodeSymbol.SameNode.refl _

end Grows

namespace RangeCoder

/-- The symbol that is created below another. -/
theorem holds_create {coder coder' : RangeCoder} {value update base : Nat} (byte : value < 256)
    (small : update < 256) (below : base < coder.nextSymbol)
    (same : coder'.symbols coder.nextSymbol = newSymbol value update) :
    Holds coder'.symbols base (coder.nextSymbol - base)
      (.node ⟨coder.nextSymbol, value, update⟩ .nil .nil) := by
  refine ⟨by omega, by dsimp only; omega, ?_, ?_, ?_, ?_, ?_⟩
  all_goals
    dsimp only
    rw [same]
  · exact Nat.mod_eq_of_lt byte
  · exact Nat.mod_eq_of_lt small
  · exact (Nat.zero_add update).symm
  · rfl
  · rfl

theorem newSymbol_sameContext (value count : Nat) :
    (newSymbol 0 0).SameContext (newSymbol value count) := ⟨rfl, rfl, rfl, rfl⟩

end RangeCoder

namespace Grows

variable {base offset value update : Nat} {found : Bool} {coder coder' : RangeCoder}
  {entry : CodeEntry} {left left' right right' : CodeTree}

/-- A walk that goes on to the left of a node. -/
theorem intoLeft (holds : Holds coder.symbols base offset (.node entry left right))
    (distinct : (CodeTree.node entry left right).indices.Nodup)
    (inside : ∀ index ∈ (CodeTree.node entry left right).indices, index < coder.nextSymbol)
    (weight : left'.weight = left.weight + update)
    (grows : Grows (coder.write entry.index (·.setUnder (left.weight + entry.count + update)))
      coder' entry.index (coder.symbols entry.index).left left left' found) :
    Grows coder coder' base offset (.node entry left right) (.node entry left' right) found := by
  obtain ⟨-, -, notLeft, -, -⟩ := CodeTree.nodup_node distinct
  have own : entry.index < coder.nextSymbol :=
    inside _ (CodeTree.mem_indices_node.mpr (.inr (.inl rfl)))
  have node : coder'.symbols entry.index = ((coder.symbols entry.index).setUnder
      (left.weight + entry.count + update)).setLeft (coder.symbols entry.index).left := by
    rw [grows.outside entry.index notLeft own, RangeCoder.write_self]
    rfl
  refine .ofLeft holds distinct inside node (by omega) grows.holds ?_ ?_ grows.predicted
    grows.order grows.next grows.created
  · intro index away different below
    exact (grows.outside index away below).trans (RangeCoder.write_of_ne different)
  · intro index member
    have same := grows.contexts index member
    rwa [RangeCoder.write_of_ne fun here : index = entry.index => notLeft (here ▸ member)] at same

/-- A new symbol on the left of a node. -/
theorem newLeft (holds : Holds coder.symbols base offset (.node entry .nil right))
    (distinct : (CodeTree.node entry .nil right).indices.Nodup)
    (inside : ∀ index ∈ (CodeTree.node entry .nil right).indices, index < coder.nextSymbol)
    (byte : value < 256) (small : update < 256) :
    Grows coder (((coder.write entry.index
        (·.setUnder (CodeTree.nil.weight + entry.count + update))).create value update).write
          entry.index (·.setLeft (coder.nextSymbol - entry.index))) base offset
      (.node entry .nil right)
      (.node entry (.node ⟨coder.nextSymbol, value, update⟩ .nil .nil) right) false := by
  have own : entry.index < coder.nextSymbol :=
    inside _ (CodeTree.mem_indices_node.mpr (.inr (.inl rfl)))
  have fresh : coder.nextSymbol ≠ entry.index := by omega
  have new : (((coder.write entry.index
      (·.setUnder (CodeTree.nil.weight + entry.count + update))).create value update).write
        entry.index (·.setLeft (coder.nextSymbol - entry.index))).symbols coder.nextSymbol =
      RangeCoder.newSymbol value update := by
    rw [RangeCoder.write_of_ne fresh]
    exact RangeCoder.create_self value update
  have node : (((coder.write entry.index
      (·.setUnder (CodeTree.nil.weight + entry.count + update))).create value update).write
        entry.index (·.setLeft (coder.nextSymbol - entry.index))).symbols entry.index =
      ((coder.symbols entry.index).setUnder (CodeTree.nil.weight + entry.count + update)).setLeft
        (coder.nextSymbol - entry.index) := by
    rw [RangeCoder.write_self, RangeCoder.create_of_ne, RangeCoder.write_self]
    exact Ne.symm fresh
  refine .ofLeft holds distinct inside node ?_ (RangeCoder.holds_create byte small own new) ?_ ?_
    rfl rfl rfl ?_
  · rw [CodeTree.weight_node]
    dsimp only [CodeTree.weight_nil]
    omega
  · intro index _ different below
    rw [RangeCoder.write_of_ne different, RangeCoder.create_of_ne,
      RangeCoder.write_of_ne different]
    exact Nat.ne_of_lt below
  · exact fun index member => absurd member List.not_mem_nil
  · intro _
    rw [new]
    exact RangeCoder.newSymbol_sameContext value update

/-- A walk that goes on to the right of a node. -/
theorem intoRight (holds : Holds coder.symbols base offset (.node entry left right))
    (distinct : (CodeTree.node entry left right).indices.Nodup)
    (inside : ∀ index ∈ (CodeTree.node entry left right).indices, index < coder.nextSymbol)
    (grows : Grows coder coder' entry.index (coder.symbols entry.index).right right right' found) :
    Grows coder coder' base offset (.node entry left right) (.node entry left right') found := by
  obtain ⟨-, -, -, notRight, -⟩ := CodeTree.nodup_node distinct
  have own : entry.index < coder.nextSymbol :=
    inside _ (CodeTree.mem_indices_node.mpr (.inr (.inl rfl)))
  exact .ofRight holds distinct inside (grows.outside entry.index notRight own) grows.holds
    (fun index away _ below => grows.outside index away below) grows.contexts grows.predicted
    grows.order grows.next grows.created

/-- A new symbol on the right of a node. -/
theorem newRight (holds : Holds coder.symbols base offset (.node entry left .nil))
    (distinct : (CodeTree.node entry left .nil).indices.Nodup)
    (inside : ∀ index ∈ (CodeTree.node entry left .nil).indices, index < coder.nextSymbol)
    (byte : value < 256) (small : update < 256) :
    Grows coder ((coder.create value update).write entry.index
        (·.setRight (coder.nextSymbol - entry.index))) base offset (.node entry left .nil)
      (.node entry left (.node ⟨coder.nextSymbol, value, update⟩ .nil .nil)) false := by
  have own : entry.index < coder.nextSymbol :=
    inside _ (CodeTree.mem_indices_node.mpr (.inr (.inl rfl)))
  have fresh : coder.nextSymbol ≠ entry.index := by omega
  have new : ((coder.create value update).write entry.index
      (·.setRight (coder.nextSymbol - entry.index))).symbols coder.nextSymbol =
      RangeCoder.newSymbol value update := by
    rw [RangeCoder.write_of_ne fresh, RangeCoder.create_self]
  refine .ofRight holds distinct inside ?_ (RangeCoder.holds_create byte small own new) ?_ ?_ rfl
    rfl rfl ?_
  · rw [RangeCoder.write_self, RangeCoder.create_of_ne _ _ (Ne.symm fresh)]
  · intro index _ different below
    rw [RangeCoder.write_of_ne different, RangeCoder.create_of_ne _ _ (Nat.ne_of_lt below)]
  · exact fun index member => absurd member List.not_mem_nil
  · intro _
    rw [new]
    exact RangeCoder.newSymbol_sameContext value update

end Grows

namespace RangeCoder

/-- The tree on the left of a node, once what comes under the node is written. -/
theorem holds_left {coder : RangeCoder} {base offset under : Nat} {entry : CodeEntry}
    {left right : CodeTree} (holds : Holds coder.symbols base offset (.node entry left right))
    (distinct : (CodeTree.node entry left right).indices.Nodup) :
    Holds (coder.write entry.index (·.setUnder under)).symbols entry.index
      (coder.symbols entry.index).left left := by
  obtain ⟨-, -, -, -, -, holdsLeft, -⟩ := holds
  obtain ⟨-, -, notLeft, -, -⟩ := CodeTree.nodup_node distinct
  refine holdsLeft.congr fun index member => ?_
  rw [write_of_ne fun here : index = entry.index => notLeft (here ▸ member)]
  exact CodeSymbol.SameNode.refl _

/-- **The walk of `ENET_CONTEXT_ENCODE` is an insertion**, and finds what the tree says. -/
theorem encodeWalkChecked_inserts {value update : Nat} {tree : CodeTree} :
    ∀ {coder : RangeCoder} {base offset fuel under : Nat} (count : Nat),
    Holds coder.symbols base offset tree → offset ≠ 0 → tree.indices.Nodup →
    (∀ index ∈ tree.indices, index < coder.nextSymbol) →
    coder.nextSymbol < rangeCoderSymbols → value < 256 → update < 256 →
    (∀ entry ∈ tree.entries, entry.count + update < 256) →
    under + tree.weight + update < 65536 → count < 256 →
    rangeCoderSymbols ≤ fuel + (base + offset) →
    ∃ coder', encodeWalkChecked value update fuel coder (base + offset) under count =
        .ok (coder', ⟨(tree.locate value coder.nextSymbol).symbol,
          under + (tree.locate value coder.nextSymbol).under,
          count + (tree.locate value coder.nextSymbol).count⟩) ∧
      Grows coder coder' base offset tree (tree.insert value update coder.nextSymbol)
        (tree.finds value) := by
  induction tree with
  | nil => intro coder base offset fuel under count holds linked; exact absurd holds linked
  | node entry left right ihLeft ihRight =>
      intro coder base offset fuel under count holds linked distinct inside room byte small counts
        fits low enough
      have whole := holds
      obtain ⟨-, here, sameValue, sameCount, sameUnder, holdsLeft, holdsRight⟩ := holds
      obtain ⟨distinctLeft, distinctRight, -, -, -⟩ := CodeTree.nodup_node distinct
      have own : entry.index < coder.nextSymbol :=
        inside _ (CodeTree.mem_indices_node.mpr (.inr (.inl rfl)))
      have table : entry.index < rangeCoderSymbols := own.trans room
      have last : coder.nextSymbol < 4096 := room
      rw [CodeTree.weight_node] at fits
      have bound : entry.count + update < 256 := counts entry (by simp [CodeTree.entries_node])
      rw [← here]
      rw [← here] at enough
      cases fuel with
      | zero => omega
      | succ fuel =>
          unfold encodeWalkChecked
          rw [symbol_checked table, CheckedCoding.ok_bind, sameValue, sameUnder]
          unfold CodeTree.locate CodeTree.insert CodeTree.finds
          split
          next less =>
              rw [fit16_of_lt (by omega), CheckedCoding.ok_bind, modify_checked table,
                CheckedCoding.ok_bind]
              split
              next linked =>
                  -- the walk goes on to the left
                  obtain ⟨coder', walks, grows⟩ := @ihLeft _ _ _ fuel under count
                    (holds_left whole distinct) linked distinctLeft
                    (fun index member =>
                      inside index (CodeTree.mem_indices_node.mpr (.inl member)))
                    room byte small
                    (fun other member => counts other (List.mem_append_left _ member))
                    (by omega) low (by omega)
                  exact ⟨coder', walks,
                    .intoLeft whole distinct inside (CodeTree.insert_grown ..).weight grows⟩
              next unlinked =>
                  -- the new symbol is the left one
                  have unlinked := Decidable.not_not.mp unlinked
                  have empty : left = .nil := holdsLeft.nil_iff.mp unlinked
                  subst empty
                  have creates := @symbolCreateChecked_of_lt (coder.write entry.index
                    (·.setUnder (CodeTree.nil.weight + entry.count + update))) value update byte
                    small room
                  rw [creates, CheckedCoding.ok_bind]
                  dsimp only [write_nextSymbol]
                  rw [minus_of_le (by omega), CheckedCoding.ok_bind, fit16_of_lt (by omega),
                    CheckedCoding.ok_bind, modify_checked table, CheckedCoding.ok_bind]
                  exact ⟨_, rfl, .newLeft whole distinct inside byte small⟩
          next notLess =>
              split
              next greater =>
                  rw [fit16_of_lt (by omega), CheckedCoding.ok_bind]
                  split
                  next linked =>
                      -- the walk goes on to the right
                      obtain ⟨coder', walks, grows⟩ := @ihRight _ _ _ fuel
                        (under + (left.weight + entry.count)) count holdsRight linked distinctRight
                        (fun index member =>
                          inside index (CodeTree.mem_indices_node.mpr (.inr (.inr member))))
                        room byte small (fun other member =>
                          counts other (List.mem_append_right _ (List.mem_cons_of_mem _ member)))
                        (by omega) low (by omega)
                      refine ⟨coder', ?_, .intoRight whole distinct inside grows⟩
                      rw [walks, Nat.add_assoc under]
                  next unlinked =>
                      -- the new symbol is the right one
                      have unlinked := Decidable.not_not.mp unlinked
                      have empty : right = .nil := holdsRight.nil_iff.mp unlinked
                      subst empty
                      rw [symbolCreateChecked_of_lt byte small room, CheckedCoding.ok_bind]
                      dsimp only
                      rw [minus_of_le (by omega), CheckedCoding.ok_bind, fit16_of_lt (by omega),
                        CheckedCoding.ok_bind, modify_checked table, CheckedCoding.ok_bind]
                      exact ⟨_, rfl, .newRight whole distinct inside byte small⟩
              next notGreater =>
                  rw [sameCount, fit8_of_lt bound, CheckedCoding.ok_bind, fit16_of_lt (by omega),
                    CheckedCoding.ok_bind, modify_checked table, CheckedCoding.ok_bind,
                    minus_of_le (by omega), CheckedCoding.ok_bind, fit16_of_lt (by omega),
                    CheckedCoding.ok_bind, fit16_of_lt (by omega), CheckedCoding.ok_bind]
                  refine ⟨_, ?_, .ofSame whole distinct update⟩
                  rewrite [Nat.add_sub_cancel]
                  rfl

end RangeCoder

/-! ## Halving -/

/-- What the halving of a tree does to the table. -/
structure Halves (coder coder' : RangeCoder) (base offset : Nat) (tree : CodeTree) : Prop
    extends Regrows coder coder' tree where
  holds : Holds coder'.symbols base offset tree.halve
  next : coder'.nextSymbol = coder.nextSymbol

/-- The node of a tree, with what is on its left, halved. -/
structure HalvesLeft (coder coder' : RangeCoder) (base offset : Nat) (entry : CodeEntry)
    (left right : CodeTree) : Prop
    extends Regrows coder coder' (.node entry left right) where
  holds : Holds coder'.symbols base offset
    (.node { entry with count := entry.count - entry.count / 2 } left.halve right)
  next : coder'.nextSymbol = coder.nextSymbol
  right : (coder'.symbols entry.index).right = (coder.symbols entry.index).right

namespace HalvesLeft

variable {coder coder' : RangeCoder} {base offset left' : Nat} {entry : CodeEntry}
  {left right : CodeTree}

/-- The counts of the node are written before and after those on its left. -/
theorem ofParts (holds : Holds coder.symbols base offset (.node entry left right))
    (distinct : (CodeTree.node entry left right).indices.Nodup)
    (inside : ∀ index ∈ (CodeTree.node entry left right).indices, index < coder.nextSymbol)
    (node : coder'.symbols entry.index = (coder.symbols entry.index).setCount
      (entry.count - entry.count / 2) (entry.count - entry.count / 2 + left.halve.weight))
    (grown : Holds coder'.symbols entry.index (coder.symbols entry.index).left left.halve)
    (outside : ∀ index, index ∉ left.indices → index ≠ entry.index → index < coder.nextSymbol →
      coder'.symbols index = coder.symbols index)
    (contexts : ∀ index ∈ left.indices,
      (coder.symbols index).SameContext (coder'.symbols index))
    (predicted : coder'.predicted = coder.predicted) (order : coder'.order = coder.order)
    (next : coder'.nextSymbol = coder.nextSymbol) :
    HalvesLeft coder coder' base offset entry left right := by
  obtain ⟨linked, here, sameValue, sameCount, sameUnder, holdsLeft, holdsRight⟩ := holds
  obtain ⟨-, -, -, notRight, apart⟩ := CodeTree.nodup_node distinct
  have onRight : ∀ index ∈ right.indices, coder'.symbols index = coder.symbols index := by
    intro index member
    refine outside index (fun inLeft => apart index inLeft member) ?_ ?_
    · rintro rfl
      exact notRight member
    · exact inside index (CodeTree.mem_indices_node.mpr (.inr (.inr member)))
  refine ⟨⟨?_, ?_, predicted, order⟩, ?_, next, ?_⟩
  · intro index away below
    rw [CodeTree.mem_indices_node, not_or, not_or] at away
    exact outside index away.1 away.2.1 below
  · intro index member
    rcases CodeTree.mem_indices_node.mp member with inLeft | rfl | inRight
    · exact contexts index inLeft
    · rw [node]
      exact ⟨rfl, rfl, rfl, rfl⟩
    · rw [onRight index inRight]
      exact CodeSymbol.SameContext.refl _
  · refine ⟨linked, here, ?_, ?_, ?_, ?_, ?_⟩
    all_goals
      dsimp only
      rw [node]
    · exact sameValue
    · rfl
    · exact Nat.add_comm _ _
    · exact grown
    · refine holdsRight.congr fun index member => ?_
      rw [onRight index member]
      exact CodeSymbol.SameNode.refl _
  · rw [node]
    rfl

/-- Nothing is on the right. -/
theorem last (halves : HalvesLeft coder coder' base offset entry left .nil) :
    Halves coder coder' base offset (.node entry left .nil) :=
  ⟨halves.toRegrows, halves.holds, halves.next⟩

/-- What is on the right is halved too. -/
theorem andRight {coder'' : RangeCoder}
    (halves : HalvesLeft coder coder' base offset entry left right)
    (distinct : (CodeTree.node entry left right).indices.Nodup)
    (inside : ∀ index ∈ (CodeTree.node entry left right).indices, index < coder.nextSymbol)
    (rest : Halves coder' coder'' entry.index (coder.symbols entry.index).right right) :
    Halves coder coder'' base offset (.node entry left right) := by
  obtain ⟨linked, here, sameValue, sameCount, sameUnder, holdsLeft, holdsRight⟩ := halves.holds
  obtain ⟨-, -, notLeft, notRight, apart⟩ := CodeTree.nodup_node distinct
  have inside' : ∀ index ∈ (CodeTree.node entry left right).indices,
      index < coder'.nextSymbol := by
    rw [halves.next]
    exact inside
  have node : coder''.symbols entry.index = coder'.symbols entry.index :=
    rest.outside entry.index notRight
      (inside' _ (CodeTree.mem_indices_node.mpr (.inr (.inl rfl))))
  refine ⟨halves.toRegrows.trans (rest.toRegrows.mono
    (fun index member => CodeTree.mem_indices_node.mpr (.inr (.inr member))) inside')
    (Nat.le_of_eq halves.next.symm), ⟨linked, here, ?_, ?_, ?_, ?_, ?_⟩,
    rest.next.trans halves.next⟩
  all_goals
    dsimp only
    rw [node]
  · exact sameValue
  · exact sameCount
  · exact sameUnder
  · refine holdsLeft.congr fun index member => ?_
    rw [CodeTree.halve_indices] at member
    rw [rest.outside index (apart index member)
      (inside' index (CodeTree.mem_indices_node.mpr (.inl member)))]
    exact CodeSymbol.SameNode.refl _
  · rw [halves.right]
    exact rest.holds

end HalvesLeft

namespace RangeCoder

/-- The end of the function: what is on the right of the node. -/
theorem rescaleRight {coder coder' : RangeCoder} {base offset fuel : Nat} {entry : CodeEntry}
    {left right : CodeTree} (holds : Holds coder.symbols base offset (.node entry left right))
    (distinct : (CodeTree.node entry left right).indices.Nodup)
    (inside : ∀ index ∈ (CodeTree.node entry left right).indices, index < coder.nextSymbol)
    (halves : HalvesLeft coder coder' base offset entry left right)
    (fits : entry.count - entry.count / 2 + left.halve.weight + right.halve.weight < 65536)
    (rescales : (coder.symbols entry.index).right ≠ 0 →
      Holds coder'.symbols entry.index (coder.symbols entry.index).right right →
      ∃ coder'', symbolRescaleChecked fuel coder'
          (entry.index + (coder.symbols entry.index).right) = .ok (coder'', right.halve.weight) ∧
        Halves coder' coder'' entry.index (coder.symbols entry.index).right right) :
    ∃ coder'', (if (coder.symbols entry.index).right = 0 then
        pure (coder', entry.count - entry.count / 2 + left.halve.weight)
      else do
        let (coder, right) ← symbolRescaleChecked fuel coder'
          (entry.index + (coder.symbols entry.index).right)
        let total ← fit16 (entry.count - entry.count / 2 + left.halve.weight + right)
        pure (coder, total) : CheckedCoding (RangeCoder × Nat)) = .ok (coder'',
      left.halve.weight + (entry.count - entry.count / 2 + right.halve.weight)) ∧
    Halves coder coder'' base offset (.node entry left right) := by
  obtain ⟨-, here, -, -, -, -, holdsRight⟩ := holds
  split
  next unlinked =>
      have empty : right = .nil := holdsRight.nil_iff.mp unlinked
      subst empty
      refine ⟨coder', congrArg Except.ok (Prod.ext rfl ?_), halves.last⟩
      exact Nat.add_comm _ _
  next linked =>
      have holds' := halves.holds.2.2.2.2.2.2
      dsimp only at holds'
      rw [halves.right] at holds'
      obtain ⟨coder'', rescaled, rest⟩ := rescales linked holds'
      refine ⟨coder'', ?_, halves.andRight distinct inside rest⟩
      rw [rescaled, CheckedCoding.ok_bind]
      dsimp only
      rw [fit16_of_lt fits]
      exact congrArg Except.ok (Prod.ext rfl (by dsimp only; omega))

/-- **`enet_symbol_rescale` halves a tree**, and returns what is left of its counts. -/
theorem symbolRescaleChecked_halves {tree : CodeTree} :
    ∀ {coder : RangeCoder} {base offset fuel : Nat}, Holds coder.symbols base offset tree →
    offset ≠ 0 → tree.indices.Nodup → (∀ index ∈ tree.indices, index < coder.nextSymbol) →
    coder.nextSymbol ≤ rangeCoderSymbols → tree.weight < 65536 →
    rangeCoderSymbols ≤ fuel + (base + offset) →
    ∃ coder', symbolRescaleChecked fuel coder (base + offset) = .ok (coder', tree.halve.weight) ∧
      Halves coder coder' base offset tree := by
  induction tree with
  | nil => intro coder base offset fuel holds linked; exact absurd holds linked
  | node entry left right ihLeft ihRight =>
      intro coder base offset fuel holds linked distinct inside room fits enough
      have whole := holds
      obtain ⟨-, here, sameValue, sameCount, sameUnder, holdsLeft, holdsRight⟩ := holds
      obtain ⟨distinctLeft, distinctRight, notLeft, notRight, apart⟩ :=
        CodeTree.nodup_node distinct
      have own : entry.index < coder.nextSymbol :=
        inside _ (CodeTree.mem_indices_node.mpr (.inr (.inl rfl)))
      have table : entry.index < rangeCoderSymbols := Nat.lt_of_lt_of_le own room
      have halved := CodeTree.weight_halve_le (.node entry left right)
      unfold CodeTree.halve at halved ⊢
      rw [CodeTree.weight_node, CodeTree.weight_node] at halved
      rw [CodeTree.weight_node] at fits ⊢
      dsimp only at halved ⊢
      rw [← here]
      rw [← here] at enough
      cases fuel with
      | zero => omega
      | succ fuel =>
          unfold symbolRescaleChecked
          rw [symbol_checked table, CheckedCoding.ok_bind, sameCount]
          dsimp only
          rw [modify_checked table, CheckedCoding.ok_bind]
          -- what is on the right comes after the node and what is on its left
          have after := fun coder' halves => rescaleRight whole distinct inside
            (@halves : HalvesLeft coder coder' base offset entry left right) (by omega)
            fun linked holds' => @ihRight coder' _ _ fuel holds' linked distinctRight
              (fun index member => Nat.lt_of_lt_of_eq
                (inside index (CodeTree.mem_indices_node.mpr (.inr (.inr member))))
                halves.next.symm)
              (halves.next ▸ room) (by omega) (by omega)
          have apartLeft : ∀ index ∈ left.indices, index ≠ entry.index :=
            fun index member same => notLeft (same ▸ member)
          split
          next unlinked =>
              have empty : left = .nil := holdsLeft.nil_iff.mp unlinked
              subst empty
              refine after (coder.write entry.index (·.setCount (entry.count - entry.count / 2)
                (entry.count - entry.count / 2)))
                (.ofParts whole distinct inside ?_ unlinked ?_ ?_ rfl rfl rfl)
              · exact write_self
              · exact fun index _ different _ => write_of_ne different
              · exact fun index member => absurd member List.not_mem_nil
          next linked =>
              have holdsLeft' : Holds (coder.write entry.index (·.setCount
                  (entry.count - entry.count / 2) (entry.count - entry.count / 2))).symbols
                  entry.index (coder.symbols entry.index).left left := by
                refine holdsLeft.congr fun index member => ?_
                rw [write_of_ne (apartLeft index member)]
                exact CodeSymbol.SameNode.refl _
              obtain ⟨coder', rescales, rest⟩ := @ihLeft _ _ _ fuel holdsLeft' linked distinctLeft
                (fun index member => inside index (CodeTree.mem_indices_node.mpr (.inl member)))
                room (by omega) (by omega)
              rw [rescales, CheckedCoding.ok_bind]
              dsimp only
              rw [fit16_of_lt (by omega), CheckedCoding.ok_bind, modify_checked table,
                CheckedCoding.ok_bind]
              refine after _ (.ofParts whole distinct inside ?_ ?_ ?_ ?_ rest.predicted rest.order
                rest.next)
              · rw [write_self, rest.outside entry.index notLeft own, write_self]
                rfl
              · refine rest.holds.congr fun index member => ?_
                rw [CodeTree.halve_indices] at member
                rw [write_of_ne (apartLeft index member)]
                exact CodeSymbol.SameNode.refl _
              · intro index away different below
                rw [write_of_ne different, rest.outside index away below, write_of_ne different]
              · intro index member
                have same := rest.contexts index member
                rw [write_of_ne (apartLeft index member)] at same ⊢
                exact same

end RangeCoder

end Enet
