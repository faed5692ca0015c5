import Enet.Compress.Visits

/-!
# Decoding in a tree

The walk of the decoder down the tree of a context compares a code with the
counts instead of a value with the values. It leads to a symbol, or to a place
between two symbols where the symbol of a value is created; whichever tree it
goes down, it ends, and the tree has grown as it grows where a value is coded.
-/

set_option autoImplicit false

namespace Enet

namespace CodeTree

/-! ## Seeking a code -/

/-- What a code leads to in a tree: a value, the tree once the value is counted, and
the symbol of the value. -/
structure Sought where
  value : Nat
  tree : CodeTree
  coded : CodedSymbol
  found : Bool

/-- The value that a code stands for, counted in a tree. What comes under the tree is
`under`, and each value has at least the count `minimum`. -/
def seek (code minimum update new : Nat) : (under : Nat) → CodeTree → Sought
  | under, nil =>
    ⟨u8 (code - under), node ⟨new, u8 (code - under), update⟩ nil nil, ⟨new, 0, 0⟩, false⟩
  | under, node entry left right =>
    if under + (left.weight + entry.count) + (entry.value + 1) * minimum ≤ code then
      let sought := seek code minimum update new (under + (left.weight + entry.count)) right
      { sought with
        tree := node entry left sought.tree
        coded :=
          { sought.coded with under := left.weight + entry.count + sought.coded.under } }
    else if code < under + left.weight + entry.value * minimum then
      let sought := seek code minimum update new under left
      { sought with tree := node entry sought.tree right }
    else
      ⟨entry.value, node { entry with count := entry.count + update } left right,
        ⟨entry.index, left.weight, entry.count⟩, true⟩

theorem seek_grown (code minimum update new : Nat) (tree : CodeTree) : ∀ under,
    Grown (tree.seek code minimum update new under).value update new tree
      (tree.seek code minimum update new under).tree
      (tree.seek code minimum update new under).coded
      (tree.seek code minimum update new under).found := by
  induction tree with
  | nil => exact fun under => .nil _ update new
  | node entry left right ihLeft ihRight =>
      intro under
      unfold seek
      split
      next => exact (ihRight _).inRight entry left
      next =>
          split
          next => exact (ihLeft under).inLeft entry right
          next => exact .here entry update new left right

/-- The value is a byte. -/
theorem seek_value_lt {code minimum update new : Nat} {tree : CodeTree}
    (bytes : ∀ entry ∈ tree.entries, entry.value < 256) :
    ∀ under, (tree.seek code minimum update new under).value < 256 := by
  induction tree with
  | nil => exact fun under => Nat.mod_lt _ (by decide)
  | node entry left right ihLeft ihRight =>
      intro under
      rw [entries_node] at bytes
      unfold seek
      split
      next =>
          exact ihRight (fun other member =>
            bytes other (List.mem_append_right _ (List.mem_cons_of_mem _ member))) _
      next =>
          split
          next => exact ihLeft (fun other member => bytes other (List.mem_append_left _ member)) _
          next => exact bytes entry (List.mem_append_right _ List.mem_cons_self)

/-- **A code in the share of a value leads to the value**, wherever the tree looks for it. -/
theorem seek_of_share {value code minimum update new : Nat} (least : minimum ≤ 1)
    (byte : value < 256) (tree : CodeTree) : ∀ under : Nat,
    under + (value * minimum + (tree.locate value new).under) ≤ code →
    code < under + (value * minimum + (tree.locate value new).under) +
      (minimum + (tree.locate value new).count) →
    tree.seek code minimum update new under =
      ⟨value, tree.insert value update new, tree.locate value new, tree.finds value⟩ := by
  induction tree with
  | nil =>
      intro under low high
      unfold locate at low high
      dsimp only at low high
      have one : minimum = 1 := by omega
      subst one
      have exact' : u8 (code - under) = value := by
        dsimp only [u8]
        omega
      unfold seek insert locate finds
      rw [exact']
  | node entry left right ihLeft ihRight =>
      intro under low high
      have next : (entry.value + 1) * minimum = entry.value * minimum + minimum :=
        Nat.succ_mul _ _
      unfold locate at low high
      unfold seek insert locate finds
      by_cases less : value < entry.value
      · rw [if_pos less] at low high
        have within := (insert_grown value update new left).le_weight
        have before : (value + 1) * minimum ≤ entry.value * minimum :=
          Nat.mul_le_mul_right _ less
        rw [Nat.succ_mul] at before
        rw [if_neg (by omega), if_pos (by omega), if_pos less, if_pos less, if_pos less,
          ihLeft under low high]
      · rw [if_neg less] at low high
        by_cases greater : entry.value < value
        · rw [if_pos greater] at low high
          dsimp only at low high
          have behind : (entry.value + 1) * minimum ≤ value * minimum :=
            Nat.mul_le_mul_right _ greater
          rw [if_pos (by omega), if_neg less, if_neg less, if_neg less, if_pos greater,
            if_pos greater, if_pos greater,
            ihRight (under + (left.weight + entry.count)) (by omega) (by omega)]
        · rw [if_neg greater] at low high
          dsimp only at low high
          obtain rfl : entry.value = value := by omega
          rw [if_neg (by omega), if_neg (by omega), if_neg less, if_neg less, if_neg less]
          simp only [Nat.lt_irrefl, if_false]

end CodeTree

/-! ## The walk -/

theorem Coding.ok_bind {α β : Type} (value : α) (next : α → Coding β) :
    ((.ok value : Coding α) >>= next) = next value := rfl

namespace RangeCoder

variable {coder : RangeCoder} {index : Nat} {change : CodeSymbol → CodeSymbol}

theorem symbol_of_lt (inside : index < rangeCoderSymbols) :
    coder.symbol index = .ok (coder.symbols index) := if_pos inside

theorem modify_of_lt (inside : index < rangeCoderSymbols) :
    coder.modify index change = .ok (coder.write index change) := if_pos inside

theorem symbolCreate_of_lt (value count : Nat) (room : coder.nextSymbol < rangeCoderSymbols) :
    coder.symbolCreate value count = .ok (coder.create value count, coder.nextSymbol) := by
  unfold symbolCreate
  rw [modify_of_lt room]
  rfl

end RangeCoder

/-- Where the walk of the decoder ends, and what is left to do to the table: nothing where
the value has a symbol, else to create the symbol and to link it. -/
inductive Leads (code minimum update under count : Nat) (coder coder' : RangeCoder)
    (base offset : Nat) (tree : CodeTree) (sought : CodeTree.Sought) :
    DecodeEnd → Prop where
  | found (present : sought.found = true)
      (grows : Grows coder coder' base offset tree sought.tree true) :
      Leads code minimum update under count coder coder' base offset tree sought
        (.found sought.value
          ⟨sought.coded.symbol, under + sought.value * minimum + sought.coded.under,
            count + sought.coded.count⟩)
  | toLeft {node after before : Nat} (absent : sought.found = false)
      (inside : node < coder.nextSymbol) (next : coder'.nextSymbol = coder.nextSymbol)
      (value : minimum = 1 → u8 ((coder'.symbols node).value + 65536 - 1 -
        (after - before - code - 1)) = sought.value)
      (grows : Grows coder ((coder'.create sought.value update).write node
        (·.setLeft (coder.nextSymbol - node))) base offset tree sought.tree false) :
      Leads code minimum update under count coder coder' base offset tree sought
        (.toLeft node after before)
  | toRight {node after : Nat} (absent : sought.found = false)
      (inside : node < coder.nextSymbol) (next : coder'.nextSymbol = coder.nextSymbol)
      (value : minimum = 1 → u8 ((coder'.symbols node).value + 1 + (code - after)) = sought.value)
      (grows : Grows coder ((coder'.create sought.value update).write node
        (·.setRight (coder.nextSymbol - node))) base offset tree sought.tree false) :
      Leads code minimum update under count coder coder' base offset tree sought
        (.toRight node after)

namespace Leads

variable {code minimum update under count base offset : Nat} {coder coder' : RangeCoder}
  {entry : CodeEntry} {left right : CodeTree} {sought : CodeTree.Sought}
  {last : DecodeEnd}

/-- A walk that goes on to the left of a node. -/
theorem intoLeft (holds : Holds coder.symbols base offset (.node entry left right))
    (distinct : (CodeTree.node entry left right).indices.Nodup)
    (inside : ∀ index ∈ (CodeTree.node entry left right).indices, index < coder.nextSymbol)
    (weight : sought.tree.weight = left.weight + update)
    (leads : Leads code minimum update under count
      (coder.write entry.index (·.setUnder (left.weight + entry.count + update))) coder'
      entry.index (coder.symbols entry.index).left left sought last) :
    Leads code minimum update under count coder coder' base offset (.node entry left right)
      { sought with tree := .node entry sought.tree right } last := by
  cases leads with
  | found present grows => exact .found present (.intoLeft holds distinct inside weight grows)
  | toLeft absent below next value grows =>
      exact .toLeft absent below next value (.intoLeft holds distinct inside weight grows)
  | toRight absent below next value grows =>
      exact .toRight absent below next value (.intoLeft holds distinct inside weight grows)

/-- A walk that goes on to the right of a node. -/
theorem intoRight (holds : Holds coder.symbols base offset (.node entry left right))
    (distinct : (CodeTree.node entry left right).indices.Nodup)
    (inside : ∀ index ∈ (CodeTree.node entry left right).indices, index < coder.nextSymbol)
    (leads : Leads code minimum update (under + (left.weight + entry.count)) count coder coder'
      entry.index (coder.symbols entry.index).right right sought last) :
    Leads code minimum update under count coder coder' base offset (.node entry left right)
      { sought with
        tree := .node entry left sought.tree
        coded :=
          { sought.coded with under := left.weight + entry.count + sought.coded.under } }
      last := by
  cases leads with
  | found present grows =>
      have ends := @found code minimum update under count coder coder' base offset
        (.node entry left right)
        { sought with
          tree := .node entry left sought.tree
          coded :=
            { sought.coded with under := left.weight + entry.count + sought.coded.under } }
        present (.intoRight holds distinct inside grows)
      have sums : under + (left.weight + entry.count) + sought.value * minimum +
          sought.coded.under =
          under + sought.value * minimum + (left.weight + entry.count + sought.coded.under) := by
        omega
      rw [sums]
      exact ends
  | toLeft absent below next value grows =>
      exact .toLeft absent below next value (.intoRight holds distinct inside grows)
  | toRight absent below next value grows =>
      exact .toRight absent below next value (.intoRight holds distinct inside grows)

end Leads

namespace RangeCoder

/-- **A turn of the walk of `ENET_CONTEXT_DECODE`** at a node of the tree, where no sum
wraps: the code stands behind the node, before it, or for it. -/
theorem decodeWalk_turn {code minimum update : Nat} {entry : CodeEntry} {left right : CodeTree}
    {coder : RangeCoder} {base offset fuel under count : Nat}
    (holds : Holds coder.symbols base offset (.node entry left right))
    (table : entry.index < rangeCoderSymbols) (byte : entry.value < 256)
    (bound : entry.count + update < 256)
    (fits : under + (left.weight + entry.count) + update + 256 * minimum < 65536)
    (low : count < 256) :
    decodeWalk code update minimum (fuel + 1) coder (base + offset) under count =
      if under + (left.weight + entry.count) + (entry.value + 1) * minimum ≤ code then
        if (coder.symbols entry.index).right ≠ 0 then
          decodeWalk code update minimum fuel coder
            (entry.index + (coder.symbols entry.index).right)
            (under + (left.weight + entry.count)) count
        else .ok (coder, .toRight entry.index
          (under + (left.weight + entry.count) + (entry.value + 1) * minimum))
      else if code < under + left.weight + entry.value * minimum then
        if (coder.symbols entry.index).left ≠ 0 then
          decodeWalk code update minimum fuel
            (coder.write entry.index (·.setUnder (left.weight + entry.count + update)))
            (entry.index + (coder.symbols entry.index).left) under count
        else .ok (coder.write entry.index (·.setUnder (left.weight + entry.count + update)),
          .toLeft entry.index
            (under + (left.weight + entry.count) + (entry.value + 1) * minimum)
            (entry.count + minimum))
      else .ok (coder.write entry.index
          (·.setCount (entry.count + update) (left.weight + entry.count + update)),
        .found entry.value ⟨entry.index, under + entry.value * minimum + left.weight,
          count + entry.count⟩) := by
  obtain ⟨-, here, sameValue, sameCount, sameUnder, -, -⟩ := holds
  have scaled : (entry.value + 1) * minimum ≤ 256 * minimum := Nat.mul_le_mul_right _ byte
  have next : (entry.value + 1) * minimum = entry.value * minimum + minimum :=
    Nat.succ_mul _ _
  have after : u16 (under + (left.weight + entry.count) + (entry.value + 1) * minimum) =
      under + (left.weight + entry.count) + (entry.value + 1) * minimum :=
    Nat.mod_eq_of_lt (by omega)
  have before : u16 (entry.count + minimum) = entry.count + minimum :=
    Nat.mod_eq_of_lt (by omega)
  have counted : u16 (under + (left.weight + entry.count)) =
      under + (left.weight + entry.count) := Nat.mod_eq_of_lt (by omega)
  have updated : u16 (left.weight + entry.count + update) =
      left.weight + entry.count + update := Nat.mod_eq_of_lt (by omega)
  have counts : u8 (entry.count + update) = entry.count + update := Nat.mod_eq_of_lt bound
  have total : u16 (count + entry.count) = count + entry.count := Nat.mod_eq_of_lt (by omega)
  have share : sub16 (under + (left.weight + entry.count) + (entry.value + 1) * minimum)
      (entry.count + minimum) = under + entry.value * minimum + left.weight := by
    unfold sub16
    rw [if_pos (by omega)]
    omega
  have less : code + (entry.count + minimum) < under + (left.weight + entry.count) +
      (entry.value + 1) * minimum ↔ code < under + left.weight + entry.value * minimum := by
    omega
  rw [decodeWalk, ← here, symbol_of_lt table, Coding.ok_bind]
  dsimp only
  rw [sameValue, sameCount, sameUnder, after, before, counted, updated, counts, total, share,
    modify_of_lt table, modify_of_lt table, Coding.ok_bind, Coding.ok_bind]
  simp only [less]
  rfl

/-- **The walk of `ENET_CONTEXT_DECODE` ends**, for any code and any tree, and leads to
what the code stands for in the tree. -/
theorem decodeWalk_leads {code minimum update : Nat} {tree : CodeTree} :
    ∀ {coder : RangeCoder} {base offset fuel under : Nat} (count : Nat),
    Holds coder.symbols base offset tree → offset ≠ 0 → tree.indices.Nodup →
    (∀ index ∈ tree.indices, index < coder.nextSymbol) →
    coder.nextSymbol ≤ rangeCoderSymbols → minimum ≤ 1 → update < 256 →
    (∀ entry ∈ tree.entries, entry.value < 256) →
    (∀ entry ∈ tree.entries, entry.count + update < 256) →
    under + tree.weight + update + 256 * minimum < 65536 → under ≤ code → count < 256 →
    rangeCoderSymbols ≤ fuel + (base + offset) →
    ∃ coder' last, decodeWalk code update minimum fuel coder (base + offset) under count =
        .ok (coder', last) ∧
      Leads code minimum update under count coder coder' base offset tree
        (tree.seek code minimum update coder.nextSymbol under) last := by
  induction tree with
  | nil => intro coder base offset fuel under count holds linked; exact absurd holds linked
  | node entry left right ihLeft ihRight =>
      intro coder base offset fuel under count holds linked distinct inside room least small bytes
        counts fits passed low enough
      obtain ⟨-, here, sameValue, -, -, holdsLeft, holdsRight⟩ := id holds
      obtain ⟨distinctLeft, distinctRight, -, -, -⟩ := CodeTree.nodup_node distinct
      have own : entry.index < coder.nextSymbol :=
        inside _ (CodeTree.mem_indices_node.mpr (.inr (.inl rfl)))
      have table : entry.index < rangeCoderSymbols := Nat.lt_of_lt_of_le own room
      rw [CodeTree.weight_node] at fits
      rw [CodeTree.entries_node] at bytes counts
      rw [← here] at enough
      cases fuel with
      | zero => omega
      | succ fuel =>
          rw [decodeWalk_turn holds table (bytes entry (by simp)) (counts entry (by simp))
            (by omega) low]
          unfold CodeTree.seek
          split
          next beyond =>
              split
              next linked =>
                  -- the walk goes on to the right
                  obtain ⟨coder', last, walks, leads⟩ := @ihRight _ _ _ fuel
                    (under + (left.weight + entry.count)) count holdsRight linked distinctRight
                    (fun index member =>
                      inside index (CodeTree.mem_indices_node.mpr (.inr (.inr member))))
                    room least small (fun other member =>
                      bytes other (List.mem_append_right _ (List.mem_cons_of_mem _ member)))
                    (fun other member =>
                      counts other (List.mem_append_right _ (List.mem_cons_of_mem _ member)))
                    (by omega) (Nat.le_trans (Nat.le_add_right _ _) beyond) low (by omega)
                  exact ⟨coder', last, walks, .intoRight holds distinct inside leads⟩
              next unlinked =>
                  -- a new symbol would be the right one
                  have unlinked := Decidable.not_not.mp unlinked
                  have empty : right = .nil := holdsRight.nil_iff.mp unlinked
                  subst empty
                  refine ⟨coder, _, rfl, .toRight rfl own rfl ?_
                    (.newRight holds distinct inside (Nat.mod_lt _ (by decide)) small)⟩
                  rintro rfl
                  rw [sameValue]
                  unfold CodeTree.seek
                  dsimp only [u8]
                  omega
          next within =>
              split
              next less =>
                  split
                  next linked =>
                      -- the walk goes on to the left
                      obtain ⟨coder', last, walks, leads⟩ := @ihLeft _ _ _ fuel under count
                        (holds_left holds distinct) linked distinctLeft
                        (fun index member =>
                          inside index (CodeTree.mem_indices_node.mpr (.inl member)))
                        room least small
                        (fun other member => bytes other (List.mem_append_left _ member))
                        (fun other member => counts other (List.mem_append_left _ member))
                        (by omega) passed low (by omega)
                      exact ⟨coder', last, walks, .intoLeft holds distinct inside
                        (CodeTree.seek_grown ..).weight leads⟩
                  next unlinked =>
                      -- a new symbol would be the left one
                      have unlinked := Decidable.not_not.mp unlinked
                      have empty : left = .nil := holdsLeft.nil_iff.mp unlinked
                      subst empty
                      refine ⟨_, _, rfl, .toLeft rfl own rfl ?_
                        (.newLeft holds distinct inside (Nat.mod_lt _ (by decide)) small)⟩
                      rintro rfl
                      have byte : entry.value < 256 := bytes entry (by simp)
                      rw [write_self]
                      unfold CodeTree.seek
                      dsimp only [u8, CodeSymbol.setUnder, CodeTree.weight_nil] at less ⊢
                      rw [sameValue]
                      omega
              next found => exact ⟨_, _, rfl, .found rfl (.ofSame holds distinct update)⟩

/-! ## Contexts -/

variable {coder : RangeCoder} {context code : Nat} {tree : CodeTree}

/-- **`ENET_CONTEXT_TRY_DECODE` counts the symbol of a code**, or ends the function where
the code has no symbol. -/
theorem contextTryDecode_seeks (inside : context < coder.nextSymbol)
    (holds : Holds coder.symbols context (coder.symbols context).symbols tree)
    (distinct : tree.indices.Nodup) (below : ∀ index ∈ tree.indices, index < coder.nextSymbol)
    (room : coder.nextSymbol ≤ rangeCoderSymbols)
    (bytes : ∀ entry ∈ tree.entries, entry.value < 256)
    (counts : ∀ entry ∈ tree.entries, entry.count + subcontextSymbolDelta < 256)
    (fits : tree.weight + subcontextSymbolDelta < 65536) :
    ∃ coder', coder.contextTryDecode context code =
        (if (tree.seek code 0 subcontextSymbolDelta coder.nextSymbol 0).found then
          .ok (coder', (tree.seek code 0 subcontextSymbolDelta coder.nextSymbol 0).value,
            (tree.seek code 0 subcontextSymbolDelta coder.nextSymbol 0).coded)
        else .error .nothing) ∧
      ((tree.seek code 0 subcontextSymbolDelta coder.nextSymbol 0).found = true →
        Encodes coder coder' context tree
          (tree.seek code 0 subcontextSymbolDelta coder.nextSymbol 0).tree true) := by
  have table : context < rangeCoderSymbols := Nat.lt_of_lt_of_le inside room
  have away : context ∉ tree.indices := fun member => Nat.lt_irrefl _ (holds.above _ member)
  unfold contextTryDecode
  rw [symbol_of_lt table, Coding.ok_bind]
  split
  next unlinked =>
      have empty : tree = .nil := holds.nil_iff.mp unlinked
      subst empty
      exact ⟨coder, rfl, fun found => nomatch found⟩
  next linked =>
      obtain ⟨coder', last, walks, leads⟩ := @decodeWalk_leads code 0 subcontextSymbolDelta tree
        coder context (coder.symbols context).symbols rangeCoderSymbols 0 0 holds linked distinct
        below room (by decide) (by decide) bytes counts (by omega) (Nat.zero_le _) (by decide)
        (Nat.le_add_right _ _)
      rw [walks, Coding.ok_bind]
      generalize tree.seek code 0 subcontextSymbolDelta coder.nextSymbol 0 = sought at leads ⊢
      refine ⟨coder', ?_, ?_⟩
      · cases leads with
        | found present grows =>
            rw [if_pos present, Nat.mul_zero, Nat.add_zero, Nat.zero_add, Nat.zero_add]
            rfl
        | toLeft absent =>
            rw [absent]
            rfl
        | toRight absent =>
            rw [absent]
            rfl
      · intro present
        cases leads with
        | found present grows => exact .ofGrows rfl inside away grows
        | toLeft absent =>
            rw [absent] at present
            cases present
        | toRight absent =>
            rw [absent] at present
            cases present

/-- **`ENET_CONTEXT_ROOT_DECODE` counts the symbol of a code**, and creates it where the
code has none. -/
theorem contextRootDecode_seeks (inside : 0 < coder.nextSymbol)
    (holds : Holds coder.symbols 0 (coder.symbols 0).symbols tree)
    (distinct : tree.indices.Nodup) (below : ∀ index ∈ tree.indices, index < coder.nextSymbol)
    (room : coder.nextSymbol < rangeCoderSymbols)
    (bytes : ∀ entry ∈ tree.entries, entry.value < 256)
    (counts : ∀ entry ∈ tree.entries, entry.count + contextSymbolDelta < 256)
    (fits : tree.weight + contextSymbolDelta + 256 < 65536) :
    ∃ coder', coder.contextRootDecode code = .ok (coder',
        (tree.seek code 1 contextSymbolDelta coder.nextSymbol 0).value,
        ⟨(tree.seek code 1 contextSymbolDelta coder.nextSymbol 0).coded.symbol,
          if (tree.seek code 1 contextSymbolDelta coder.nextSymbol 0).found then
            (tree.seek code 1 contextSymbolDelta coder.nextSymbol 0).value +
              (tree.seek code 1 contextSymbolDelta coder.nextSymbol 0).coded.under
          else code,
          1 + (tree.seek code 1 contextSymbolDelta coder.nextSymbol 0).coded.count⟩) ∧
      Encodes coder coder' 0 tree (tree.seek code 1 contextSymbolDelta coder.nextSymbol 0).tree
        (tree.seek code 1 contextSymbolDelta coder.nextSymbol 0).found := by
  have table : 0 < rangeCoderSymbols := by decide
  have away : 0 ∉ tree.indices := fun member => Nat.lt_irrefl _ (holds.above _ member)
  have last : coder.nextSymbol < 4096 := room
  unfold contextRootDecode
  rw [symbol_of_lt table, Coding.ok_bind]
  split
  next unlinked =>
      have empty : tree = .nil := holds.nil_iff.mp unlinked
      subst empty
      have offset : u16 coder.nextSymbol = coder.nextSymbol - 0 := Nat.mod_eq_of_lt (by omega)
      dsimp only [contextSymbolMinimum]
      rw [symbolCreate_of_lt _ _ room, Coding.ok_bind]
      dsimp only
      rw [modify_of_lt table, Coding.ok_bind, Nat.div_one, Nat.mod_one, Nat.sub_zero, offset]
      exact ⟨_, rfl, .first inside (Nat.mod_lt _ (by decide)) (by decide)⟩
  next linked =>
      have grown := CodeTree.seek_grown code 1 contextSymbolDelta coder.nextSymbol tree 0
      obtain ⟨coder', last, walks, leads⟩ := @decodeWalk_leads code 1 contextSymbolDelta tree
        coder 0 (coder.symbols 0).symbols rangeCoderSymbols 0 1 holds linked distinct
        below (Nat.le_of_lt room) (by decide) (by decide) bytes counts (by omega) (Nat.zero_le _)
        (by decide) (Nat.le_add_right _ _)
      rw [Nat.zero_add] at walks
      dsimp only [contextSymbolMinimum]
      rw [walks, Coding.ok_bind]
      generalize tree.seek code 1 contextSymbolDelta coder.nextSymbol 0 = sought at leads grown ⊢
      obtain ⟨value, tree', coded, found⟩ := sought
      dsimp only at grown ⊢
      cases leads with
      | found present grows =>
          dsimp only at present
          subst present
          refine ⟨coder', ?_, .ofGrows rfl inside away grows⟩
          dsimp only
          rw [Nat.mul_one, Nat.zero_add]
          rfl
      | @toLeft node after before absent below next same grows =>
          dsimp only at absent same grows
          subst absent
          obtain ⟨symbol, none⟩ := grown.of_absent
          have inTable : node < rangeCoderSymbols := below.trans room
          have offset : u16 (coder'.nextSymbol - node) = coder.nextSymbol - node := by
            rw [next]
            exact Nat.mod_eq_of_lt (by omega)
          dsimp only
          rw [symbol_of_lt inTable, Coding.ok_bind]
          rw [Nat.div_one, same rfl, symbolCreate_of_lt _ _ (next ▸ room), Coding.ok_bind,
            Nat.mod_one, Nat.sub_zero]
          dsimp only
          rw [modify_of_lt inTable, Coding.ok_bind, offset, next, symbol, none]
          exact ⟨_, rfl, .ofGrows rfl inside away grows⟩
      | @toRight node after absent below next same grows =>
          dsimp only at absent same grows
          subst absent
          obtain ⟨symbol, none⟩ := grown.of_absent
          have inTable : node < rangeCoderSymbols := below.trans room
          have offset : u16 (coder'.nextSymbol - node) = coder.nextSymbol - node := by
            rw [next]
            exact Nat.mod_eq_of_lt (by omega)
          dsimp only
          rw [symbol_of_lt inTable, Coding.ok_bind]
          rw [Nat.div_one, same rfl, symbolCreate_of_lt _ _ (next ▸ room), Coding.ok_bind,
            Nat.mod_one, Nat.sub_zero]
          dsimp only
          rw [modify_of_lt inTable, Coding.ok_bind, offset, next, symbol, none]
          exact ⟨_, rfl, .ofGrows rfl inside away grows⟩

end RangeCoder

end Enet
