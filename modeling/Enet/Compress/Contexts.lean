import Enet.Compress.Walks

/-!
# Contexts

What coding a value in a context and counting it there do to the table: the tree
of the context changes, and the rest of the table stays. The numbers of a context
agree with its tree before and after, and they fit their fields at every point in
between.
-/

set_option autoImplicit false

namespace Enet

/-! ## The numbers of a context -/

/-- The minimum of a context. -/
def contextMinimum (context : Nat) : Nat := if context = 0 then contextSymbolMinimum else 0

/-- What a symbol of a context counts. -/
def contextDelta (context : Nat) : Nat :=
  if context = 0 then contextSymbolDelta else subcontextSymbolDelta

/-- The numbers of a context agree with its tree. -/
structure Books (coder : RangeCoder) (context : Nat) (tree : CodeTree) : Prop where
  small : ∀ entry ∈ tree.entries, entry.count + contextDelta context ≤ 255
  total : (coder.symbols context).total =
    (coder.symbols context).escapes + tree.weight + 256 * contextMinimum context
  bounded : (coder.symbols context).total ≤ rangeCoderBottom - 0x100
  escapes : tree ≠ .nil ∨ context = 0 → 0 < (coder.symbols context).escapes

/-! ## Kinds of trees -/

/-- A tree of bytes that are counted. -/
structure Sound (tree : CodeTree) : Prop where
  bytes : ∀ entry ∈ tree.entries, entry.value < 256
  counted : ∀ entry ∈ tree.entries, 0 < entry.count

/-- A tree that can be searched. -/
structure Ordered (tree : CodeTree) : Prop extends Sound tree where
  ascending : tree.values.Pairwise (· < ·)

/-- A kind of trees that insertion and halving stay within. -/
structure TreeKind (Kind : CodeTree → Prop) : Prop where
  nil : Kind .nil
  sound : ∀ {tree}, Kind tree → Sound tree
  halve : ∀ {tree}, Kind tree → Kind tree.halve
  insert : ∀ {tree value update} (new : Nat), Kind tree → value < 256 → 0 < update →
    Kind (tree.insert value update new)

namespace Sound

variable {tree tree' : CodeTree}

theorem nil : Sound .nil :=
  ⟨fun _ member => absurd member List.not_mem_nil, fun _ member => absurd member List.not_mem_nil⟩

theorem halve (sound : Sound tree) : Sound tree.halve := by
  refine ⟨fun halved member => ?_, fun halved member => ?_⟩
  all_goals
    rw [CodeTree.halve_entries] at member
    obtain ⟨entry, inTree, rfl⟩ := List.mem_map.mp member
  · exact sound.bytes entry inTree
  · have := sound.counted entry inTree
    dsimp only
    omega

theorem grown {value update new : Nat} {coded : CodedSymbol} {found : Bool} (sound : Sound tree)
    (grown : CodeTree.Grown value update new tree tree' coded found) (byte : value < 256)
    (positive : 0 < update) : Sound tree' := by
  obtain ⟨bytes, counted⟩ := sound
  refine ⟨fun entry member => ?_, fun entry member => ?_⟩
  · cases grown with
    | found before after other split same grown =>
        rw [split] at bytes
        rw [grown, List.mem_append, List.mem_cons] at member
        rcases member with member | rfl | member
        · exact bytes entry (by simp [member])
        · exact bytes other (by simp)
        · exact bytes entry (by simp [member])
    | created before after split grown =>
        rw [split] at bytes
        rw [grown, List.mem_append, List.mem_cons] at member
        rcases member with member | rfl | member
        · exact bytes entry (by simp [member])
        · exact byte
        · exact bytes entry (by simp [member])
  · rcases grown.counts member with ⟨old, inTree, same⟩ | same
    · rw [same]
      exact counted old inTree
    · rw [same]
      exact Nat.add_pos_right _ positive

theorem kind : TreeKind Sound where
  nil := nil
  sound := id
  halve := halve
  insert := fun new sound byte positive =>
    sound.grown (CodeTree.insert_grown _ _ new _) byte positive

end Sound

theorem CodeTree.halve_values (tree : CodeTree) : tree.halve.values = tree.values := by
  unfold values
  rw [halve_entries, List.map_map]
  rfl

theorem Ordered.kind : TreeKind Ordered where
  nil := ⟨.nil, .nil⟩
  sound := Ordered.toSound
  halve := fun ordered => ⟨ordered.toSound.halve, by
    rw [CodeTree.halve_values]
    exact ordered.ascending⟩
  insert := fun new ordered byte positive =>
    ⟨ordered.toSound.grown (CodeTree.insert_grown _ _ new _) byte positive,
      CodeTree.ascending_insert ordered.ascending⟩

/-- The symbols of a tree are entries of the table. -/
theorem CodeTree.length_le {tree : CodeTree} {limit : Nat} (distinct : tree.indices.Nodup)
    (below : ∀ index ∈ tree.indices, index < limit) : tree.entries.length ≤ limit := by
  have within : tree.indices ⊆ List.range limit :=
    fun index member => List.mem_range.mpr (below index member)
  have short := (List.subperm_of_subset distinct within).length_le
  rwa [CodeTree.indices, List.length_map, List.length_range] at short

/-! ## Changes of one context -/

/-- A change of the table that concerns one context and its tree only, and new symbols. -/
structure Changes (coder coder' : RangeCoder) (context : Nat) (tree : CodeTree) : Prop where
  outside : ∀ index, index ∉ tree.indices → index ≠ context → index < coder.nextSymbol →
    coder'.symbols index = coder.symbols index
  contexts : ∀ index ∈ tree.indices, (coder.symbols index).SameContext (coder'.symbols index)
  own : (coder.symbols context).SameNode (coder'.symbols context)
  parent : (coder'.symbols context).parent = (coder.symbols context).parent
  predicted : coder'.predicted = coder.predicted
  order : coder'.order = coder.order

namespace Changes

variable {coder coder' coder'' : RangeCoder} {context : Nat} {tree tree' : CodeTree}

/-- A change of the tree alone. -/
theorem ofRegrows (regrows : Regrows coder coder' tree) (away : context ∉ tree.indices)
    (below : context < coder.nextSymbol) : Changes coder coder' context tree := by
  have same := regrows.outside context away below
  exact ⟨fun index away _ => regrows.outside index away, regrows.contexts,
    same ▸ CodeSymbol.SameNode.refl _, congrArg CodeSymbol.parent same, regrows.predicted,
    regrows.order⟩

/-- A change of what the context holds. -/
theorem write {change : CodeSymbol → CodeSymbol} (away : context ∉ tree.indices)
    (same : ∀ symbol, CodeSymbol.SameNode symbol (change symbol))
    (parent : ∀ symbol, (change symbol).parent = symbol.parent) :
    Changes coder (coder.write context change) context tree where
  outside := fun index _ different _ => RangeCoder.write_of_ne different
  contexts := by
    intro index member
    rw [RangeCoder.write_of_ne fun same : index = context => away (same ▸ member)]
    exact CodeSymbol.SameContext.refl _
  own := by
    rw [RangeCoder.write_self]
    exact same _
  parent := by
    rw [RangeCoder.write_self]
    exact parent _
  predicted := rfl
  order := rfl

theorem trans (first : Changes coder coder' context tree)
    (second : Changes coder' coder'' context tree')
    (grows : coder.nextSymbol ≤ coder'.nextSymbol) (same : tree'.indices = tree.indices) :
    Changes coder coder'' context tree where
  outside := fun index away different below =>
    (second.outside index (same ▸ away) different (Nat.lt_of_lt_of_le below grows)).trans
      (first.outside index away different below)
  contexts := fun index member =>
    (first.contexts index member).trans (second.contexts index (same ▸ member))
  own := first.own.trans second.own
  parent := second.parent.trans first.parent
  predicted := second.predicted.trans first.predicted
  order := second.order.trans first.order

end Changes

/-! ## Coding a value -/

/-- What counting a value in the tree of a context does to the table. -/
structure Encodes (coder coder' : RangeCoder) (context : Nat) (tree tree' : CodeTree)
    (found : Bool) : Prop extends Changes coder coder' context tree where
  holds : Holds coder'.symbols context (coder'.symbols context).symbols tree'
  escapes : (coder'.symbols context).escapes = (coder.symbols context).escapes
  total : (coder'.symbols context).total = (coder.symbols context).total
  next : coder'.nextSymbol = if found then coder.nextSymbol else coder.nextSymbol + 1
  created : found = false →
    CodeSymbol.SameContext (RangeCoder.newSymbol 0 0) (coder'.symbols coder.nextSymbol)

namespace Encodes

variable {context : Nat} {coder coder' : RangeCoder} {tree tree' : CodeTree} {found : Bool}

theorem nextSymbol_le (encodes : Encodes coder coder' context tree tree' found) :
    coder.nextSymbol ≤ coder'.nextSymbol := by
  rw [encodes.next]
  split
  · exact Nat.le_refl _
  · exact Nat.le_succ _

/-- A symbol is created where the value has none. -/
theorem absent (encodes : Encodes coder coder' context tree tree' found)
    (created : coder'.nextSymbol ≠ coder.nextSymbol) : found = false := by
  cases found with
  | false => rfl
  | true => exact absurd encodes.next created

/-- A change of a tree that is not empty. -/
theorem ofGrows {offset : Nat} (linked : (coder.symbols context).symbols = offset)
    (inside : context < coder.nextSymbol) (away : context ∉ tree.indices)
    (grows : Grows coder coder' context offset tree tree' found) :
    Encodes coder coder' context tree tree' found := by
  have same := grows.outside context away inside
  refine ⟨.ofRegrows grows.toRegrows away inside, ?_, ?_, ?_, grows.next, grows.created⟩
  · rw [same, linked]
    exact grows.holds
  · rw [same]
  · rw [same]

/-- The first symbol of a context. -/
theorem first {value update : Nat} (inside : context < coder.nextSymbol) (byte : value < 256)
    (small : update < 256) :
    Encodes coder ((coder.create value update).write context
      (·.setSymbols (coder.nextSymbol - context))) context .nil
      (.node ⟨coder.nextSymbol, value, update⟩ .nil .nil) false := by
  have fresh : coder.nextSymbol ≠ context := Ne.symm (Nat.ne_of_lt inside)
  have node : ((coder.create value update).write context
      (·.setSymbols (coder.nextSymbol - context))).symbols context =
      (coder.symbols context).setSymbols (coder.nextSymbol - context) := by
    rw [RangeCoder.write_self, RangeCoder.create_of_ne _ _ (Ne.symm fresh)]
  refine ⟨⟨?_, fun index member => absurd member List.not_mem_nil, ?_, ?_, rfl, rfl⟩, ?_, ?_, ?_,
    rfl, ?_⟩
  · intro index _ different below
    rw [RangeCoder.write_of_ne different, RangeCoder.create_of_ne _ _ (Nat.ne_of_lt below)]
  · rw [node]
    exact ⟨rfl, rfl, rfl, rfl, rfl⟩
  · rw [node]
    rfl
  · rw [node]
    refine RangeCoder.holds_create byte small inside ?_
    rw [RangeCoder.write_of_ne fresh, RangeCoder.create_self]
  · rw [node]
    rfl
  · rw [node]
    rfl
  · intro _
    rw [RangeCoder.write_of_ne fresh, RangeCoder.create_self]
    exact RangeCoder.newSymbol_sameContext value update

end Encodes

namespace RangeCoder

variable {coder : RangeCoder} {context : Nat} {tree : CodeTree}

/-- **`ENET_CONTEXT_ENCODE` is an insertion** into the tree of the context. -/
theorem contextEncodeChecked_encodes {value update minimum : Nat}
    (inside : context < coder.nextSymbol)
    (holds : Holds coder.symbols context (coder.symbols context).symbols tree)
    (distinct : tree.indices.Nodup) (below : ∀ index ∈ tree.indices, index < coder.nextSymbol)
    (room : coder.nextSymbol < rangeCoderSymbols) (byte : value < 256) (small : update < 256)
    (least : minimum ≤ 1) (counts : ∀ entry ∈ tree.entries, entry.count + update < 256)
    (fits : value * minimum + tree.weight + update < 65536) :
    ∃ coder', coder.contextEncodeChecked context value update minimum = .ok (coder',
        ⟨(tree.locate value coder.nextSymbol).symbol,
          value * minimum + (tree.locate value coder.nextSymbol).under,
          minimum + (tree.locate value coder.nextSymbol).count⟩) ∧
      Encodes coder coder' context tree (tree.insert value update coder.nextSymbol)
        (tree.finds value) := by
  have table : context < rangeCoderSymbols := inside.trans room
  have last : coder.nextSymbol < 4096 := room
  have away : context ∉ tree.indices := fun member => Nat.lt_irrefl _ (holds.above _ member)
  unfold contextEncodeChecked
  rw [symbol_checked table, CheckedCoding.ok_bind, fit16_of_lt (by omega), CheckedCoding.ok_bind]
  split
  next unlinked =>
      have empty : tree = .nil := holds.nil_iff.mp unlinked
      subst empty
      rw [symbolCreateChecked_of_lt byte small room, CheckedCoding.ok_bind]
      dsimp only
      rw [minus_of_le (by omega), CheckedCoding.ok_bind, fit16_of_lt (by omega),
        CheckedCoding.ok_bind, modify_checked table, CheckedCoding.ok_bind]
      exact ⟨_, rfl, .first inside byte small⟩
  next linked =>
      obtain ⟨coder', walks, grows⟩ := @encodeWalkChecked_inserts value update tree coder context
        (coder.symbols context).symbols rangeCoderSymbols (value * minimum) minimum holds linked
        distinct below room byte small counts fits (by omega) (Nat.le_add_right _ _)
      exact ⟨coder', walks, .ofGrows rfl inside away grows⟩

/-! ## Counting a value -/

/-- `ENET_CONTEXT_RESCALE` halves the numbers of a context. -/
theorem contextRescaleChecked_halves (minimum : Nat) (inside : context < coder.nextSymbol)
    (holds : Holds coder.symbols context (coder.symbols context).symbols tree)
    (distinct : tree.indices.Nodup) (below : ∀ index ∈ tree.indices, index < coder.nextSymbol)
    (room : coder.nextSymbol ≤ rangeCoderSymbols) (fits : tree.weight < 65536)
    (small : tree.halve.weight + ((coder.symbols context).escapes -
      (coder.symbols context).escapes / 2) + 256 * minimum < 65536) :
    ∃ coder', coder.contextRescaleChecked context minimum = .ok coder' ∧
      Changes coder coder' context tree ∧
      Holds coder'.symbols context (coder'.symbols context).symbols tree.halve ∧
      (coder'.symbols context).escapes =
        (coder.symbols context).escapes - (coder.symbols context).escapes / 2 ∧
      (coder'.symbols context).total = tree.halve.weight + (coder'.symbols context).escapes +
        256 * minimum ∧
      coder'.nextSymbol = coder.nextSymbol := by
  have table : context < rangeCoderSymbols := Nat.lt_of_lt_of_le inside room
  have away : context ∉ tree.indices := fun member => Nat.lt_irrefl _ (holds.above _ member)
  -- the context is written to after its tree
  have after : ∀ halved : RangeCoder, Changes coder halved context tree →
      halved.symbols context = coder.symbols context →
      Holds halved.symbols context (coder.symbols context).symbols tree.halve →
      halved.nextSymbol = coder.nextSymbol →
      ∃ coder', (do
          let total ← fit16 (tree.halve.weight + ((coder.symbols context).escapes -
            (coder.symbols context).escapes / 2) + 256 * minimum)
          (halved.modify context (·.setContext ((coder.symbols context).escapes -
            (coder.symbols context).escapes / 2) total)).checked) = .ok coder' ∧
        Changes coder coder' context tree ∧
        Holds coder'.symbols context (coder'.symbols context).symbols tree.halve ∧
        (coder'.symbols context).escapes =
          (coder.symbols context).escapes - (coder.symbols context).escapes / 2 ∧
        (coder'.symbols context).total = tree.halve.weight + (coder'.symbols context).escapes +
          256 * minimum ∧
        coder'.nextSymbol = coder.nextSymbol := by
    intro halved changes same holds' next
    rw [fit16_of_lt small, CheckedCoding.ok_bind, modify_checked table]
    refine ⟨_, rfl, changes.trans (.write away (fun _ => ⟨rfl, rfl, rfl, rfl, rfl⟩) fun _ => rfl)
      (Nat.le_of_eq next.symm) rfl, ?_, ?_, ?_, next⟩
    · rw [write_self, same]
      refine holds'.congr fun index member => ?_
      rw [CodeTree.halve_indices] at member
      rw [write_of_ne fun same : index = context => away (same ▸ member)]
      exact CodeSymbol.SameNode.refl _
    · rw [write_self]
      rfl
    · rw [write_self]
      rfl
  unfold contextRescaleChecked
  rw [symbol_checked table, CheckedCoding.ok_bind]
  dsimp only
  split
  next unlinked =>
      have empty : tree = .nil := holds.nil_iff.mp unlinked
      subst empty
      exact after coder (.ofRegrows (.refl _ _) away inside) rfl unlinked rfl
  next linked =>
      obtain ⟨halved, rescales, halves⟩ := @symbolRescaleChecked_halves tree coder context
        (coder.symbols context).symbols rangeCoderSymbols holds linked distinct below room fits
        (Nat.le_add_right _ _)
      rw [rescales, CheckedCoding.ok_bind]
      exact after halved (.ofRegrows halves.toRegrows away inside)
        (halves.outside context away inside) halves.holds halves.next

end RangeCoder

/-- What counting a value in a context does to the table: the numbers of the context
agree with its tree again. -/
structure Recounts (coder coder' : RangeCoder) (context : Nat) (tree tree' : CodeTree) : Prop
    extends Changes coder coder' context tree where
  holds : Holds coder'.symbols context (coder'.symbols context).symbols tree'
  books : Books coder' context tree'
  halved : tree' = tree ∨ tree' = tree.halve
  next : coder'.nextSymbol = coder.nextSymbol

namespace Recounts

variable {coder coder' : RangeCoder} {context : Nat} {tree tree' : CodeTree}

theorem indices (recounts : Recounts coder coder' context tree tree') :
    tree'.indices = tree.indices := by
  rcases recounts.halved with same | half
  · rw [same]
  · rw [half, CodeTree.halve_indices]

theorem names (recounts : Recounts coder coder' context tree tree') :
    tree'.names = tree.names := by
  rcases recounts.halved with same | half
  · rw [same]
  · rw [half, CodeTree.halve_names]

theorem kept {Kind : CodeTree → Prop} (kind : TreeKind Kind)
    (recounts : Recounts coder coder' context tree tree') (kept : Kind tree) : Kind tree' := by
  rcases recounts.halved with same | half
  · rw [same]
    exact kept
  · rw [half]
    exact kind.halve kept

end Recounts

namespace RangeCoder

variable {coder : RangeCoder} {context : Nat} {tree : CodeTree}

theorem halve_counts_small {context : Nat} (bytes : ∀ entry ∈ tree.entries, entry.count ≤ 255) :
    ∀ entry ∈ tree.halve.entries, entry.count + contextDelta context ≤ 255 := by
  have delta : contextDelta context ≤ 3 := by
    unfold contextDelta
    split <;> decide
  intro halved member
  rw [CodeTree.halve_entries] at member
  obtain ⟨entry, inTree, rfl⟩ := List.mem_map.mp member
  have := bytes entry inTree
  dsimp only
  omega

/-- **The numbers of a context agree with its tree again** once its total is written: at
once, or halved where a count or the total has grown too far. -/
theorem needsRescale_recounts {count escapes total limit : Nat}
    (inside : context < coder.nextSymbol)
    (holds : Holds coder.symbols context (coder.symbols context).symbols tree)
    (distinct : tree.indices.Nodup) (below : ∀ index ∈ tree.indices, index < coder.nextSymbol)
    (room : coder.nextSymbol ≤ rangeCoderSymbols)
    (bytes : ∀ entry ∈ tree.entries, entry.count ≤ 255)
    (small : count ≤ limit → ∀ entry ∈ tree.entries, entry.count + contextDelta context ≤ 255)
    (sum : total = escapes + tree.weight + 256 * contextMinimum context)
    (bounded : total ≤ 65287) (escaped : tree ≠ .nil ∨ context = 0 → 0 < escapes) :
    ∃ coder', (if needsRescale count total limit then
        (coder.write context (·.setContext escapes total)).contextRescaleChecked context
          (contextMinimum context)
      else .ok (coder.write context (·.setContext escapes total))) = .ok coder' ∧
      Recounts coder coder' context tree
        (if needsRescale count total limit then tree.halve else tree) ∧
      (coder'.symbols context).escapes =
        if needsRescale count total limit then escapes - escapes / 2 else escapes := by
  have away : context ∉ tree.indices := fun member => Nat.lt_irrefl _ (holds.above _ member)
  have minimum : contextMinimum context ≤ 1 := by
    unfold contextMinimum
    split <;> decide
  have written : Changes coder (coder.write context (·.setContext escapes total)) context tree :=
    .write away (fun _ => ⟨rfl, rfl, rfl, rfl, rfl⟩) fun _ => rfl
  have holds' : Holds (coder.write context (·.setContext escapes total)).symbols context
      (coder.symbols context).symbols tree := by
    refine holds.congr fun index member => ?_
    rw [write_of_ne fun same : index = context => away (same ▸ member)]
    exact CodeSymbol.SameNode.refl _
  have node : (coder.write context (·.setContext escapes total)).symbols context =
      (coder.symbols context).setContext escapes total := write_self
  split
  next needs =>
      have short : tree.entries.length ≤ 4096 :=
        Nat.le_trans (CodeTree.length_le distinct below) room
      have half := CodeTree.two_mul_weight_halve_le tree
      obtain ⟨coder', rescales, changes, halved, escapes', total', next⟩ :=
        @contextRescaleChecked_halves (coder.write context (·.setContext escapes total)) context
          tree (contextMinimum context) inside (by rw [node]; exact holds') distinct below room
          (by omega) (by
            rw [node]
            dsimp only [CodeSymbol.setContext]
            omega)
      rw [node] at escapes'
      dsimp only [CodeSymbol.setContext] at escapes'
      refine ⟨coder', rescales, ⟨written.trans changes (Nat.le_refl _) rfl, halved,
        ⟨halve_counts_small bytes, ?_, ?_, ?_⟩, .inr rfl, next⟩, escapes'⟩
      · rw [total']
        omega
      · rw [total', escapes']
        dsimp only [rangeCoderBottom]
        omega
      · intro filled
        have positive := escaped (filled.imp_left fun filled empty => filled (by rw [empty]; rfl))
        omega
  next fits =>
      have fits : count ≤ limit ∧ total ≤ rangeCoderBottom - 0x100 := by
        simpa [needsRescale] using fits
      refine ⟨_, rfl, ⟨written, ?_, ⟨small fits.1, ?_, ?_, ?_⟩, .inl rfl, rfl⟩, ?_⟩
      · rw [node]
        exact holds'
      · rw [node]
        exact sum
      · rw [node]
        exact fits.2
      · rw [node]
        exact escaped
      · rw [node]
        rfl

end RangeCoder

end Enet
