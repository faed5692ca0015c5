import Mathlib.Data.List.Induction
import Enet.Compress.Tallies
import Enet.Compress.Registers

/-!
# One byte

A byte is coded in the predicted context and, while it is new, in the parents of
that context up to the root. Each of these visits codes the value in the tree of
a context, writes the parent of the symbol before, codes the range and counts the
value; between the visits all contexts are in order.
-/

set_option autoImplicit false

namespace Enet

/-! ## Counting -/

/-- The table after a value was counted: all contexts are in order. -/
structure Recounted (Kind : CodeTree → Prop) (coder coder' : RangeCoder)
    (forest forest' : Nat → CodeTree) (pending : List Nat) : Prop where
  inv : Forest Kind coder' forest' pending
  books : ∀ context < coder'.nextSymbol, Books coder' context (forest' context)
  names : ∀ context, (forest' context).names = (forest context).names
  parents : ∀ index < coder.nextSymbol,
    (coder'.symbols index).parent = (coder.symbols index).parent
  next : coder'.nextSymbol = coder.nextSymbol
  predicted : coder'.predicted = coder.predicted
  order : coder'.order = coder.order

/-- The paths do not change. -/
theorem Recounted.leads {Kind : CodeTree → Prop} {coder coder' : RangeCoder}
    {forest forest' : Nat → CodeTree} {pending path : List Nat} {index : Nat}
    (counted : Recounted Kind coder coder' forest forest' pending)
    (leads : Path forest path index) : Path forest' path index := by
  refine leads.mono fun other => ?_
  rw [counted.names]
  exact List.Subset.refl _

/-- What counting a value changes: the tree and the escapes of one context. -/
structure CountedIn (coder coder' : RangeCoder) (forest forest' : Nat → CodeTree)
    (context escapes : Nat) (rescaled : Bool) : Prop where
  trees : forest' = Function.update forest context
    (if rescaled then (forest context).halve else forest context)
  escapes : (coder'.symbols context).escapes =
    if rescaled then escapes - escapes / 2 else escapes
  others : ∀ other < coder.nextSymbol, other ≠ context →
    (coder'.symbols other).escapes = (coder.symbols other).escapes

theorem Forest.count {Kind : CodeTree → Prop} {coder : RangeCoder} {forest : Nat → CodeTree}
    {pending : List Nat} {context count escapes total limit : Nat} (kind : TreeKind Kind)
    (inv : Forest Kind coder forest pending)
    (others : ∀ other < coder.nextSymbol, other ≠ context → Books coder other (forest other))
    (below : context < coder.nextSymbol)
    (bytes : ∀ entry ∈ (forest context).entries, entry.count ≤ 255)
    (small : count ≤ limit →
      ∀ entry ∈ (forest context).entries, entry.count + contextDelta context ≤ 255)
    (sum : total = escapes + (forest context).weight + 256 * contextMinimum context)
    (bounded : total ≤ 65287) (escaped : forest context ≠ .nil ∨ context = 0 → 0 < escapes) :
    ∃ coder', (if RangeCoder.needsRescale count total limit then
        (coder.write context (·.setContext escapes total)).contextRescaleChecked context
          (contextMinimum context)
      else .ok (coder.write context (·.setContext escapes total))) = .ok coder' ∧
      ∃ forest', Recounted Kind coder coder' forest forest' pending ∧
        CountedIn coder coder' forest forest' context escapes
          (RangeCoder.needsRescale count total limit) := by
  obtain ⟨coder', rescales, recounts, halved⟩ := RangeCoder.needsRescale_recounts below
    (inv.holds context below) (inv.distinct context) (inv.inside context) inv.room bytes small sum
    bounded escaped
  refine ⟨coder', rescales, _, ⟨inv.recount kind below recounts, ?_, ?_,
    fun index inUse => recounts.sameParent inUse, recounts.next, recounts.predicted,
    recounts.order⟩, rfl, halved, fun other inUse different =>
      (recounts.sameContext different inUse).escapes⟩
  · intro other inUse
    rw [recounts.next] at inUse
    by_cases here : other = context
    · subst here
      rw [Function.update_self]
      exact recounts.books
    · rw [Function.update_of_ne here]
      exact (others other inUse here).ofSameContext (recounts.sameContext here inUse)
  · intro other
    by_cases here : other = context
    · subst here
      rw [Function.update_self]
      exact recounts.names
    · rw [Function.update_of_ne here]

/-! ## Parents -/

/-- Where the parent of the next symbol goes, in a context for the values of `path`: the
first is predicted, the others are the parents of the symbols counted before them. -/
inductive Awaits (coder : RangeCoder) (forest : Nat → CodeTree) (value : Nat)
    (recent path : List Nat) : RangeCoder.ParentSlot → List Nat → Prop where
  | first (here : path = recent) : Awaits coder forest value recent path .predicted []
  | later {index oldest : Nat} {pending : List Nat}
      (leads : Path forest (value :: (path ++ [oldest])) index)
      (only : ∀ other ∈ pending, other = index)
      (predicted : Path forest (value :: recent) coder.predicted) :
      Awaits coder forest value recent path (.symbol index) pending

/-- What writing a parent leaves as it is. -/
structure ParentWritten (coder coder' : RangeCoder) (forest : Nat → CodeTree)
    (path : List Nat) : Prop where
  escapes : ∀ other, (coder'.symbols other).escapes = (coder.symbols other).escapes
  total : ∀ other, (coder'.symbols other).total = (coder.symbols other).total
  parents : ∀ {other : Nat} {above : List Nat}, Path forest above other →
    above.length ≤ path.length → (coder'.symbols other).parent = (coder.symbols other).parent
  next : coder'.nextSymbol = coder.nextSymbol
  order : coder'.order = coder.order

section Awaits

variable {Kind : CodeTree → Prop} {coder coder' : RangeCoder} {forest forest' : Nat → CodeTree}
  {value : Nat} {recent path : List Nat} {slot : RangeCoder.ParentSlot}
  {pending waiting waiting' : List Nat}

theorem Awaits.mono (awaits : Awaits coder forest value recent path slot pending)
    (grows : ∀ context, (forest context).names ⊆ (forest' context).names)
    (predicted : coder'.predicted = coder.predicted) :
    Awaits coder' forest' value recent path slot pending := by
  cases awaits with
  | first here => exact .first here
  | later leads only inContext =>
      refine .later (leads.mono grows) only ?_
      rw [predicted]
      exact inContext.mono grows

/-- A symbol that awaits its parent has more values than the context. -/
theorem Awaits.away (awaits : Awaits coder forest value recent path slot pending)
    (inv : Forest Kind coder forest waiting) {context : Nat} {above : List Nat}
    (leads : Path forest above context) (low : above.length ≤ path.length) :
    context ∉ pending := by
  cases awaits with
  | first => exact List.not_mem_nil
  | later leads' only =>
      intro member
      have same := only context member
      subst same
      have same := congrArg List.length (inv.path_unique leads leads')
      simp only [List.length_cons, List.length_append] at same
      omega

/-- **A parent is written** where it is awaited. -/
theorem Awaits.write (awaits : Awaits coder forest value recent path slot pending)
    (inv : Forest Kind coder forest waiting) {parent : Nat}
    (above : Path forest (value :: path) parent)
    (rest : ∀ other ∈ waiting, other ∉ pending → other ∈ waiting') :
    ∃ coder', coder.setParentChecked slot parent = .ok coder' ∧
      Forest Kind coder' forest waiting' ∧ ParentWritten coder coder' forest path ∧
      Path forest (value :: recent) coder'.predicted := by
  have small : parent < 4096 := Nat.lt_of_lt_of_le (inv.path_lt above) inv.room
  have same : u16 parent = parent := Nat.mod_eq_of_lt (by omega)
  unfold RangeCoder.setParentChecked RangeCoder.setParent
  rw [fit16_of_lt (by omega), CheckedCoding.ok_bind, same]
  cases awaits with
  | first here =>
      subst here
      exact ⟨{ coder with predicted := parent }, rfl,
        (inv.predict parent).weaken fun other waits => rest other waits List.not_mem_nil,
        ⟨fun _ => rfl, fun _ => rfl, fun _ _ => rfl, rfl, rfl⟩, above⟩
  | @later index oldest _ leads only predicted =>
      have table : index < rangeCoderSymbols := Nat.lt_of_lt_of_le (inv.path_lt leads) inv.room
      have fields : ∀ other, ((coder.write index (·.setParent parent)).symbols other).escapes =
            (coder.symbols other).escapes ∧
          ((coder.write index (·.setParent parent)).symbols other).total =
            (coder.symbols other).total := by
        intro other
        by_cases here : other = index
        · subst here
          rw [RangeCoder.write_self]
          exact ⟨rfl, rfl⟩
        · rw [RangeCoder.write_of_ne here]
          exact ⟨rfl, rfl⟩
      have above' : Path forest (value :: (path ++ [oldest])).dropLast parent := by
        rw [← List.cons_append, List.dropLast_concat]
        exact above
      refine ⟨coder.write index (·.setParent parent), RangeCoder.modify_checked table,
        inv.setParent leads above' fun other waits different =>
          rest other waits fun member => different (only other member),
        ⟨fun other => (fields other).1, fun other => (fields other).2, ?_, rfl, rfl⟩, predicted⟩
      intro other above' leads' low
      rw [RangeCoder.write_of_ne]
      rintro rfl
      have same := congrArg List.length (inv.path_unique leads leads')
      simp only [List.length_cons, List.length_append] at same
      omega

end Awaits

/-! ## Visits -/

/-- The table before a context is visited. -/
structure VisitingContext (Kind : CodeTree → Prop) (coder : RangeCoder) (forest : Nat → CodeTree)
    (value : Nat) (recent : List Nat) (context : Nat) (path : List Nat)
    (slot : RangeCoder.ParentSlot) : Prop where
  inv : ∃ pending, Forest Kind coder forest pending ∧
    Awaits coder forest value recent path slot pending
  books : ∀ other < coder.nextSymbol, Books coder other (forest other)
  leads : Path forest path context

/-- The table after a value was put into the tree of a context, before it is counted. -/
structure VisitedContext (Kind : CodeTree → Prop) (coder coder' : RangeCoder)
    (forest : Nat → CodeTree) (context : Nat) (path : List Nat) (tree' : CodeTree)
    (found : Bool) : Prop where
  inv : Forest Kind coder' (Function.update forest context tree')
    (Forest.pendingAfter [] context coder.nextSymbol found)
  books : ∀ other < coder'.nextSymbol, other ≠ context →
    Books coder' other (Function.update forest context tree' other)
  escapes : ∀ other < coder.nextSymbol,
    (coder'.symbols other).escapes = (coder.symbols other).escapes
  created : found = false → (coder'.symbols coder.nextSymbol).escapes = 0
  total : (coder'.symbols context).total = (coder.symbols context).total
  parents : ∀ {other : Nat} {above : List Nat}, Path forest above other →
    above.length ≤ path.length → (coder'.symbols other).parent = (coder.symbols other).parent
  next : coder'.nextSymbol = if found then coder.nextSymbol else coder.nextSymbol + 1
  order : coder'.order = coder.order

theorem contextDelta_bounds (context : Nat) :
    0 < contextDelta context ∧ contextDelta context ≤ 3 := by
  unfold contextDelta
  split <;> decide

theorem contextMinimum_le (context : Nat) : contextMinimum context ≤ 1 := by
  unfold contextMinimum
  split <;> decide

/-- The other contexts keep their books, and a new symbol gets its own. -/
theorem Encodes.books {Kind : CodeTree → Prop} {coder coder' : RangeCoder}
    {forest : Nat → CodeTree} {context : Nat} {tree : CodeTree} {found : Bool}
    {pending : List Nat} (inv : Forest Kind coder forest pending)
    (books : ∀ other < coder.nextSymbol, Books coder other (forest other))
    (encodes : Encodes coder coder' context (forest context) tree found) :
    ∀ other < coder'.nextSymbol, other ≠ context →
      Books coder' other (Function.update forest context tree other) := by
  intro other inUse different
  rw [Function.update_of_ne different]
  by_cases old : other < coder.nextSymbol
  · exact (books other old).ofSameContext (encodes.sameContext different old)
  · have absent := encodes.absent (by omega)
    have bound := encodes.next
    rw [absent, if_neg Bool.false_ne_true] at bound
    obtain rfl : other = coder.nextSymbol := by omega
    rw [inv.beyond _ (Nat.le_refl _)]
    exact .ofNew (Nat.pos_iff_ne_zero.mp inv.rooted) (encodes.created absent)

theorem Encodes.sameEscapes {coder coder' : RangeCoder} {context other : Nat}
    {tree tree' : CodeTree} {found : Bool}
    (encodes : Encodes coder coder' context tree tree' found) (inUse : other < coder.nextSymbol) :
    (coder'.symbols other).escapes = (coder.symbols other).escapes := by
  by_cases here : other = context
  · rw [here]
    exact encodes.escapes
  · exact (encodes.sameContext here inUse).escapes

section Visit

variable {Kind : CodeTree → Prop} {coder coder' : RangeCoder} {forest : Nat → CodeTree}
  {value context : Nat} {recent path : List Nat} {slot : RangeCoder.ParentSlot}

/-- **A visit codes the value and writes the parent of the symbol before.** -/
theorem VisitingContext.visit (kind : TreeKind Kind)
    (visiting : VisitingContext Kind coder forest value recent context path slot)
    (byte : value < 256) (room : coder.nextSymbol < rangeCoderSymbols) :
    ∃ coded coder', coder.contextEncodeChecked context value (contextDelta context)
        (contextMinimum context) = .ok (coded,
          ⟨((forest context).locate value coder.nextSymbol).symbol,
            value * contextMinimum context +
              ((forest context).locate value coder.nextSymbol).under,
            contextMinimum context +
              ((forest context).locate value coder.nextSymbol).count⟩) ∧
      coded.setParentChecked slot ((forest context).locate value coder.nextSymbol).symbol =
        .ok coder' ∧
      VisitedContext Kind coder coder' forest context path
        ((forest context).insert value (contextDelta context) coder.nextSymbol)
        ((forest context).finds value) ∧
      Path (Function.update forest context
        ((forest context).insert value (contextDelta context) coder.nextSymbol))
        (value :: recent) coder'.predicted := by
  obtain ⟨⟨pending, inv, awaits⟩, books, leads⟩ := visiting
  have below := inv.path_lt leads
  obtain ⟨positive, delta⟩ := contextDelta_bounds context
  have least := contextMinimum_le context
  have own := books context below
  have sum := own.total
  have bounded := own.bounded
  have scaled : value * contextMinimum context ≤ 255 * contextMinimum context :=
    Nat.mul_le_mul_right _ (by omega)
  obtain ⟨coded, encodes, result⟩ := @RangeCoder.contextEncodeChecked_encodes coder context
    (forest context) value (contextDelta context) (contextMinimum context) below
    (inv.holds context below) (inv.distinct context) (inv.inside context) room byte
    (by omega) least (fun entry member => by have := own.small entry member; omega)
    (by dsimp only [rangeCoderBottom] at bounded; omega)
  have grown := CodeTree.insert_grown value (contextDelta context) coder.nextSymbol
    (forest context)
  have inv' := inv.encode below room (kind.insert _ (inv.kept context) byte positive) grown result
  have leads' := leads.mono (Forest.subset_update grown)
  have symbol : Path (Function.update forest context
      ((forest context).insert value (contextDelta context) coder.nextSymbol)) (value :: path)
      ((forest context).locate value coder.nextSymbol).symbol := by
    refine .child leads' ?_
    rw [Function.update_self]
    exact grown.symbol_mem
  obtain ⟨coder', writes, inv'', linked, predicted⟩ :=
    (awaits.mono (Forest.subset_update grown) result.predicted).write inv' symbol
      fun other => Forest.pendingAfter_of_not_mem
  refine ⟨coded, coder', encodes, writes, ⟨inv'', ?_, ?_, ?_, ?_, ?_, ?_, ?_⟩, predicted⟩
  · intro other inUse different
    rw [linked.next] at inUse
    exact (result.books inv books other inUse different).congr (linked.escapes other)
      (linked.total other)
  · intro other inUse
    rw [linked.escapes]
    exact result.sameEscapes inUse
  · intro absent
    rw [linked.escapes]
    exact (result.created absent).escapes
  · rw [linked.total]
    exact result.total
  · intro other above leads'' low
    rw [linked.parents (leads''.mono (Forest.subset_update grown)) low]
    exact result.sameParent (inv.path_lt leads'')
  · exact linked.next.trans result.next
  · exact linked.order.trans result.order

end Visit

/-! ## Counting after a visit -/

section Count

variable {Kind : CodeTree → Prop} {value : Nat} {coder coder' : RangeCoder}
  {forest : Nat → CodeTree} {context : Nat} {path : List Nat} {tree' : CodeTree}
  {coded : CodedSymbol} {found : Bool}

/-- A symbol is counted, and an escape where one was coded. -/
theorem VisitedContext.recount (kind : TreeKind Kind)
    (visited : VisitedContext Kind coder coder' forest context path tree' found)
    (grown : CodeTree.Grown value (contextDelta context) coder.nextSymbol (forest context) tree'
      coded found)
    (books : Books coder context (forest context)) (below : context < coder.nextSymbol)
    (count escape limit : Nat)
    (small : count ≤ limit → coded.count + 2 * contextDelta context ≤ 255)
    (bounded : escape + contextDelta context ≤ 7)
    (escaped : 0 < (coder.symbols context).escapes + escape) :
    ∃ coder'', (if RangeCoder.needsRescale count
          ((coder.symbols context).total + escape + contextDelta context) limit then
        (coder'.write context (·.setContext ((coder.symbols context).escapes + escape)
          ((coder.symbols context).total + escape + contextDelta context))).contextRescaleChecked
            context (contextMinimum context)
      else .ok (coder'.write context (·.setContext ((coder.symbols context).escapes + escape)
          ((coder.symbols context).total + escape + contextDelta context)))) = .ok coder'' ∧
      ∃ forest'', Recounted Kind coder' coder'' (Function.update forest context tree') forest''
        (Forest.pendingAfter [] context coder.nextSymbol found) ∧
        CountedIn coder' coder'' (Function.update forest context tree') forest'' context
          ((coder.symbols context).escapes + escape) (RangeCoder.needsRescale count
            ((coder.symbols context).total + escape + contextDelta context) limit) := by
  have delta := (contextDelta_bounds context).2
  have sum := books.total
  have within := books.bounded
  have weight := grown.weight
  have located : coded.count + contextDelta context ≤ 255 := by
    rcases grown.count_mem with ⟨entry, member, same⟩ | none
    · rw [← same]
      exact books.small entry member
    · omega
  have here : Function.update forest context tree' context = tree' := Function.update_self ..
  refine visited.inv.count kind visited.books ?_ ?_ ?_ ?_ ?_ fun _ => escaped
  · rw [visited.next]
    split
    · exact below
    · exact Nat.lt_succ_of_lt below
  · intro entry member
    rw [here] at member
    rcases grown.counts member with ⟨old, inTree, same⟩ | same
    · have := books.small old inTree
      omega
    · omega
  · intro few entry member
    have few := small few
    rw [here] at member
    rcases grown.counts member with ⟨old, inTree, same⟩ | same
    · rw [same]
      exact books.small old inTree
    · omega
  · rw [here]
    omega
  · dsimp only [rangeCoderBottom] at within
    omega

/-- The symbol of a value in a subcontext is counted, and the escape where it is new. -/
theorem VisitedContext.countSubcontext (kind : TreeKind Kind)
    (visited : VisitedContext Kind coder coder' forest context path tree' found)
    (grown : CodeTree.Grown value (contextDelta context) coder.nextSymbol (forest context) tree'
      coded found)
    (counted : ∀ entry ∈ (forest context).entries, 0 < entry.count)
    (books : Books coder context (forest context)) (inTable : context < rangeCoderSymbols)
    (below : context < coder.nextSymbol) (notRoot : context ≠ 0) :
    ∃ coder'', coder'.countSubcontextChecked context (RangeCoder.escapeDelta coded.count)
        coded.count = .ok coder'' ∧
      ∃ forest'', Recounted Kind coder' coder'' (Function.update forest context tree') forest''
        (Forest.pendingAfter [] context coder.nextSymbol found) ∧
        CountedIn coder' coder'' (Function.update forest context tree') forest'' context
          ((coder.symbols context).escapes + RangeCoder.escapeDelta coded.count)
          (RangeCoder.needsRescale coded.count ((coder.symbols context).total +
            RangeCoder.escapeDelta coded.count + subcontextSymbolDelta)
            (0xFF - 2 * subcontextSymbolDelta)) := by
  have delta : contextDelta context = 2 := if_neg notRoot
  have minimum : contextMinimum context = 0 := if_neg notRoot
  have within := books.bounded
  have sum := books.total
  have escape : RangeCoder.escapeDelta coded.count ≤ 5 ∧
      0 < (coder.symbols context).escapes + RangeCoder.escapeDelta coded.count := by
    unfold RangeCoder.escapeDelta
    split
    next new => exact ⟨Nat.le_refl _, Nat.add_pos_right _ (by decide)⟩
    next old =>
        have settled := (grown.count_pos counted).mp (Nat.pos_of_ne_zero old)
        rw [settled] at grown
        exact ⟨Nat.zero_le _, books.escapes (.inl grown.ne_nil)⟩
  obtain ⟨small, escaped⟩ := escape
  obtain ⟨coder'', counts, counted⟩ := visited.recount kind grown books below coded.count
    (RangeCoder.escapeDelta coded.count) (0xFF - 2 * subcontextSymbolDelta) (fun few => by
      dsimp only [subcontextSymbolDelta] at few
      omega) (by omega) escaped
  rw [delta] at counted
  refine ⟨coder'', ?_, counted⟩
  rw [delta, minimum] at counts
  dsimp only [rangeCoderBottom] at within
  unfold RangeCoder.countSubcontextChecked
  rw [RangeCoder.symbol_checked inTable, CheckedCoding.ok_bind, visited.total,
    visited.escapes context below, fit16_of_lt (by omega), CheckedCoding.ok_bind]
  rw [fit16_of_lt (by dsimp only [subcontextSymbolDelta]; omega), CheckedCoding.ok_bind,
    fit16_of_lt (by omega), CheckedCoding.ok_bind, RangeCoder.modify_checked inTable,
    CheckedCoding.ok_bind]
  exact counts

/-- The symbol of a value in the root context is counted. -/
theorem VisitedContext.countRoot (kind : TreeKind Kind)
    (visited : VisitedContext Kind coder coder' forest 0 path tree' found)
    (grown : CodeTree.Grown value (contextDelta 0) coder.nextSymbol (forest 0) tree' coded found)
    (books : Books coder 0 (forest 0)) (below : 0 < coder.nextSymbol) :
    ∃ coder'', coder'.countRootChecked (contextSymbolMinimum + coded.count) = .ok coder'' ∧
      ∃ forest'', Recounted Kind coder' coder'' (Function.update forest 0 tree') forest''
        (Forest.pendingAfter [] 0 coder.nextSymbol found) ∧
        CountedIn coder' coder'' (Function.update forest 0 tree') forest'' 0
          (coder.symbols 0).escapes (RangeCoder.needsRescale (contextSymbolMinimum + coded.count)
            ((coder.symbols 0).total + contextSymbolDelta)
            (0xFF - 2 * contextSymbolDelta + contextSymbolMinimum)) := by
  have within := books.bounded
  obtain ⟨coder'', counts, counted⟩ := visited.recount kind grown books below
    (contextSymbolMinimum + coded.count) 0
    (0xFF - 2 * contextSymbolDelta + contextSymbolMinimum) (fun few => by
      dsimp only [contextSymbolDelta, contextSymbolMinimum] at few
      change _ + 2 * 3 ≤ 255
      omega) (by decide) (books.escapes (.inr rfl))
  refine ⟨coder'', ?_, counted⟩
  dsimp only [rangeCoderBottom] at within
  have inTable : 0 < rangeCoderSymbols := by decide
  unfold RangeCoder.countRootChecked
  rw [RangeCoder.symbol_checked inTable, CheckedCoding.ok_bind, visited.total,
    visited.escapes 0 below, fit16_of_lt (by dsimp only [contextSymbolDelta]; omega),
    CheckedCoding.ok_bind,
    RangeCoder.modify_checked inTable, CheckedCoding.ok_bind]
  exact counts

end Count

theorem VisitedContext.kept {Kind : CodeTree → Prop} {coder coder' : RangeCoder}
    {forest : Nat → CodeTree} {context : Nat} {path : List Nat} {tree' : CodeTree} {found : Bool}
    (visited : VisitedContext Kind coder coder' forest context path tree' found) : Kind tree' := by
  have kept := visited.inv.kept context
  rwa [Function.update_self] at kept

/-! ## What the table has counted -/

theorem CountedIn.names {coder coder' : RangeCoder} {forest forest' : Nat → CodeTree}
    {context escapes : Nat} {rescaled : Bool}
    (counted : CountedIn coder coder' forest forest' context escapes rescaled) (other : Nat) :
    (forest' other).names = (forest other).names := by
  rw [counted.trees]
  by_cases same : other = context
  · subst same
    rw [Function.update_self]
    split
    · exact CodeTree.halve_names _
    · rfl
  · rw [Function.update_of_ne same]

/-- Counting leaves the paths as they are. -/
theorem CountedIn.path_iff {coder coder' : RangeCoder} {forest forest' : Nat → CodeTree}
    {context escapes : Nat} {rescaled : Bool}
    (counted : CountedIn coder coder' forest forest' context escapes rescaled) {path : List Nat}
    {other : Nat} : Path forest' path other ↔ Path forest path other := by
  constructor
  · intro leads
    refine leads.mono fun context' => ?_
    rw [counted.names]
    exact List.Subset.refl _
  · intro leads
    refine leads.mono fun context' => ?_
    rw [counted.names]
    exact List.Subset.refl _

/-- No path goes through a value that a tree does not hold. -/
theorem Forest.not_path_cons {Kind : CodeTree → Prop} {coder : RangeCoder}
    {forest : Nat → CodeTree} {pending path : List Nat} {value context : Nat}
    (ordered : ∀ tree, Kind tree → Ordered tree) (inv : Forest Kind coder forest pending)
    (leads : Path forest path context) (absent : (forest context).countOf value = 0)
    (other : Nat) : ¬ Path forest (value :: path) other := by
  intro leads'
  have counted := (ordered _ (inv.kept context)).toSound.counted
  cases leads' with
  | child inContext member =>
      rw [Forest.index_unique (fun other => (ordered _ (inv.kept other)).ascending) inContext
        leads] at member
      exact absurd absent (Nat.ne_of_gt ((CodeTree.countOf_pos_iff counted).mpr ⟨_, member⟩))

/-- The only path to the symbol that a visit made is that of the value. -/
theorem Forest.path_added {Kind : CodeTree → Prop} {coder : RangeCoder}
    {forest : Nat → CodeTree} {pending path path' : List Nat} {value update context other : Nat}
    {tree : CodeTree} {coded : CodedSymbol} {found : Bool}
    (inv : Forest Kind coder forest pending) (leads : Path forest path context)
    (grown : CodeTree.Grown value update coder.nextSymbol (forest context) tree coded found)
    (leads' : Path (Function.update forest context tree) path' other)
    (added : ¬ other < coder.nextSymbol) :
    path' = value :: path ∧ other = coder.nextSymbol ∧ found = false := by
  cases leads' with
  | root => exact absurd inv.rooted added
  | child inContext member =>
      rcases Forest.of_mem_update grown member with member | ⟨rfl, rfl, rfl, rfl⟩
      · exact absurd (inv.inside _ _ (CodeTree.mem_indices_iff.mpr ⟨_, member⟩)) added
      · have before := inv.path_of_update grown inContext (inv.path_lt leads)
        rw [inv.path_unique before leads]
        exact ⟨rfl, rfl, rfl⟩

section Tallies

variable {Kind : CodeTree → Prop} {coder coder' coder'' : RangeCoder}
  {forest forest'' : Nat → CodeTree} {value context : Nat} {path pending : List Nat}
  {tree' : CodeTree} {coded : CodedSymbol} {found rescaled : Bool} {escapes : Nat}

/-- **The visited context counts the value** as a tally does. -/
theorem VisitedContext.tally_visited (escape : Nat) (ordered : ∀ tree, Kind tree → Ordered tree)
    (inv : Forest Kind coder forest pending) (books : Books coder context (forest context))
    (leads : Path forest path context)
    (visited : VisitedContext Kind coder coder' forest context path tree' found)
    (grown : CodeTree.Grown value (contextDelta context) coder.nextSymbol (forest context) tree'
      coded found)
    (counted : CountedIn coder' coder'' (Function.update forest context tree') forest'' context
      ((coder.symbols context).escapes + escape) rescaled)
    (escapes : escape = (coder.tally forest context).escape path value)
    (rescales : rescaled = RangeCoder.needsRescale (leastCount path + coded.count)
      ((coder.symbols context).total + escape + countDelta path)
      (0xFF - 2 * countDelta path + leastCount path)) :
    coder''.tally forest'' context = (coder.tally forest context).learn path value := by
  have root := inv.path_nil_iff leads
  have sound := (ordered _ (inv.kept context)).toSound
  have least : contextMinimum context = leastCount path := by
    unfold contextMinimum leastCount
    simp only [root]
  have delta : contextDelta context = countDelta path := by
    unfold contextDelta countDelta
    simp only [root]
  have ascends : tree'.values.Pairwise (· < ·) := (ordered _ visited.kept).ascending
  have total := books.total_eq sound least
  have counts := grown.countOf
  have same : (coder.tally forest context).counts value = coded.count :=
    (grown.located ascends).1.symm
  have trees := counted.trees
  rw [Function.update_self, Function.update_idem] at trees
  unfold Tally.learn
  rw [← escapes, total, same, ← rescales, ← delta]
  unfold RangeCoder.tally Tally.count
  rw [counted.escapes, trees, Function.update_self]
  cases rescaled with
  | true =>
      refine Tally.ext (funext fun other => ?_) rfl
      exact (CodeTree.countOf_halve ascends other).trans (by rw [counts]; rfl)
  | false => exact Tally.ext (funext counts) rfl

/-- The other contexts have counted what they had counted. -/
theorem VisitedContext.tally_other
    (visited : VisitedContext Kind coder coder' forest context path tree' found)
    (counted : CountedIn coder' coder'' (Function.update forest context tree') forest'' context
      escapes rescaled)
    {other : Nat} (inUse : other < coder.nextSymbol) (different : other ≠ context) :
    coder''.tally forest'' other = coder.tally forest other := by
  have inUse' : other < coder'.nextSymbol := by
    rw [visited.next]
    split
    · exact inUse
    · exact Nat.lt_succ_of_lt inUse
  unfold RangeCoder.tally
  rw [counted.trees, Function.update_of_ne different, Function.update_of_ne different,
    counted.others other inUse' different, visited.escapes other inUse]

/-- The context of a new symbol has counted nothing. -/
theorem VisitedContext.tally_added (inv : Forest Kind coder forest pending)
    (below : context < coder.nextSymbol)
    (visited : VisitedContext Kind coder coder' forest context path tree' false)
    (counted : CountedIn coder' coder'' (Function.update forest context tree') forest'' context
      escapes rescaled) :
    coder''.tally forest'' coder.nextSymbol = .blank := by
  have away : coder.nextSymbol ≠ context := Ne.symm (Nat.ne_of_lt below)
  have next := visited.next
  rw [if_neg Bool.false_ne_true] at next
  unfold RangeCoder.tally
  rw [counted.trees, Function.update_of_ne away, Function.update_of_ne away,
    inv.beyond _ (Nat.le_refl _), counted.others coder.nextSymbol (by omega) away,
    visited.created rfl]
  rfl

/-- **A visit counts in the table what it counts in the model**, and nothing else. -/
theorem Tallied.learn {model : ContextModel} (escape : Nat)
    (ordered : ∀ tree, Kind tree → Ordered tree)
    (tallied : Tallied coder forest model) (inv : Forest Kind coder forest pending)
    (books : Books coder context (forest context)) (leads : Path forest path context)
    (visited : VisitedContext Kind coder coder' forest context path tree' found)
    (grown : CodeTree.Grown value (contextDelta context) coder.nextSymbol (forest context) tree'
      coded found)
    (counted : CountedIn coder' coder'' (Function.update forest context tree') forest'' context
      ((coder.symbols context).escapes + escape) rescaled)
    (escapes : escape = (model path).escape path value)
    (rescales : rescaled = RangeCoder.needsRescale (leastCount path + coded.count)
      ((coder.symbols context).total + escape + countDelta path)
      (0xFF - 2 * countDelta path + leastCount path)) :
    Tallied coder'' forest'' (model.learn value [path]) := by
  have below := inv.path_lt leads
  unfold ContextModel.learn
  simp only [List.mem_singleton]
  refine ⟨?_, ?_⟩
  · intro path' context' leads'
    have leads'' := counted.path_iff.mp leads'
    by_cases old : context' < coder.nextSymbol
    · have before := inv.path_of_update grown leads'' old
      by_cases same : context' = context
      · subst same
        obtain rfl := inv.path_unique before leads
        rw [if_pos rfl, tallied.known leads]
        rw [tallied.known leads] at escapes
        exact (visited.tally_visited escape ordered inv books leads grown counted escapes
          rescales).symm
      · have different : path' ≠ path := by
          rintro rfl
          exact same (Forest.index_unique (fun other => (ordered _ (inv.kept other)).ascending)
            before leads)
        rw [if_neg different, visited.tally_other counted old same]
        exact tallied.known before
    · obtain ⟨rfl, rfl, rfl⟩ := inv.path_added leads grown leads'' old
      rw [if_neg (by simp), visited.tally_added inv below counted]
      have located := (grown.located (ordered _ visited.kept).ascending).1
      exact tallied.unknown _
        (inv.not_path_cons ordered leads (located.symm.trans grown.of_absent.2))
  · intro path' none
    have more : ∀ {path' : List Nat} {other : Nat}, Path forest path' other →
        Path forest'' path' other := fun leads' =>
      counted.path_iff.mpr (leads'.mono (Forest.subset_update grown))
    have different : path' ≠ path := by
      rintro rfl
      exact none context (more leads)
    rw [if_neg different]
    exact tallied.unknown path' fun other leads' => none other (more leads')

/-- A visit of a context other than the root counts in the table what it counts in the
model. -/
theorem Tallied.learnSubcontext {model : ContextModel} (subcontext : path ≠ [])
    (ordered : ∀ tree, Kind tree → Ordered tree) (tallied : Tallied coder forest model)
    (inv : Forest Kind coder forest pending) (books : Books coder context (forest context))
    (leads : Path forest path context)
    (visited : VisitedContext Kind coder coder' forest context path tree' found)
    (grown : CodeTree.Grown value (contextDelta context) coder.nextSymbol (forest context) tree'
      coded found)
    (counted : CountedIn coder' coder'' (Function.update forest context tree') forest'' context
      ((coder.symbols context).escapes + RangeCoder.escapeDelta coded.count)
      (RangeCoder.needsRescale coded.count ((coder.symbols context).total +
        RangeCoder.escapeDelta coded.count + subcontextSymbolDelta)
        (0xFF - 2 * subcontextSymbolDelta))) :
    Tallied coder'' forest'' (model.learn value [path]) := by
  have least : leastCount path = 0 := if_neg subcontext
  have delta : countDelta path = subcontextSymbolDelta := if_neg subcontext
  have tally := tallied.count leads grown (ordered _ visited.kept).ascending
  refine tallied.learn _ ordered inv books leads visited grown counted ?_ ?_
  · unfold Tally.escape
    rw [if_neg subcontext, tally]
  · rw [least, delta, Nat.zero_add, Nat.add_zero]

/-- A visit makes a symbol where the model has not counted the value in the context. -/
theorem Tallied.next {model : ContextModel} (ordered : ∀ tree, Kind tree → Ordered tree)
    (tallied : Tallied coder forest model) (inv : Forest Kind coder forest pending)
    (leads : Path forest path context)
    (visited : VisitedContext Kind coder coder' forest context path tree' found)
    (grown : CodeTree.Grown value (contextDelta context) coder.nextSymbol (forest context) tree'
      coded found) :
    coder'.nextSymbol =
      coder.nextSymbol + if (model path).counts value = 0 then 1 else 0 := by
  have tally := tallied.count leads grown (ordered _ visited.kept).ascending
  have positive := grown.count_pos (ordered _ (inv.kept context)).toSound.counted
  rw [visited.next, tally]
  cases found with
  | true => rw [if_pos rfl, if_neg (Nat.ne_of_gt (positive.mpr rfl)), Nat.add_zero]
  | false =>
      rw [if_neg Bool.false_ne_true, if_pos (Nat.eq_zero_of_not_pos (mt positive.mp (by simp)))]

end Tallies

/-! ## After the visits -/

/-- The table after the visits of a byte: the symbol of the byte is predicted. -/
structure Coded (Kind : CodeTree → Prop) (coder : RangeCoder) (forest : Nat → CodeTree)
    (path : List Nat) : Prop where
  inv : Forest Kind coder forest []
  books : ∀ context < coder.nextSymbol, Books coder context (forest context)
  predicted : Path forest path coder.predicted

section After

variable {Kind : CodeTree → Prop} {value : Nat} {coder coder' coder'' : RangeCoder}
  {forest forest'' : Nat → CodeTree} {context : Nat} {recent path : List Nat}
  {slot : RangeCoder.ParentSlot} {tree' : CodeTree} {found : Bool}

/-- The value was found. -/
theorem Recounted.coded
    (counted : Recounted Kind coder' coder'' (Function.update forest context tree') forest''
      (Forest.pendingAfter [] context coder.nextSymbol found))
    (predicted : Path (Function.update forest context tree') path coder'.predicted)
    (settled : found = true ∨ context = 0) : Coded Kind coder'' forest'' path := by
  refine ⟨?_, counted.books, ?_⟩
  · have inv := counted.inv
    unfold Forest.pendingAfter at inv
    rwa [if_pos settled] at inv
  · rw [counted.predicted]
    exact counted.leads predicted

/-- The parent of a context is visited after it, and the parent of the symbol is written
there. -/
theorem VisitingContext.parent {coded : CodedSymbol} {oldest : Nat}
    (visiting : VisitingContext Kind coder forest value recent context (path ++ [oldest]) slot)
    (visited : VisitedContext Kind coder coder' forest context (path ++ [oldest]) tree' found)
    (predicted : Path (Function.update forest context tree') (value :: recent) coder'.predicted)
    (grown : CodeTree.Grown value (contextDelta context) coder.nextSymbol (forest context) tree'
      coded found)
    (counted : Recounted Kind coder' coder'' (Function.update forest context tree') forest''
      (Forest.pendingAfter [] context coder.nextSymbol found)) :
    VisitingContext Kind coder'' forest'' value recent (coder''.symbols context).parent path
      (.symbol coded.symbol) := by
  obtain ⟨⟨pending, inv, awaits⟩, -, leads⟩ := visiting
  have below := inv.path_lt leads
  have above := inv.parent_path leads (awaits.away inv leads (Nat.le_refl _))
  have below' : context < coder'.nextSymbol := by
    rw [visited.next]
    split
    · exact below
    · exact Nat.lt_succ_of_lt below
  have parent : (coder''.symbols context).parent = (coder.symbols context).parent :=
    (counted.parents context below').trans (visited.parents leads (Nat.le_refl _))
  have grows := Forest.subset_update grown
  refine ⟨⟨_, counted.inv, @Awaits.later _ _ _ _ _ _ oldest _ ?_ ?_ ?_⟩, counted.books, ?_⟩
  · refine counted.leads (.child (leads.mono grows) ?_)
    rw [Function.update_self]
    exact grown.symbol_mem
  · intro other waits
    unfold Forest.pendingAfter at waits
    split at waits
    · exact absurd waits List.not_mem_nil
    · next created =>
        obtain rfl := List.mem_singleton.mp waits
        have absent : found = false := by
          cases found with
          | false => rfl
          | true => exact absurd (.inl rfl) created
        subst absent
        exact grown.of_absent.1.symm
  · rw [counted.predicted]
    exact counted.leads predicted
  · rw [parent]
    exact counted.leads (above.mono grows)

end After

end Enet
