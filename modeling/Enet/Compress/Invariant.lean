import Mathlib.Logic.Relation
import Enet.Compress.Buffers
import Enet.Compress.Encoder

/-!
# The model of the compressor in every run

Between two bytes the table of the compressor holds a search tree for each of
its contexts, whose numbers agree with the tree; the prediction is at most two
contexts away from the root; and the registers of the encoder are ready. Coding
a byte keeps this, whatever the byte is, and so does giving the table up.
-/

set_option autoImplicit false

namespace Enet

/-! ## Between two bytes -/

/-- The table between two bytes. -/
structure Modeled (Kind : CodeTree → Prop) (coder : RangeCoder) (forest : Nat → CodeTree)
    (path : List Nat) : Prop where
  inv : Forest Kind coder forest []
  books : ∀ context < coder.nextSymbol, Books coder context (forest context)
  predicted : Path forest path coder.predicted
  length : path.length = coder.order
  order : coder.order ≤ subcontextOrder
  free : coder.nextSymbol + subcontextOrder < rangeCoderSymbols

namespace Modeled

variable {Kind : CodeTree → Prop} {coder : RangeCoder}

/-- A table with nothing but an empty root context. -/
theorem blank (kind : TreeKind Kind) (alone : coder.nextSymbol = 1)
    (empty : (coder.symbols 0).symbols = 0)
    (escapes : (coder.symbols 0).escapes = contextEscapeMinimum)
    (total : (coder.symbols 0).total = contextEscapeMinimum + 256 * contextSymbolMinimum)
    (predicted : coder.predicted = 0) (order : coder.order = 0) :
    Modeled Kind coder (fun _ => .nil) [] := by
  have root : ∀ context, context < coder.nextSymbol → context = 0 := by
    intro context below
    omega
  refine ⟨⟨by omega, ?_, ?_, fun _ _ => rfl, fun _ _ member => absurd member List.not_mem_nil,
    fun _ => List.nodup_nil, fun _ _ _ member => absurd member List.not_mem_nil,
    fun _ => kind.nil, ?_, ?_⟩, ?_, ?_, ?_, ?_, ?_⟩
  · rw [alone]
    decide
  · intro context below
    rw [root context below]
    exact empty
  · intro index inUse notRoot
    exact absurd (root index inUse) notRoot
  · intro value path index leads _
    cases leads with
    | child inContext member => exact absurd member List.not_mem_nil
  · intro context below
    rw [root context below]
    refine ⟨fun _ member => absurd member List.not_mem_nil, ?_, ?_, fun _ => ?_⟩
    · rw [total, escapes]
      rfl
    · rw [total]
      decide
    · rw [escapes]
      decide
  · rw [predicted]
    exact .root
  · rw [order]
    rfl
  · rw [order]
    exact Nat.zero_le _
  · rw [alone]
    decide

end Modeled

/-- `ENET_CONTEXT_CREATE` of the root context. -/
theorem RangeCoder.contextCreate_root (coder : RangeCoder) (first : coder.nextSymbol = 0) :
    ∃ created, coder.contextCreate contextEscapeMinimum contextSymbolMinimum = .ok created ∧
      created.nextSymbol = 1 ∧ (created.symbols 0).symbols = 0 ∧
      (created.symbols 0).escapes = contextEscapeMinimum ∧
      (created.symbols 0).total = contextEscapeMinimum + 256 * contextSymbolMinimum ∧
      created.predicted = coder.predicted ∧ created.order = coder.order := by
  obtain ⟨symbols, nextSymbol, predicted, order⟩ := coder
  dsimp only at first
  subst first
  refine ⟨_, rfl, rfl, ?_, ?_, ?_, rfl, rfl⟩
  all_goals
    dsimp only [setSymbol]
    rw [Function.update_self, Function.update_self]
    rfl

theorem modeled_start {Kind : CodeTree → Prop} (kind : TreeKind Kind)
    (symbols : Nat → CodeSymbol) :
    ∃ coder forest, RangeCoder.start symbols = .ok coder ∧ Modeled Kind coder forest [] := by
  obtain ⟨coder, creates, alone, empty, escapes, total, predicted, order⟩ :=
    RangeCoder.contextCreate_root ⟨symbols, 0, 0, 0⟩ rfl
  exact ⟨coder, _, creates, .blank kind alone empty escapes total predicted order⟩

/-! ## One byte -/

/-- What follows the visits of a byte: the last two values are the next context, or the
table is given up. -/
inductive Continues (coder : RangeCoder) (forest : Nat → CodeTree) (path : List Nat) :
    RangeCoder → (Nat → CodeTree) → List Nat → Prop where
  | goesOn {coder' : RangeCoder} (free : coder.nextSymbol + subcontextOrder < rangeCoderSymbols)
      (symbols : coder'.symbols = coder.symbols) (next : coder'.nextSymbol = coder.nextSymbol) :
      Continues coder forest path coder' forest (path.take subcontextOrder)
  | startsOver {coder' : RangeCoder}
      (full : rangeCoderSymbols ≤ coder.nextSymbol + subcontextOrder)
      (next : coder'.nextSymbol = 1)
      (escapes : (coder'.symbols 0).escapes = contextEscapeMinimum) :
      Continues coder forest path coder' (fun _ => .nil) []

theorem Coded.nextContext {Kind : CodeTree → Prop} {coder : RangeCoder}
    {forest : Nat → CodeTree} {path : List Nat} (kind : TreeKind Kind)
    (coded : Coded Kind coder forest path) (length : path.length = coder.order + 1)
    (order : coder.order ≤ subcontextOrder) :
    ∃ coder', coder.nextContext = .ok coder' ∧ ∃ forest' path', Modeled Kind coder' forest' path' ∧
      Continues coder forest path coder' forest' path' := by
  obtain ⟨inv, books, predicted⟩ := coded
  have inTable : coder.predicted < rangeCoderSymbols :=
    Nat.lt_of_lt_of_le (inv.path_lt predicted) inv.room
  -- the prediction is at most two contexts away from the root again
  obtain ⟨next, sameSymbols, sameNext, leads, length', order', steps⟩ : ∃ next : RangeCoder,
      next.symbols = coder.symbols ∧ next.nextSymbol = coder.nextSymbol ∧
      Path forest (path.take subcontextOrder) next.predicted ∧
      (path.take subcontextOrder).length = next.order ∧ next.order ≤ subcontextOrder ∧
      coder.nextContext = (do
        if rangeCoderSymbols - subcontextOrder ≤ next.nextSymbol then do
          let coder ← RangeCoder.contextCreate { next with nextSymbol := 0 } contextEscapeMinimum
            contextSymbolMinimum
          return { coder with predicted := 0, order := 0 }
        else return next) := by
    unfold RangeCoder.nextContext
    dsimp only [subcontextOrder] at order ⊢
    split
    next last =>
        rw [RangeCoder.symbol, if_pos inTable]
        refine ⟨{ coder with predicted := (coder.symbols coder.predicted).parent }, rfl, rfl, ?_,
          ?_, order, rfl⟩
        · have drops : path.take 2 = path.dropLast := by
            rw [List.dropLast_eq_take, length]
            congr 1
            omega
          rw [drops]
          cases path with
          | nil => cases length
          | cons value path => exact inv.parents _ _ _ predicted List.not_mem_nil
        · rw [List.length_take, length]
          dsimp only
          omega
    next early =>
        have whole : path.take 2 = path := List.take_of_length_le (by omega)
        rw [whole]
        exact ⟨{ coder with order := coder.order + 1 }, rfl, rfl, predicted, length,
          Nat.not_le.mp early, rfl⟩
  rw [steps]
  split
  next full =>
      obtain ⟨created, creates, alone, empty, escapes, total, -⟩ :=
        RangeCoder.contextCreate_root { next with nextSymbol := 0 } rfl
      rw [creates]
      refine ⟨_, rfl, _, _, .blank kind alone empty escapes total rfl rfl,
        .startsOver ?_ alone escapes⟩
      rw [sameNext] at full
      dsimp only [rangeCoderSymbols, subcontextOrder] at full ⊢
      omega
  next free =>
      have free' : coder.nextSymbol + subcontextOrder < rangeCoderSymbols := by
        rw [sameNext] at free
        dsimp only [rangeCoderSymbols, subcontextOrder] at free ⊢
        omega
      refine ⟨next, rfl, forest, _, ⟨?_, ?_, leads, length', order', ?_⟩,
        .goesOn free' sameSymbols sameNext⟩
      · obtain ⟨symbols, nextSymbol, predicted', order''⟩ := next
        dsimp only at sameSymbols sameNext
        subst sameSymbols sameNext
        exact ⟨inv.rooted, inv.room, inv.holds, inv.beyond, inv.inside, inv.distinct, inv.apart,
          inv.kept, inv.covered, inv.parents⟩
      · intro context below
        rw [sameNext] at below
        exact (books context below).congr (by rw [sameSymbols]) (by rw [sameSymbols])
      · rw [sameNext]
        exact free'

/-! ## The model of contexts -/

/-- The table between two bytes keeps the state of the model. -/
structure Refines (coder : RangeCoder) (state : ContextState) : Prop where
  modeled : ∃ forest, Modeled Ordered coder forest state.recent ∧
    Tallied coder forest state.model
  next : coder.nextSymbol = state.used

/-- A table with nothing but the root keeps the first state. -/
theorem Tallied.start {coder : RangeCoder}
    (escapes : (coder.symbols 0).escapes = contextEscapeMinimum) :
    Tallied coder (fun _ => .nil) ContextState.start.model := by
  refine ⟨?_, ?_⟩
  · intro path context leads
    cases leads with
    | root =>
        unfold RangeCoder.tally
        rw [escapes]
        rfl
    | child inContext member => exact absurd member List.not_mem_nil
  · intro path none
    refine if_neg ?_
    rintro rfl
    exact none 0 .root

/-- Every table keeps the state of some model. -/
theorem Modeled.refines {coder : RangeCoder} {forest : Nat → CodeTree} {path : List Nat}
    (modeled : Modeled Ordered coder forest path) :
    ∃ state, state.recent = path ∧ Refines coder state := by
  classical
  have ascends := fun context => (modeled.inv.kept context).ascending
  refine ⟨⟨fun path => if known : ∃ context, Path forest path context then
    coder.tally forest known.choose else .blank, path, coder.nextSymbol⟩, rfl,
    ⟨forest, modeled, ?_, ?_⟩, rfl⟩
  · intro path' context leads
    have known : ∃ context, Path forest path' context := ⟨context, leads⟩
    dsimp only
    rw [dif_pos known, Forest.index_unique ascends known.choose_spec leads]
  · intro path' none
    exact dif_neg fun ⟨context, leads⟩ => none context leads

/-- The prefixes of a context are contexts. -/
theorem Forest.path_prefix {Kind : CodeTree → Prop} {coder : RangeCoder}
    {forest : Nat → CodeTree} (inv : Forest Kind coder forest []) (path : List Nat) :
    ∀ {context : Nat}, Path forest path context →
      ∀ above ∈ contextsOf path, ∃ context', Path forest above context' := by
  induction path using List.reverseRecOn with
  | nil =>
      intro context leads above member
      obtain rfl := List.mem_singleton.mp member
      exact ⟨context, leads⟩
  | append_singleton path oldest ih =>
      intro context leads above member
      rw [contextsOf_concat] at member
      rcases List.mem_cons.mp member with rfl | member
      · exact ⟨context, leads⟩
      · exact ih (inv.parent_path leads List.not_mem_nil) above member

/-- What follows the visits of a byte is the end of the step. -/
theorem Continues.refines {coder coded coder' : RangeCoder} {state : ContextState} {value : Nat}
    {forest' forest'' : Nat → CodeTree} {path' : List Nat} (used : coder.nextSymbol = state.used)
    (next : coded.nextSymbol =
      coder.nextSymbol + state.model.created value (contextsOf state.recent))
    (tallied : Tallied coded forest' (state.model.learn value
      (state.model.visits value (contextsOf state.recent))))
    (modeled : Modeled Ordered coder' forest'' path')
    (continues : Continues coded forest' (value :: state.recent) coder' forest'' path') :
    Refines coder' (state.step value) := by
  unfold ContextState.step
  cases continues with
  | goesOn free symbols next' =>
      rw [if_neg (by omega)]
      refine ⟨⟨forest', modeled, ?_, tallied.unknown⟩, next'.trans (by rw [next, used])⟩
      intro path context leads
      refine (tallied.known leads).trans ?_
      unfold RangeCoder.tally
      rw [symbols]
  | startsOver full next' escapes =>
      rw [if_pos (by omega)]
      exact ⟨⟨_, modeled, .start escapes⟩, next'⟩

namespace Refines

variable {coder : RangeCoder} {state : ContextState}

/-- **The shares of a value can be coded.** -/
theorem narrow (refines : Refines coder state) {value : Nat} (byte : value < 256) :
    ∀ share ∈ state.shares value, RangeEncoder.Narrow share := by
  obtain ⟨⟨forest, modeled, tallied⟩, -⟩ := refines
  refine ContextModel.shares_narrow byte fun path member => ?_
  obtain ⟨context, leads⟩ := modeled.inv.path_prefix _ modeled.predicted path member
  have below := modeled.inv.path_lt leads
  have books := modeled.books context below
  have least : contextMinimum context = leastCount path := by
    unfold contextMinimum leastCount
    simp only [modeled.inv.path_nil_iff leads]
  rw [tallied.known leads, books.total_eq (modeled.inv.kept context).toSound least]
  exact books.bounded

/-- **Coding a byte codes its shares**, whatever the registers are, and is a step of the
model. -/
theorem encodeValue (refines : Refines coder state) (value : UInt8) :
    ∃ coder', Refines coder' (state.step value.toNat) ∧ ∀ encoder : RangeEncoder,
      coder.encodeValueChecked encoder value =
        encoder.encodeShares (state.shares value.toNat) >>= fun encoder' =>
          .ok (coder', encoder') := by
  obtain ⟨⟨forest, ⟨inv, books, predicted, length, order, free⟩, tallied⟩, next⟩ := refines
  have byte : value.toNat < 256 := value.toNat_lt
  have visiting : VisitingContext Ordered coder forest value.toNat state.recent coder.predicted
      state.recent .predicted := ⟨⟨[], inv, .first rfl⟩, books, predicted⟩
  dsimp only [rangeCoderSymbols, subcontextOrder] at free order
  obtain ⟨coded, codes, ⟨forest', inOrder, learned⟩, next', order'⟩ :=
    @VisitingContext.encodeContexts _ _ byte state.recent _ _ _ _ rangeCoderSymbols _ visiting
      tallied (by dsimp only [rangeCoderSymbols]; omega) (by dsimp only [rangeCoderSymbols]; omega)
  obtain ⟨coder', steps, forest'', path', modeled, continues⟩ := inOrder.nextContext Ordered.kind
    (by rw [List.length_cons, length, order']) (by rw [order']; exact order)
  refine ⟨coder', ?_, fun encoder => ?_⟩
  · exact continues.refines next next' learned modeled
  · have splits : coder.encodeValueChecked encoder value =
        RangeCoder.encodeContextsChecked value.toNat rangeCoderSymbols coder encoder
          coder.predicted .predicted >>= fun result => do
            let coder ← result.1.nextContext.checked
            return (coder, result.2) := by
      unfold RangeCoder.encodeValueChecked RangeCoder.encodeContextsChecked
      rw [bind_assoc]
      refine bind_congr fun result => ?_
      obtain ⟨coder', encoder', slot⟩ := result
      cases slot with
      | none => rfl
      | some slot => rfl
    rw [splits, codes, bind_assoc]
    refine bind_congr fun encoder' => ?_
    rw [CheckedCoding.ok_bind, steps]
    rfl

end Refines

/-- **Coding a byte keeps the table and the registers in order**, or the output is full. -/
theorem Modeled.encodeValue {coder : RangeCoder} {forest : Nat → CodeTree} {path : List Nat}
    {encoder : RangeEncoder} (modeled : Modeled Ordered coder forest path) (ready : encoder.Ready)
    (value : UInt8) :
    CheckedCoding.Ends (coder.encodeValueChecked encoder value) fun result =>
      result.2.Ready ∧ ∃ forest' path', Modeled Ordered result.1 forest' path' := by
  obtain ⟨state, -, refines⟩ := modeled.refines
  obtain ⟨coder', ⟨⟨forest', modeled', -⟩, -⟩, codes⟩ := refines.encodeValue value
  rw [codes]
  refine (ready.encodeShares (refines.narrow value.toNat_lt)).bind ?_
  intro encoder' ready'
  exact .inr ⟨_, rfl, ready', forest', _, modeled'⟩

/-! ## Every run -/

/-- The tree of a context, and the numbers that the context keeps of it. -/
structure RangeCoder.Models (coder : RangeCoder) (context : Nat) (tree : CodeTree) : Prop where
  /-- The tree is in the table: `under` is the count of a symbol and of those on its left. -/
  holds : Holds coder.symbols context (coder.symbols context).symbols tree
  ascending : tree.values.Pairwise (· < ·)
  counts : ∀ entry ∈ tree.entries, 1 ≤ entry.count ∧ entry.count ≤ 255
  under : ∀ entry ∈ tree.entries, (coder.symbols entry.index).under < 65536
  total : (coder.symbols context).total =
    (coder.symbols context).escapes + tree.weight + 256 * contextMinimum context
  bounded : (coder.symbols context).total ≤ rangeCoderBottom - 0x100
  escapes : tree ≠ .nil →
    1 ≤ (coder.symbols context).escapes ∧
      (coder.symbols context).escapes < (coder.symbols context).total

/-- A turn of the loop of `enet_range_coder_compress`. -/
def CompressTurn (beyond : Nat → UInt8) (state state' : BufferCursor × RangeCoder × RangeEncoder) :
    Prop :=
  ∃ value, state.1.next beyond = some (value, state'.1) ∧
    state.2.1.encodeValue state.2.2 value = .ok state'.2

/-- The states of the loop of `enet_range_coder_compress` for a table and for buffers. -/
def CompressReaches (symbols : Nat → CodeSymbol) (beyond : Nat → UInt8) (current : List UInt8)
    (rest : List (List UInt8)) (outLimit : Nat)
    (state : BufferCursor × RangeCoder × RangeEncoder) : Prop :=
  ∃ coder, RangeCoder.start symbols = .ok coder ∧
    Relation.ReflTransGen (CompressTurn beyond)
      (⟨current, rest, 0⟩, coder, ⟨0, 0xFFFFFFFF, [], outLimit⟩) state

namespace Modeled

variable {coder : RangeCoder} {forest : Nat → CodeTree} {path : List Nat}

theorem models (modeled : Modeled Ordered coder forest path) {context : Nat}
    (inUse : context < coder.nextSymbol) : coder.Models context (forest context) := by
  have holds := modeled.inv.holds context inUse
  have ordered := modeled.inv.kept context
  obtain ⟨small, total, bounded, escapes⟩ := modeled.books context inUse
  refine ⟨holds, ordered.ascending, fun entry member => ⟨ordered.counted entry member, ?_⟩,
    fun entry member => ?_, total, bounded, fun filled => ⟨escapes (.inl filled), ?_⟩⟩
  · have := small entry member
    omega
  · have := holds.under_le entry member
    dsimp only [rangeCoderBottom] at bounded
    omega
  · cases tree : forest context with
    | nil => exact absurd tree filled
    | node entry left right =>
        have member : entry ∈ (forest context).entries := by
          rw [tree, CodeTree.entries_node]
          exact List.mem_append_right _ List.mem_cons_self
        have counted := ordered.counted entry member
        have weight := CodeTree.count_le_weight member
        omega

/-- The parents of the prediction lead to the root. -/
theorem parents {Kind : CodeTree → Prop} (modeled : Modeled Kind coder forest path) :
    ∃ steps ≤ 2, (fun index => (coder.symbols index).parent)^[steps] coder.predicted = 0 := by
  have leads : ∀ (path : List Nat) (index : Nat), Path forest path index →
      (fun index => (coder.symbols index).parent)^[path.length] index = 0 := by
    intro path
    induction path using List.reverseRecOn with
    | nil =>
        intro index leads
        cases leads with
        | root => rfl
    | append_singleton path oldest ih =>
        intro index leads
        rw [List.length_append, List.length_singleton, Function.iterate_succ_apply]
        exact ih _ (modeled.inv.parent_path leads List.not_mem_nil)
  exact ⟨path.length, modeled.length ▸ modeled.order, leads path _ modeled.predicted⟩

end Modeled

/-- **Each turn of the compressor keeps its table and its registers in order.** -/
theorem compressTurn_keeps {beyond : Nat → UInt8}
    {state state' : BufferCursor × RangeCoder × RangeEncoder}
    (turn : CompressTurn beyond state state')
    (ordered : state.2.2.Ready ∧ ∃ forest path, Modeled Ordered state.2.1 forest path) :
    state'.2.2.Ready ∧ ∃ forest path, Modeled Ordered state'.2.1 forest path := by
  obtain ⟨value, -, codes⟩ := turn
  obtain ⟨ready, forest, path, modeled⟩ := ordered
  have ends := modeled.encodeValue ready value
  have agrees := RangeCoder.encodeValueChecked_agrees state.2.1 state.2.2 value
  rcases ends with stops | ⟨result, returns, good⟩
  · rw [agrees.of_stop stops] at codes
    cases codes
  · rw [agrees.of_ok returns] at codes
    cases codes
    exact good

theorem CompressReaches.ordered {symbols : Nat → CodeSymbol} {beyond : Nat → UInt8}
    {current : List UInt8} {rest : List (List UInt8)} {outLimit : Nat}
    {state : BufferCursor × RangeCoder × RangeEncoder}
    (reached : CompressReaches symbols beyond current rest outLimit state) :
    state.2.2.Ready ∧ ∃ forest path, Modeled Ordered state.2.1 forest path := by
  obtain ⟨coder, starts, run⟩ := reached
  obtain ⟨coder', forest, starts', modeled⟩ := modeled_start Ordered.kind symbols
  rw [starts] at starts'
  cases starts'
  induction run with
  | refl => exact ⟨RangeEncoder.ready_start outLimit, forest, [], modeled⟩
  | tail _ turn ih => exact compressTurn_keeps turn ih

/-- **The model of the compressor is in order after every byte of every run**, over
updates, halvings and new tables: each context has a search tree, its numbers agree
with the tree and fit their fields, the prediction is at most two contexts away from
the root, and the registers are settled. The next byte, whichever it is, is coded
without a value that wraps and with the registers settled after each normalisation. -/
theorem compress_keeps_model {symbols : Nat → CodeSymbol} {beyond : Nat → UInt8}
    {current : List UInt8} {rest : List (List UInt8)} {outLimit : Nat} {cursor : BufferCursor}
    {coder : RangeCoder} {encoder : RangeEncoder}
    (reached : CompressReaches symbols beyond current rest outLimit (cursor, coder, encoder)) :
    (∀ context < coder.nextSymbol, ∃ tree, coder.Models context tree) ∧
      (∃ steps ≤ 2, (fun index => (coder.symbols index).parent)^[steps] coder.predicted = 0) ∧
      encoder.low + encoder.range ≤ 2 ^ 32 ∧ 2 ^ 16 ≤ encoder.range ∧
      ∀ value, coder.encodeValueChecked encoder value =
        (coder.encodeValue encoder value).checked := by
  obtain ⟨ready, forest, path, modeled⟩ := reached.ordered
  dsimp only at ready modeled
  refine ⟨fun context inUse => ⟨forest context, modeled.models inUse⟩, modeled.parents,
    ready.carry, ready.wide, fun value => ?_⟩
  exact (RangeCoder.encodeValueChecked_agrees coder encoder value).of_ends
    (modeled.encodeValue ready value)

/-- The turns that code some of the bytes of a buffer. -/
theorem compressTurns_of_encodeValues {beyond : Nat → UInt8} {rest : List (List UInt8)}
    {left values : List UInt8} {outside : Nat} {result : RangeCoder × RangeEncoder} :
    ∀ {coder : RangeCoder} {encoder : RangeEncoder},
      RangeCoder.encodeValues values coder encoder = .ok result →
      Relation.ReflTransGen (CompressTurn beyond)
        (⟨values ++ left, rest, outside⟩, coder, encoder) (⟨left, rest, outside⟩, result) := by
  induction values with
  | nil =>
      intro coder encoder codes
      cases codes
      exact .refl
  | cons value values ih =>
      intro coder encoder codes
      unfold RangeCoder.encodeValues at codes
      split at codes
      · cases codes
      next coder' encoder' codes' => exact .head ⟨value, rfl, codes'⟩ (ih codes)

/-- The state after ten of eleven bytes, in which two bytes follow a third: two nodes stand
in the tree of its context, and the first has been counted again. -/
theorem compress_keeps_model_bytes : ∃ (cursor : BufferCursor) (coder : RangeCoder)
    (encoder : RangeEncoder), cursor.current = [2] ∧
      (coder.nextSymbol = 12 ∧ coder.predicted = 2 ∧ (coder.symbols 2).right = 5 ∧
        (coder.symbols 2).count = 4) ∧
      ((∀ context < coder.nextSymbol, ∃ tree, coder.Models context tree) ∧
        (∃ steps ≤ 2, (fun index => (coder.symbols index).parent)^[steps] coder.predicted = 0) ∧
        encoder.low + encoder.range ≤ 2 ^ 32 ∧ 2 ^ 16 ≤ encoder.range ∧
        ∀ value, coder.encodeValueChecked encoder value =
          (coder.encodeValue encoder value).checked) := by
  obtain ⟨started, starts⟩ : ∃ coder,
      RangeCoder.start (fun _ => RangeCoder.newSymbol 0 0) = .ok coder := ⟨_, rfl⟩
  have evaluated : ((RangeCoder.start fun _ => RangeCoder.newSymbol 0 0).bind fun coder =>
      RangeCoder.encodeValues [1, 2, 1, 3, 1, 2, 1, 3, 1, 2] coder
        ⟨0, 0xFFFFFFFF, [], 100⟩).toOption.map (fun result =>
      (result.1.nextSymbol, result.1.predicted, (result.1.symbols 2).right,
        (result.1.symbols 2).count)) = some (12, 2, 5, 4) := by decide +kernel
  rw [starts] at evaluated
  obtain ⟨⟨coder, encoder⟩, codes, same⟩ := Option.map_eq_some_iff.mp evaluated
  have codes : RangeCoder.encodeValues [1, 2, 1, 3, 1, 2, 1, 3, 1, 2] started
      ⟨0, 0xFFFFFFFF, [], 100⟩ = .ok (coder, encoder) := by
    change (RangeCoder.encodeValues [1, 2, 1, 3, 1, 2, 1, 3, 1, 2] started
      ⟨0, 0xFFFFFFFF, [], 100⟩).toOption = _ at codes
    generalize RangeCoder.encodeValues _ started _ = result at codes ⊢
    cases result with
    | error stop => cases codes
    | ok other => exact congrArg Except.ok (Option.some.inj codes)
  rw [Prod.mk.injEq, Prod.mk.injEq, Prod.mk.injEq] at same
  have reached : CompressReaches (fun _ => RangeCoder.newSymbol 0 0) (fun _ => 0)
      [1, 2, 1, 3, 1, 2, 1, 3, 1, 2, 2] [] 100 (⟨[2], [], 0⟩, coder, encoder) :=
    ⟨started, starts, compressTurns_of_encodeValues codes⟩
  exact ⟨⟨[2], [], 0⟩, coder, encoder, rfl, same, compress_keeps_model reached⟩

end Enet
