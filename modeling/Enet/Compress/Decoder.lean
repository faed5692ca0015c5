import Enet.Compress.Invariant
import Enet.Compress.Seeks

/-!
# The decoder for any input

An input that no encoder produces leads the decoder to codes that have no symbol,
and lets its low end pass 2^32. The trees lose their order then, and the registers
may be unsettled, but the range stays wide enough for a total, the symbols stay
inside the table, and the parents of the prediction lead to the root.
-/

set_option autoImplicit false

namespace Enet

/-! ## Registers -/

/-- The registers of the decoder: a low end that has passed 2^32 has a range which does
not reach the same top byte again. -/
structure Tame (low range : Nat) : Prop where
  below : low < 4294967296
  positive : 0 < range
  passed : InRange low range ∨ range ≤ 4278190080

theorem InRange.tame {low range : Nat} (inRange : InRange low range) : Tame low range := by
  have positive := inRange.positive
  have carry := inRange.carry
  exact ⟨by omega, positive, .inl inRange⟩

namespace Tame

variable {low range : Nat}

theorem range_le (tame : Tame low range) : range ≤ 4294967296 := by
  rcases tame.passed with inRange | few
  · have := inRange.carry
    omega
  · omega

/-- A turn from a low end that has passed 2^32 leaves the range in front of a border. -/
theorem next {cut : Nat} (tame : Tame low range) (shifts : settleRange low range = some cut) :
    cut * 256 < 4294967296 ∧ InRange (u32 (low * 256)) (cut * 256) := by
  obtain ⟨below, positive, inRange | few⟩ := tame
  · exact ⟨(inRange.turn shifts).2.1, inRange.next shifts⟩
  · by_cases inside : low + range ≤ 4294967296
    · have inRange : InRange low range := by
        refine ⟨positive, inside, fun last => ?_⟩
        dsimp only [rangeCoderTop]
        omega
      exact ⟨(inRange.turn shifts).2.1, inRange.next shifts⟩
    · have wraps : u32 (low + range) = low + range - 4294967296 := by
        dsimp only [u32]
        omega
      unfold settleRange at shifts
      split at shifts
      next differ =>
          split at shifts
          next => cases shifts
          next small =>
              cases shifts
              rw [and_bottom_eq]
              have apart := mt (xor_lt_top_iff _ _).mpr (Nat.not_lt.mpr differ)
              rw [wraps] at apart
              have cut : sub32 0 low % rangeCoderBottom = 4294967296 - low := by
                unfold sub32
                dsimp only [rangeCoderBottom] at *
                split <;> omega
              have shifted : u32 (low * 256) + (4294967296 - low) * 256 = 4294967296 := by
                dsimp only [rangeCoderBottom, u32] at *
                omega
              rw [cut]
              dsimp only [rangeCoderBottom] at small
              refine ⟨by omega, by omega, by omega, fun _ => ?_⟩
              dsimp only [rangeCoderTop]
              omega
      next same =>
          have border := (xor_lt_top_iff _ _).mp (Nat.not_le.mp same)
          rw [wraps] at border
          dsimp only [rangeCoderTop] at border
          omega

/-- **The normalisation ends**, with registers of this kind. -/
theorem settles (tame : Tame low range) :
    ∃ turns < rangeTurns, ∃ low' range',
      Settles turns low range low' range' ∧ Tame low' range' := by
  cases shifts : settleRange low range with
  | none => exact ⟨0, by decide, low, range, .done shifts, tame⟩
  | some cut =>
      obtain ⟨small, inRange⟩ := tame.next shifts
      have positive := inRange.positive
      obtain ⟨used, few, low', range', settles, inRange'⟩ := inRange.settles 3 (by
        dsimp only [rangeCoderTop]
        omega)
      exact ⟨used + 1, Nat.lt_of_le_of_lt (Nat.succ_le_succ few) (by decide), low', range',
        .turn shifts small settles, inRange'.tame⟩

end Tame

namespace RangeDecoder

/-- The registers between two codings. -/
structure Ready (decoder : RangeDecoder) : Prop where
  wide : rangeCoderBottom ≤ decoder.range
  tame : Tame decoder.low decoder.range

/-- What is shifted into a code from the right, and the bytes that are left: a byte that
is missing is 0. -/
def shiftIns : (turns code : Nat) → List UInt8 → Nat × List UInt8
  | 0, code, input => (code, input)
  | turns + 1, code, [] => shiftIns turns (u32 (code * 256)) []
  | turns + 1, code, byte :: input => shiftIns turns (u32 (code * 256 + byte.toNat)) input

/-- What the loop of the decoder does for the turns it takes. -/
theorem normalise_settles {turns low range low' range' : Nat}
    (settles : Settles turns low range low' range') :
    ∀ {code fuel : Nat} {input : List UInt8}, turns < fuel →
    normalise fuel ⟨low, code, range, input⟩ =
      .ok ⟨low', (shiftIns turns code input).1, range', (shiftIns turns code input).2⟩ := by
  induction settles with
  | @done low range settled =>
      intro code fuel input enough
      obtain ⟨fuel, rfl⟩ : ∃ rest, fuel = rest + 1 := ⟨fuel - 1, by omega⟩
      unfold normalise
      rw [settled]
      rfl
  | @turn turns low range cut low' range' shifts small rest ih =>
      intro code fuel input enough
      obtain ⟨fuel, rfl⟩ : ∃ rest, fuel = rest + 1 := ⟨fuel - 1, by omega⟩
      have fits : u32 (cut * 256) = cut * 256 := Nat.mod_eq_of_lt small
      unfold normalise
      rw [shifts]
      dsimp only
      rw [fits]
      cases input with
      | nil => exact ih (Nat.lt_of_succ_lt_succ enough)
      | cons byte input => exact ih (Nat.lt_of_succ_lt_succ enough)

variable {decoder : RangeDecoder}

/-- No divisor of the decoder is zero. -/
theorem Ready.read {total : Nat} (ready : decoder.Ready) (positive : 0 < total)
    (small : total < rangeCoderBottom) :
    decoder.read total = .ok ({ decoder with range := decoder.range / total },
      u16 (sub32 decoder.code decoder.low / (decoder.range / total))) := by
  have wide := ready.wide
  have unit : 0 < decoder.range / total := Nat.div_pos (by omega) positive
  unfold RangeDecoder.read
  rw [if_neg (Nat.ne_of_gt positive)]
  dsimp only
  rw [if_neg (Nat.ne_of_gt unit)]

/-- **Decoding narrows the registers and settles them**, for any symbol that is not all of
the total. -/
theorem Ready.decode_settles {under count total : Nat} (ready : decoder.Ready)
    (positive : 0 < count) (less : count < total) (small : total < rangeCoderBottom)
    (few : under = 0 ∨ count ≤ 255) :
    ∃ turns low range, Settles turns (u32 (decoder.low + under * (decoder.range / total)))
        (u32 (decoder.range / total * count)) low range ∧
      RangeDecoder.decode { decoder with range := decoder.range / total } under count =
        .ok ⟨low, (shiftIns turns decoder.code decoder.input).1, range,
          (shiftIns turns decoder.code decoder.input).2⟩ ∧
      Ready ⟨low, (shiftIns turns decoder.code decoder.input).1, range,
        (shiftIns turns decoder.code decoder.input).2⟩ := by
  have wide := ready.wide
  have top := ready.tame.range_le
  have unit : 1 ≤ decoder.range / total := Nat.div_pos (by omega) (by omega)
  have whole : (count + 1) * (decoder.range / total) ≤ decoder.range :=
    Nat.le_trans (Nat.mul_le_mul_right _ less) (Nat.mul_div_le _ _)
  rw [Nat.add_mul, Nat.one_mul, Nat.mul_comm count] at whole
  have share : decoder.range / total * 1 ≤ decoder.range / total * count :=
    Nat.mul_le_mul_left _ positive
  have range : u32 (decoder.range / total * count) = decoder.range / total * count :=
    Nat.mod_eq_of_lt (by omega)
  have tame : Tame (u32 (decoder.low + under * (decoder.range / total)))
      (u32 (decoder.range / total * count)) := by
    rw [range]
    refine ⟨Nat.mod_lt _ (by decide), by omega, ?_⟩
    have shrinks : count ≤ 255 → decoder.range / total * count ≤ 4278190080 := by
      intro few
      by_cases wide : 16777216 ≤ decoder.range / total
      · omega
      · have := Nat.mul_le_mul (Nat.le_of_lt (Nat.not_le.mp wide)) few
        omega
    rcases few with rfl | few
    · have low : u32 (decoder.low + 0 * (decoder.range / total)) = decoder.low := by
        rw [Nat.zero_mul, Nat.add_zero]
        exact Nat.mod_eq_of_lt ready.tame.below
      rw [low]
      rcases ready.tame.passed with inRange | few
      · have carry := inRange.carry
        exact .inl ⟨by omega, by omega, fun last => by omega⟩
      · exact .inr (by omega)
    · exact .inr (shrinks few)
  obtain ⟨turns, enough, low', range', settles, tame'⟩ := tame.settles
  exact ⟨turns, low', range', settles, normalise_settles settles enough, settles.wide, tame'⟩

/-- **Decoding keeps the registers ready.** -/
theorem Ready.decode {under count total : Nat} (ready : decoder.Ready) (positive : 0 < count)
    (less : count < total) (small : total < rangeCoderBottom) (few : under = 0 ∨ count ≤ 255) :
    ∃ decoder', RangeDecoder.decode { decoder with range := decoder.range / total } under count =
      .ok decoder' ∧ decoder'.Ready := by
  obtain ⟨turns, low, range, -, decodes, ready'⟩ := ready.decode_settles positive less small few
  exact ⟨_, decodes, ready'⟩

end RangeDecoder

/-! ## Parents -/

/-- A number of steps from a context to a parent of parents. -/
inductive ParentsLead (coder : RangeCoder) : (steps context context' : Nat) → Prop where
  | here (context : Nat) : ParentsLead coder 0 context context
  | up {steps context context' : Nat}
      (rest : ParentsLead coder steps (coder.symbols context).parent context') :
      ParentsLead coder (steps + 1) context context'

/-- The parents of a context lead where they led before as long as they are the same. -/
theorem ParentsLead.congr {Kind : CodeTree → Prop} {coder coder' : RangeCoder}
    {forest : Nat → CodeTree} {pending : List Nat} {limit : Nat}
    (inv : Forest Kind coder forest pending)
    (same : ∀ {other : Nat} {above : List Nat}, Path forest above other → above.length ≤ limit →
      other ∉ pending ∧ (coder'.symbols other).parent = (coder.symbols other).parent)
    (older : List Nat) :
    ∀ {path : List Nat} {context context' : Nat}, Path forest (path ++ older) context →
    (path ++ older).length ≤ limit → ParentsLead coder older.length context context' →
    ParentsLead coder' older.length context context' := by
  induction older using List.reverseRecOn with
  | nil =>
      intro path context context' leads low steps
      cases steps with
      | here => exact .here context
  | append_singleton older oldest ih =>
      intro path context context' leads low steps
      rw [List.length_append, List.length_singleton] at steps ⊢
      rw [← List.append_assoc] at leads low
      obtain ⟨settled, parent⟩ := same leads low
      rw [List.length_append, List.length_singleton] at low
      cases steps with
      | up rest =>
          refine .up ?_
          rw [parent]
          exact ih (inv.parent_path leads settled) (by omega) rest

/-- The parents of a context lead to the root. -/
theorem Forest.parentsLead {Kind : CodeTree → Prop} {coder : RangeCoder} {forest : Nat → CodeTree}
    (inv : Forest Kind coder forest []) (path : List Nat) :
    ∀ {context : Nat}, Path forest path context → ParentsLead coder path.length context 0 := by
  induction path using List.reverseRecOn with
  | nil =>
      intro context leads
      cases leads with
      | root => exact .here 0
  | append_singleton path oldest ih =>
      intro context leads
      rw [List.length_append, List.length_singleton]
      exact .up (ih (inv.parent_path leads List.not_mem_nil))

/-! ## Decoding in a context -/

/-- The table after a value was decoded in a context, or in a parent of it that stands for
the values of `path`, and counted there. -/
structure DecodedIn (Kind : CodeTree → Prop) (coder coder' : RangeCoder)
    (forest forest' : Nat → CodeTree) (context : Nat) (path older : List Nat)
    (decoded : RangeCoder.Decoded) : Prop where
  inv : Forest Kind coder' forest' []
  books : ∀ other < coder'.nextSymbol, Books coder' other (forest' other)
  names : ∀ other, (forest other).names ⊆ (forest' other).names
  leads : ParentsLead coder' older.length context decoded.subcontext
  subcontext : Path forest' path decoded.subcontext
  bottom : Path forest' (decoded.value :: path) decoded.bottom
  byte : decoded.value < 256
  parents : ∀ index < coder.nextSymbol,
    (coder'.symbols index).parent = (coder.symbols index).parent
  next : coder'.nextSymbol ≤ coder.nextSymbol + 1
  predicted : coder'.predicted = coder.predicted
  order : coder'.order = coder.order

/-- The table after a value was put into the tree of a context. -/
theorem Encodes.visited {Kind : CodeTree → Prop} {coder coder' : RangeCoder}
    {forest : Nat → CodeTree} {context value : Nat} {tree' : CodeTree} {coded : CodedSymbol}
    {found : Bool} (path : List Nat) (inv : Forest Kind coder forest [])
    (books : ∀ other < coder.nextSymbol, Books coder other (forest other))
    (below : context < coder.nextSymbol) (room : coder.nextSymbol < rangeCoderSymbols)
    (kept : Kind tree')
    (grown : CodeTree.Grown value (contextDelta context) coder.nextSymbol (forest context) tree'
      coded found)
    (encodes : Encodes coder coder' context (forest context) tree' found) :
    VisitedContext Kind coder coder' forest context path tree' found :=
  ⟨inv.encode below room kept grown encodes, encodes.books inv books,
    fun _ inUse => encodes.sameEscapes inUse, fun absent => (encodes.created absent).escapes,
    encodes.total, fun leads _ => encodes.sameParent (inv.path_lt leads), encodes.next,
    encodes.order⟩

section Decode

variable {Kind : CodeTree → Prop} {coder coder' coder'' : RangeCoder}
  {forest forest'' : Nat → CodeTree} {context value code : Nat} {path : List Nat}
  {tree' : CodeTree} {coded : CodedSymbol} {found : Bool}

/-- A value was decoded in a context that has its symbol, or in the root. -/
theorem Recounted.decoded
    (counted : Recounted Kind coder' coder'' (Function.update forest context tree') forest''
      (Forest.pendingAfter [] context coder.nextSymbol found))
    (settled : found = true ∨ context = 0) (encodes : Encodes coder coder' context
      (forest context) tree' found)
    (grown : CodeTree.Grown value (contextDelta context) coder.nextSymbol (forest context) tree'
      coded found)
    (leads : Path forest path context) (byte : value < 256) :
    DecodedIn Kind coder coder'' forest forest'' context path []
      ⟨value, context, coded.symbol⟩ := by
  have grows := Forest.subset_update grown
  have bound : coder'.nextSymbol ≤ coder.nextSymbol + 1 := by
    rw [encodes.next]
    split
    · exact Nat.le_succ _
    · exact Nat.le_refl _
  refine ⟨?_, counted.books, ?_, .here context, counted.leads (leads.mono grows),
    counted.leads (.child (leads.mono grows) ?_), byte, ?_, ?_,
    counted.predicted.trans encodes.predicted, counted.order.trans encodes.order⟩
  · have inv := counted.inv
    unfold Forest.pendingAfter at inv
    rwa [if_pos settled] at inv
  · intro other
    rw [counted.names]
    exact grows other
  · rw [Function.update_self]
    exact grown.symbol_mem
  · intro index inUse
    rw [counted.parents index (Nat.lt_of_lt_of_le inUse encodes.nextSymbol_le)]
    exact encodes.sameParent inUse
  · rw [counted.next]
    exact bound

/-- **A value that is decoded in a subcontext is counted there**, in any tree that has a
symbol for the code. -/
theorem Modeled.tryDecode {recent : List Nat} (kind : TreeKind Kind)
    (modeled : Modeled Kind coder forest recent) (leads : Path forest path context)
    (notRoot : context ≠ 0) (kept : ((forest context).seek code 0 subcontextSymbolDelta
      coder.nextSymbol 0).found = true → Kind ((forest context).seek code 0 subcontextSymbolDelta
        coder.nextSymbol 0).tree) :
    ∃ coder', coder.contextTryDecode context code =
        (if ((forest context).seek code 0 subcontextSymbolDelta coder.nextSymbol 0).found then
          .ok (coder',
            ((forest context).seek code 0 subcontextSymbolDelta coder.nextSymbol 0).value,
            ((forest context).seek code 0 subcontextSymbolDelta coder.nextSymbol 0).coded)
        else .error .nothing) ∧
      (((forest context).seek code 0 subcontextSymbolDelta coder.nextSymbol 0).found = true →
        Encodes coder coder' context (forest context)
          ((forest context).seek code 0 subcontextSymbolDelta coder.nextSymbol 0).tree true ∧
        ∃ coder'', coder'.countSubcontext context 0
            ((forest context).seek code 0 subcontextSymbolDelta coder.nextSymbol 0).coded.count =
              .ok coder'' ∧
          ∃ forest'', Recounted Kind coder' coder'' (Function.update forest context
            ((forest context).seek code 0 subcontextSymbolDelta coder.nextSymbol 0).tree) forest''
            (Forest.pendingAfter [] context coder.nextSymbol true) ∧
            CountedIn coder' coder'' (Function.update forest context
              ((forest context).seek code 0 subcontextSymbolDelta coder.nextSymbol 0).tree) forest''
              context ((coder.symbols context).escapes + RangeCoder.escapeDelta
                ((forest context).seek code 0 subcontextSymbolDelta coder.nextSymbol 0).coded.count)
              (RangeCoder.needsRescale
                ((forest context).seek code 0 subcontextSymbolDelta coder.nextSymbol 0).coded.count
                ((coder.symbols context).total + RangeCoder.escapeDelta
                  ((forest context).seek code 0 subcontextSymbolDelta
                    coder.nextSymbol 0).coded.count + subcontextSymbolDelta)
                (0xFF - 2 * subcontextSymbolDelta))) := by
  obtain ⟨inv, books, -, -, -, free⟩ := modeled
  have below := inv.path_lt leads
  have own := books context below
  have sum := own.total
  have bounded := own.bounded
  have delta : contextDelta context = 2 := if_neg notRoot
  have small := own.small
  have sound := kind.sound (inv.kept context)
  rw [delta] at small
  dsimp only [rangeCoderBottom] at bounded
  dsimp only [rangeCoderSymbols, subcontextOrder] at free
  obtain ⟨coder', decodes, encodes⟩ := @RangeCoder.contextTryDecode_seeks coder context code
    (forest context) below (inv.holds context below) (inv.distinct context) (inv.inside context)
    inv.room sound.bytes
    (fun entry member => by
      have := small entry member
      dsimp only [subcontextSymbolDelta]
      omega)
    (by dsimp only [subcontextSymbolDelta]; omega)
  refine ⟨coder', decodes, fun found => ⟨encodes found, ?_⟩⟩
  have grown := CodeTree.seek_grown code 0 subcontextSymbolDelta coder.nextSymbol (forest context)
    0
  have kept := kept found
  have encodes := encodes found
  rw [found] at grown
  generalize (forest context).seek code 0 subcontextSymbolDelta coder.nextSymbol 0 = sought at *
  have grown' : CodeTree.Grown sought.value (contextDelta context) coder.nextSymbol
      (forest context) sought.tree sought.coded true := by
    rw [delta]
    exact grown
  have visited := Encodes.visited path inv books below (by
    dsimp only [rangeCoderSymbols]
    omega) kept grown' encodes
  have inTable : context < rangeCoderSymbols := Nat.lt_of_lt_of_le below inv.room
  obtain ⟨coder'', counts, forest'', counted⟩ :=
    visited.countSubcontext kind grown' sound.counted own inTable below notRoot
  have positive := (grown'.count_pos sound.counted).mpr rfl
  have none : RangeCoder.escapeDelta sought.coded.count = 0 := if_neg (Nat.ne_of_gt positive)
  rw [none] at counts
  exact ⟨coder'', (RangeCoder.countSubcontextChecked_agrees ..).of_ok counts, forest'', counted⟩

/-- **A value that is decoded in the root is counted there**, with a symbol that may be new. -/
theorem Modeled.rootDecode {recent : List Nat} (kind : TreeKind Kind)
    (modeled : Modeled Kind coder forest recent)
    (kept : Kind ((forest 0).seek code 1 contextSymbolDelta coder.nextSymbol 0).tree) :
    ∃ coder', coder.contextRootDecode code = .ok (coder',
        ((forest 0).seek code 1 contextSymbolDelta coder.nextSymbol 0).value,
        ⟨((forest 0).seek code 1 contextSymbolDelta coder.nextSymbol 0).coded.symbol,
          if ((forest 0).seek code 1 contextSymbolDelta coder.nextSymbol 0).found then
            ((forest 0).seek code 1 contextSymbolDelta coder.nextSymbol 0).value +
              ((forest 0).seek code 1 contextSymbolDelta coder.nextSymbol 0).coded.under
          else code,
          1 + ((forest 0).seek code 1 contextSymbolDelta coder.nextSymbol 0).coded.count⟩) ∧
      Encodes coder coder' 0 (forest 0)
        ((forest 0).seek code 1 contextSymbolDelta coder.nextSymbol 0).tree
        ((forest 0).seek code 1 contextSymbolDelta coder.nextSymbol 0).found ∧
      ∃ coder'', coder'.countRoot
          (1 + ((forest 0).seek code 1 contextSymbolDelta coder.nextSymbol 0).coded.count) =
            .ok coder'' ∧
        ∃ forest'', Recounted Kind coder' coder'' (Function.update forest 0
          ((forest 0).seek code 1 contextSymbolDelta coder.nextSymbol 0).tree) forest''
          (Forest.pendingAfter [] 0 coder.nextSymbol
            ((forest 0).seek code 1 contextSymbolDelta coder.nextSymbol 0).found) ∧
          CountedIn coder' coder'' (Function.update forest 0
            ((forest 0).seek code 1 contextSymbolDelta coder.nextSymbol 0).tree) forest'' 0
            (coder.symbols 0).escapes (RangeCoder.needsRescale
              (1 + ((forest 0).seek code 1 contextSymbolDelta coder.nextSymbol 0).coded.count)
              ((coder.symbols 0).total + contextSymbolDelta)
              (0xFF - 2 * contextSymbolDelta + contextSymbolMinimum)) := by
  obtain ⟨inv, books, -, -, -, free⟩ := modeled
  have below := inv.rooted
  have own := books 0 below
  have sum := own.total
  have bounded := own.bounded
  have small := own.small
  have sound := kind.sound (inv.kept 0)
  have minimum : contextMinimum 0 = 1 := rfl
  have delta : contextDelta 0 = 3 := rfl
  rw [minimum] at sum
  rw [delta] at small
  dsimp only [rangeCoderBottom] at bounded
  dsimp only [rangeCoderSymbols, subcontextOrder] at free
  have room : coder.nextSymbol < rangeCoderSymbols := by
    dsimp only [rangeCoderSymbols]
    omega
  obtain ⟨coder', decodes, encodes⟩ := @RangeCoder.contextRootDecode_seeks coder code (forest 0)
    below (inv.holds 0 below) (inv.distinct 0) (inv.inside 0) room sound.bytes
    (fun entry member => by
      have := small entry member
      dsimp only [contextSymbolDelta]
      omega)
    (by dsimp only [contextSymbolDelta]; omega)
  refine ⟨coder', decodes, encodes, ?_⟩
  have grown := CodeTree.seek_grown code 1 contextSymbolDelta coder.nextSymbol (forest 0) 0
  generalize (forest 0).seek code 1 contextSymbolDelta coder.nextSymbol 0 = sought at *
  have visited := Encodes.visited [] inv books below room kept grown encodes
  obtain ⟨coder'', counts, forest'', counted⟩ := visited.countRoot kind grown own below
  exact ⟨coder'', (RangeCoder.countRootChecked_agrees ..).of_ok counts, forest'', counted⟩

end Decode

/-! ## The contexts of a value -/

namespace Coding

variable {α β : Type}

/-- A computation that returns something good, or ends the function with no result. -/
def Ends (result : Coding α) (good : α → Prop) : Prop :=
  result = .error .nothing ∨ ∃ value, result = .ok value ∧ good value

theorem Ends.bind {result : Coding α} {next : α → Coding β} {good : α → Prop} {better : β → Prop}
    (ends : Ends result good) (after : ∀ value, good value → Ends (next value) better) :
    Ends (result >>= next) better := by
  rcases ends with stops | ⟨value, returns, isGood⟩
  · rw [stops]
    exact .inl rfl
  · rw [returns]
    exact after value isGood

theorem Ends.mono {result : Coding α} {good better : α → Prop} (ends : Ends result good)
    (implies : ∀ value, good value → better value) : Ends result better := by
  rcases ends with stops | ⟨value, returns, isGood⟩
  · exact .inl stops
  · exact .inr ⟨value, returns, implies value isGood⟩

end Coding

/-- What the decoder has done once it has looked for a value from a context on: nothing to
the table where no context has its symbol. -/
structure DecodedFrom (coder : RangeCoder) (forest : Nat → CodeTree) (context : Nat)
    (path : List Nat) (result : RangeCoder × RangeDecoder × Option RangeCoder.Decoded) : Prop where
  ready : result.2.1.Ready
  none : result.2.2 = none → result.1 = coder
  some : ∀ decoded, result.2.2 = some decoded → ∃ forest' above older, above ++ older = path ∧
    DecodedIn Sound coder result.1 forest forest' context above older decoded

/-- What was decoded from the parent of a context was decoded from the context. -/
theorem DecodedIn.up {Kind : CodeTree → Prop} {coder coder' : RangeCoder}
    {forest forest' : Nat → CodeTree} {context oldest : Nat} {above older : List Nat}
    {decoded : RangeCoder.Decoded}
    (inner : DecodedIn Kind coder coder' forest forest' (coder.symbols context).parent above older
      decoded) (below : context < coder.nextSymbol) :
    DecodedIn Kind coder coder' forest forest' context above (older ++ [oldest]) decoded := by
  refine ⟨inner.inv, inner.books, inner.names, ?_, inner.subcontext, inner.bottom, inner.byte,
    inner.parents, inner.next, inner.predicted, inner.order⟩
  rw [List.length_append, List.length_singleton]
  refine .up ?_
  rw [inner.parents context below]
  exact inner.leads

/-- What was decoded in the root was decoded from any context. -/
theorem DecodedIn.ofRoot {Kind : CodeTree → Prop} {coder coder' : RangeCoder}
    {forest forest' : Nat → CodeTree} {context : Nat} {path : List Nat}
    {decoded : RangeCoder.Decoded}
    (inner : DecodedIn Kind coder coder' forest forest' 0 [] [] decoded)
    (leads : Path forest path context) :
    DecodedIn Kind coder coder' forest forest' context [] path decoded := by
  have root : ∀ {index : Nat}, Path forest' [] index → index = 0 := by
    intro index leads
    cases leads with
    | root => rfl
  refine ⟨inner.inv, inner.books, inner.names, ?_, inner.subcontext, inner.bottom, inner.byte,
    inner.parents, inner.next, inner.predicted, inner.order⟩
  rw [root inner.subcontext]
  exact inner.inv.parentsLead path (leads.mono inner.names)

theorem DecodedFrom.up {coder : RangeCoder} {forest : Nat → CodeTree} {context oldest : Nat}
    {path : List Nat} {result : RangeCoder × RangeDecoder × Option RangeCoder.Decoded}
    (decoded : DecodedFrom coder forest (coder.symbols context).parent path result)
    (below : context < coder.nextSymbol) :
    DecodedFrom coder forest context (path ++ [oldest]) result := by
  refine ⟨decoded.ready, decoded.none, fun found same => ?_⟩
  obtain ⟨forest', above, older, rfl, inner⟩ := decoded.some found same
  exact ⟨forest', above, older ++ [oldest], (List.append_assoc ..).symm, inner.up below⟩

section Contexts

variable {coder : RangeCoder} {forest : Nat → CodeTree} {recent : List Nat}

/-- **The loop of the decoder over the subcontexts ends** at a symbol of the code, at the root
or with no result. -/
theorem Modeled.decodeSubcontexts (modeled : Modeled Sound coder forest recent)
    (path : List Nat) : ∀ {context fuel : Nat} {decoder : RangeDecoder},
    Path forest path context → decoder.Ready → path.length < fuel →
    Coding.Ends (coder.decodeSubcontexts fuel decoder context)
      (DecodedFrom coder forest context path) := by
  have inv := modeled.inv
  induction path using List.reverseRecOn with
  | nil =>
      intro context fuel decoder leads ready enough
      obtain ⟨fuel, rfl⟩ : ∃ rest, fuel = rest + 1 := ⟨fuel - 1, by omega⟩
      cases leads with
      | root =>
          refine .inr ⟨(coder, decoder, none), rfl, ready, fun _ => rfl, ?_⟩
          intro decoded same
          cases same
  | append_singleton path oldest ih =>
      intro context fuel decoder leads ready enough
      obtain ⟨fuel, rfl⟩ : ∃ rest, fuel = rest + 1 := ⟨fuel - 1, by omega⟩
      rw [List.length_append, List.length_singleton] at enough
      have below := inv.path_lt leads
      have inTable : context < rangeCoderSymbols := Nat.lt_of_lt_of_le below inv.room
      have notRoot : context ≠ 0 := by
        rintro rfl
        exact absurd (inv.path_zero leads) (by simp)
      have above := inv.parent_path leads List.not_mem_nil
      have own := modeled.books context below
      have sum := own.total
      have bounded := own.bounded
      have minimum : contextMinimum context = 0 := if_neg notRoot
      dsimp only [rangeCoderBottom] at bounded
      have up : ∀ {decoder' : RangeDecoder}, decoder'.Ready → Coding.Ends
          (coder.decodeSubcontexts fuel decoder' (coder.symbols context).parent)
          (DecodedFrom coder forest context (path ++ [oldest])) := fun ready' =>
        (ih above ready' (by omega)).mono fun result decoded => decoded.up below
      unfold RangeCoder.decodeSubcontexts
      rw [if_neg notRoot, RangeCoder.symbol_of_lt inTable, Coding.ok_bind]
      split
      next => exact up ready
      next escapes =>
          rw [not_or] at escapes
          have small : (coder.symbols context).total < rangeCoderBottom := by
            dsimp only [rangeCoderBottom]
            omega
          rw [ready.read (by omega) small, Coding.ok_bind]
          dsimp only
          split
          next =>
              obtain ⟨decoder', decodes, ready'⟩ := @RangeDecoder.Ready.decode decoder 0
                (coder.symbols context).escapes (coder.symbols context).total ready (by omega)
                (by omega) small (.inl rfl)
              rw [decodes, Coding.ok_bind]
              exact up ready'
          next =>
              have sound := inv.kept context
              have delta : contextDelta context = 2 := if_neg notRoot
              generalize u16 (sub32 decoder.code decoder.low /
                (decoder.range / (coder.symbols context).total)) -
                  (coder.symbols context).escapes = code
              have grown := CodeTree.seek_grown code 0 subcontextSymbolDelta coder.nextSymbol
                (forest context) 0
              have byte := @CodeTree.seek_value_lt code 0 subcontextSymbolDelta coder.nextSymbol
                (forest context) sound.bytes 0
              obtain ⟨coder', decodes, counts⟩ := @Modeled.tryDecode _ _ _ _ code _ _ Sound.kind
                modeled leads notRoot fun _ => sound.grown grown byte (by decide)
              rw [decodes]
              generalize (forest context).seek code 0 subcontextSymbolDelta coder.nextSymbol 0 =
                sought at *
              cases found : sought.found with
              | false => exact .inl rfl
              | true =>
                  rw [found] at grown
                  obtain ⟨encodes, coder'', counts, forest'', counted, -⟩ := counts found
                  rw [if_pos rfl, Coding.ok_bind]
                  dsimp only
                  have positive := (grown.count_pos sound.counted).mpr rfl
                  have within := grown.le_weight
                  have few : sought.coded.count ≤ 255 := by
                    rcases grown.count_mem with ⟨entry, member, same⟩ | none
                    · have := own.small entry member
                      omega
                    · omega
                  obtain ⟨decoder', narrows, ready'⟩ := @RangeDecoder.Ready.decode decoder
                    ((coder.symbols context).escapes + sought.coded.under) sought.coded.count
                    (coder.symbols context).total ready positive (by omega) small (.inr few)
                  rw [narrows, Coding.ok_bind, counts, Coding.ok_bind]
                  refine .inr ⟨_, rfl, ready', ?_, ?_⟩
                  · intro none
                    cases none
                  · intro decoded same
                    cases same
                    refine ⟨forest'', path ++ [oldest], [], List.append_nil _, ?_⟩
                    exact counted.decoded (.inl rfl) encodes (by rw [delta]; exact grown) leads byte

/-- The root is decoded last: a value, or the end of the stream. -/
theorem Modeled.decodeRoot (modeled : Modeled Sound coder forest recent) {decoder : RangeDecoder}
    (ready : decoder.Ready) :
    Coding.Ends (coder.decodeRoot decoder) (DecodedFrom coder forest 0 []) := by
  have inv := modeled.inv
  have inTable : 0 < rangeCoderSymbols := by decide
  have own := modeled.books 0 inv.rooted
  have sum := own.total
  have bounded := own.bounded
  have minimum : contextMinimum 0 = 1 := rfl
  have escapes := own.escapes (.inr rfl)
  dsimp only [rangeCoderBottom] at bounded
  have small : (coder.symbols 0).total < rangeCoderBottom := by
    dsimp only [rangeCoderBottom]
    omega
  unfold RangeCoder.decodeRoot
  rw [RangeCoder.symbol_of_lt inTable, Coding.ok_bind, ready.read (by omega) small,
    Coding.ok_bind]
  dsimp only
  split
  next =>
      obtain ⟨decoder', decodes, ready'⟩ := @RangeDecoder.Ready.decode decoder 0
        (coder.symbols 0).escapes (coder.symbols 0).total ready (by omega) (by omega) small
        (.inl rfl)
      rw [decodes, Coding.ok_bind]
      refine .inr ⟨_, rfl, ready', fun _ => rfl, ?_⟩
      intro decoded same
      cases same
  next =>
      have sound := inv.kept 0
      generalize u16 (sub32 decoder.code decoder.low /
        (decoder.range / (coder.symbols 0).total)) - (coder.symbols 0).escapes = code
      have grown := CodeTree.seek_grown code 1 contextSymbolDelta coder.nextSymbol (forest 0) 0
      have byte := @CodeTree.seek_value_lt code 1 contextSymbolDelta coder.nextSymbol (forest 0)
        sound.bytes 0
      obtain ⟨coder', decodes, encodes, coder'', counts, forest'', counted, -⟩ :=
        @Modeled.rootDecode _ _ _ code _ Sound.kind modeled (sound.grown grown byte (by decide))
      rw [decodes, Coding.ok_bind]
      generalize (forest 0).seek code 1 contextSymbolDelta coder.nextSymbol 0 = sought at *
      dsimp only
      have within := grown.le_weight
      have few : 1 + sought.coded.count ≤ 255 := by
        rcases grown.count_mem with ⟨entry, member, same⟩ | none
        · have := own.small entry member
          change _ + 3 ≤ 255 at this
          omega
        · omega
      obtain ⟨decoder', narrows, ready'⟩ := @RangeDecoder.Ready.decode decoder
        ((coder.symbols 0).escapes + if sought.found then sought.value + sought.coded.under
          else code) (1 + sought.coded.count) (coder.symbols 0).total ready (by omega) (by omega)
        small (.inr few)
      rw [narrows, Coding.ok_bind, counts, Coding.ok_bind]
      refine .inr ⟨_, rfl, ready', ?_, ?_⟩
      · intro none
        cases none
      · intro decoded same
        cases same
        exact ⟨forest'', [], [], rfl, counted.decoded (.inr rfl) encodes grown .root byte⟩

/-- **A value is looked for in all contexts** of the prediction. -/
theorem Modeled.decodeNext (modeled : Modeled Sound coder forest recent) {decoder : RangeDecoder}
    (ready : decoder.Ready) :
    Coding.Ends (coder.decodeNext decoder) (DecodedFrom coder forest coder.predicted recent) := by
  have inv := modeled.inv
  have length := modeled.length
  have order := modeled.order
  unfold RangeCoder.decodeNext
  refine (modeled.decodeSubcontexts recent modeled.predicted ready (by
    dsimp only [rangeCoderSymbols, subcontextOrder] at *
    omega)).bind ?_
  rintro ⟨coder', decoder', decoded⟩ ⟨ready', none, some⟩
  dsimp only at ready' none some ⊢
  cases decoded with
  | some decoded => exact .inr ⟨_, rfl, ready', (fun absurd => nomatch absurd), some⟩
  | none =>
      obtain rfl := none rfl
      refine (modeled.decodeRoot ready').mono ?_
      rintro result ⟨ready'', none', some'⟩
      refine ⟨ready'', none', fun decoded same => ?_⟩
      obtain ⟨forest', above, older, nothing, inner⟩ := some' decoded same
      obtain ⟨rfl, rfl⟩ := List.append_eq_nil_iff.mp nothing
      exact ⟨forest', [], recent, rfl, inner.ofRoot modeled.predicted⟩

end Contexts

/-! ## The other contexts of a value -/

/-- A visit leaves the parents of the contexts before it, so that they lead on to the one
the value was found in. -/
theorem ParentsLead.afterVisit {Kind : CodeTree → Prop} {coder coder' coder'' : RangeCoder}
    {forest forest' forest'' : Nat → CodeTree} {value patch subcontext oldest : Nat}
    {recent path older pending pending' : List Nat} {slot : RangeCoder.ParentSlot}
    {tree' : CodeTree} {found : Bool}
    (leads : ParentsLead coder (older.length + 1) patch subcontext)
    (inv : Forest Kind coder forest pending)
    (awaits : Awaits coder forest value recent (path ++ older ++ [oldest]) slot pending)
    (visited : VisitedContext Kind coder coder' forest patch (path ++ older ++ [oldest]) tree'
      found)
    (recounted : Recounted Kind coder' coder'' forest' forest'' pending')
    (inContext : Path forest (path ++ older ++ [oldest]) patch) :
    ParentsLead coder'' older.length (coder''.symbols patch).parent subcontext := by
  have parents : ∀ {other : Nat} {above : List Nat}, Path forest above other →
      above.length ≤ (path ++ older ++ [oldest]).length → other ∉ pending ∧
        (coder''.symbols other).parent = (coder.symbols other).parent := by
    intro other above leads' low
    have old : other < coder'.nextSymbol := by
      have := inv.path_lt leads'
      rw [visited.next]
      split
      · exact this
      · exact Nat.lt_succ_of_lt this
    exact ⟨awaits.away inv leads' low,
      (recounted.parents other old).trans (visited.parents leads' low)⟩
  obtain ⟨settled, parent⟩ := parents inContext (Nat.le_refl _)
  rw [parent]
  cases leads with
  | up rest =>
      refine ParentsLead.congr inv parents older (inv.parent_path inContext settled) ?_ rest
      simp only [List.length_append, List.length_singleton]
      omega

/-- **`patchContexts` counts the value in the contexts before the one it was found in**, and
the prediction is its symbol. -/
theorem VisitingContext.patchContexts {Kind : CodeTree → Prop} (kind : TreeKind Kind)
    {value subcontext bottom : Nat} {recent path : List Nat} (byte : value < 256)
    (older : List Nat) :
    ∀ {coder : RangeCoder} {forest : Nat → CodeTree} {patch fuel : Nat}
      {slot : RangeCoder.ParentSlot},
    VisitingContext Kind coder forest value recent patch (path ++ older) slot →
    ParentsLead coder older.length patch subcontext → Path forest path subcontext →
    Path forest (value :: path) bottom → coder.nextSymbol + older.length ≤ rangeCoderSymbols →
    older.length < fuel →
    ∃ coder', RangeCoder.patchContexts value subcontext bottom fuel coder patch slot = .ok coder' ∧
      coder'.order = coder.order ∧ coder'.nextSymbol ≤ coder.nextSymbol + older.length ∧
      ∃ forest', Coded Kind coder' forest' (value :: recent) ∧
        ((∀ tree, Kind tree → Ordered tree) → ∀ model, Tallied coder forest model →
          Tallied coder' forest' (model.learn value (contextsAbove path older)) ∧
          coder'.nextSymbol = coder.nextSymbol + (contextsAbove path older).countP
            fun other => (model other).counts value = 0) := by
  induction older using List.reverseRecOn with
  | nil =>
      intro coder forest patch fuel slot visiting leads inPath inBottom room enough
      obtain ⟨fuel, rfl⟩ : ∃ rest, fuel = rest + 1 := ⟨fuel - 1, by omega⟩
      obtain ⟨⟨pending, inv, awaits⟩, books, inContext⟩ := visiting
      rw [List.append_nil] at awaits
      cases leads with
      | here =>
          obtain ⟨coder', writes, inv', written, predicted⟩ := @Awaits.write _ _ _ _ _ _ _ _ _ []
            awaits inv _ inBottom fun other waits settled => absurd waits settled
          refine ⟨coder', ?_, written.order, Nat.le_of_eq written.next, forest, ⟨inv', ?_,
            predicted⟩, fun _ model tallied => ⟨?_, written.next⟩⟩
          · unfold RangeCoder.patchContexts
            rw [if_pos rfl]
            exact (RangeCoder.setParentChecked_agrees ..).of_ok writes
          · intro other inUse
            rw [written.next] at inUse
            exact (books other inUse).congr (written.escapes other) (written.total other)
          · rw [contextsAbove, List.length_nil, List.take_zero, ContextModel.learn_nil]
            exact tallied.congr written.escapes
  | append_singleton older oldest ih =>
      intro coder forest patch fuel slot visiting leads inPath inBottom room enough
      obtain ⟨fuel, rfl⟩ : ∃ rest, fuel = rest + 1 := ⟨fuel - 1, by omega⟩
      rw [List.length_append, List.length_singleton] at leads room enough
      rw [← List.append_assoc] at visiting
      obtain ⟨⟨pending, inv, awaits⟩, books, inContext⟩ := id visiting
      have below := inv.path_lt inContext
      have inTable : patch < rangeCoderSymbols := Nat.lt_of_lt_of_le below inv.room
      have notEmpty : path ++ older ++ [oldest] ≠ [] := by simp
      have notRoot : patch ≠ 0 := mt (inv.path_nil_iff inContext).mpr notEmpty
      have different : patch ≠ subcontext := by
        rintro rfl
        have same := congrArg List.length (inv.path_unique inPath inContext)
        simp only [List.length_append, List.length_singleton] at same
        omega
      have delta : contextDelta patch = 2 := if_neg notRoot
      have minimum : contextMinimum patch = 0 := if_neg notRoot
      have counted := (kind.sound (inv.kept patch)).counted
      obtain ⟨coded, coder', encodes, written, visited, predicted⟩ :=
        visiting.visit kind byte (by omega)
      have grown := CodeTree.insert_grown value (contextDelta patch) coder.nextSymbol
        (forest patch)
      obtain ⟨coder'', counts, forest'', recounted, changed⟩ := visited.countSubcontext kind grown
        counted (books patch below) inTable below notRoot
      have next := visiting.parent visited predicted grown recounted
      have grows := Forest.subset_update grown
      rw [delta, minimum] at encodes
      have rest := leads.afterVisit inv awaits visited recounted inContext
      have few : coder''.nextSymbol ≤ coder.nextSymbol + 1 := by
        rw [recounted.next, visited.next]
        split <;> omega
      obtain ⟨patched, patches, order, few', forest', coded', learned⟩ := ih next rest
        (recounted.leads (inPath.mono grows)) (recounted.leads (inBottom.mono grows)) (by omega)
        (Nat.lt_of_succ_lt_succ enough)
      refine ⟨patched, ?_, order.trans (recounted.order.trans visited.order), ?_, forest', coded',
        fun ordered model tallied => ?_⟩
      rotate_left
      · rw [List.length_append, List.length_singleton]
        omega
      · have here := tallied.learnSubcontext notEmpty ordered inv (books patch below) inContext
          visited grown changed
        have made := tallied.next ordered inv inContext visited grown
        obtain ⟨there, next'⟩ := learned ordered _ here
        have away := not_mem_contextsAbove_concat path older oldest
        rw [contextsAbove_concat]
        refine ⟨?_, ?_⟩
        · rw [← ContextModel.learn_cons away]
          exact there
        · rw [next', ContextModel.countP_learn away, recounted.next, made, List.countP_cons]
          simp only [decide_eq_true_eq]
          omega
      unfold RangeCoder.patchContexts
      rw [if_neg different, (RangeCoder.contextEncodeChecked_agrees ..).of_ok encodes,
        Coding.ok_bind]
      dsimp only
      rw [(RangeCoder.setParentChecked_agrees ..).of_ok written, Coding.ok_bind, Nat.zero_add,
        (RangeCoder.countSubcontextChecked_agrees ..).of_ok counts, Coding.ok_bind,
        RangeCoder.symbol_of_lt inTable, Coding.ok_bind]
      exact patches

/-- A value that was decoded is counted in the contexts before the one it was found in. -/
theorem DecodedIn.patchContexts {Kind : CodeTree → Prop} {coder patched : RangeCoder}
    {forest forest' : Nat → CodeTree} {recent path older : List Nat}
    {decoded : RangeCoder.Decoded} (kind : TreeKind Kind)
    (modeled : Modeled Kind coder forest recent) (whole : path ++ older = recent)
    (inner : DecodedIn Kind coder patched forest forest' coder.predicted path older decoded) :
    ∃ coder', RangeCoder.patchContexts decoded.value decoded.subcontext decoded.bottom
        rangeCoderSymbols patched patched.predicted .predicted = .ok coder' ∧
      coder'.order = coder.order ∧ coder'.nextSymbol ≤ coder.nextSymbol + 3 ∧
      ∃ forest'', Coded Kind coder' forest'' (decoded.value :: recent) ∧
        ((∀ tree, Kind tree → Ordered tree) → ∀ model, Tallied patched forest' model →
          Tallied coder' forest'' (model.learn decoded.value (contextsAbove path older)) ∧
          coder'.nextSymbol = patched.nextSymbol + (contextsAbove path older).countP
            fun other => (model other).counts decoded.value = 0) := by
  have length := modeled.length
  have order := modeled.order
  have free := modeled.free
  dsimp only [rangeCoderSymbols, subcontextOrder] at order free
  have short : older.length ≤ 2 := by
    have := congrArg List.length whole
    rw [List.length_append] at this
    omega
  have visiting : VisitingContext Kind patched forest' decoded.value recent patched.predicted
      (path ++ older) .predicted := by
    refine ⟨⟨[], inner.inv, .first whole⟩, inner.books, ?_⟩
    rw [whole, inner.predicted]
    exact modeled.predicted.mono inner.names
  have grows := inner.next
  have enough : older.length < rangeCoderSymbols := by
    dsimp only [rangeCoderSymbols]
    omega
  obtain ⟨coder', patches, order', few, rest⟩ := visiting.patchContexts kind inner.byte older
    (inner.predicted ▸ inner.leads) inner.subcontext inner.bottom (by
      dsimp only [rangeCoderSymbols]
      omega) enough
  exact ⟨coder', patches, order'.trans inner.order, by omega, rest⟩

/-! ## Every run -/

/-- A turn of the loop of `enet_range_coder_decompress`: the table, the registers and the
bytes written. -/
def DecompressTurn (outLimit : Nat) (state state' : RangeCoder × RangeDecoder × List UInt8) :
    Prop :=
  state.1.decodeValue state.2.1 state.2.2 outLimit = .ok (some (state'.1, state'.2.1), state'.2.2)

/-- The states of the loop of `enet_range_coder_decompress` for a table and an input. -/
def DecompressReaches (symbols : Nat → CodeSymbol) (inData : List UInt8) (outLimit : Nat)
    (state : RangeCoder × RangeDecoder × List UInt8) : Prop :=
  ∃ coder, RangeCoder.start symbols = .ok coder ∧
    Relation.ReflTransGen (DecompressTurn outLimit) (coder, RangeDecoder.seed inData, []) state

/-- The table and the registers between two turns, and how much is written. -/
structure Decompressing (outLimit : Nat) (state : RangeCoder × RangeDecoder × List UInt8) :
    Prop where
  modeled : ∃ forest recent, Modeled Sound state.1 forest recent
  ready : state.2.1.Ready
  written : state.2.2.length ≤ outLimit

theorem RangeDecoder.ready_seed (input : List UInt8) : (RangeDecoder.seed input).Ready := by
  have registers : ∀ decoder : RangeDecoder,
      decoder.shiftIn.low = decoder.low ∧ decoder.shiftIn.range = decoder.range := by
    intro decoder
    unfold shiftIn
    split
    · exact ⟨rfl, rfl⟩
    · exact ⟨rfl, rfl⟩
  have low : (RangeDecoder.seed input).low = 0 := by
    unfold seed
    simp only [registers]
  have range : (RangeDecoder.seed input).range = 0xFFFFFFFF := by
    unfold seed
    simp only [registers]
  have inRange : InRange (RangeDecoder.seed input).low (RangeDecoder.seed input).range := by
    rw [low, range]
    exact ⟨by decide, by decide, fun last => absurd last (by decide)⟩
  refine ⟨?_, inRange.tame⟩
  rw [range]
  decide

/-- **A turn of the decoder ends**, with one more byte, at the end of the stream, or with no
result. -/
theorem Decompressing.turn {outLimit : Nat} {coder : RangeCoder} {decoder : RangeDecoder}
    {output : List UInt8} (running : Decompressing outLimit (coder, decoder, output)) :
    Coding.Ends (coder.decodeValue decoder output outLimit) fun result =>
      (result.1 = none → result.2 = output) ∧ ∀ next, result.1 = some next →
        result.2.length = output.length + 1 ∧ next.1.nextSymbol ≤ coder.nextSymbol + 3 ∧
          Decompressing outLimit (next.1, next.2, result.2) := by
  obtain ⟨⟨forest, recent, modeled⟩, ready, written⟩ := running
  dsimp only at modeled ready written
  have length := modeled.length
  have order := modeled.order
  unfold RangeCoder.decodeValue
  refine (modeled.decodeNext ready).bind ?_
  rintro ⟨patched, decoder', decoded⟩ ⟨ready', -, found⟩
  dsimp only at ready' found ⊢
  cases decoded with
  | none =>
      refine .inr ⟨_, rfl, fun _ => rfl, fun next same => ?_⟩
      cases same
  | some decoded =>
      obtain ⟨forest', path, older, whole, inner⟩ := found decoded rfl
      obtain ⟨coder', patches, same, few, forest'', coded, -⟩ :=
        inner.patchContexts Sound.kind modeled whole
      dsimp only
      rw [patches, Coding.ok_bind]
      split
      next => exact .inl rfl
      next room =>
          obtain ⟨next, steps, forest, recent', modeled', continues⟩ :=
            coded.nextContext Sound.kind (by rw [List.length_cons, length, same])
              (by rw [same]; exact order)
          rw [steps, Coding.ok_bind]
          refine .inr ⟨_, rfl, (fun none => nomatch none), ?_⟩
          intro next found
          cases found
          refine ⟨List.length_append, ?_, ⟨forest, recent', modeled'⟩, ready', ?_⟩
          · cases continues with
            | goesOn free' symbols next =>
                dsimp only
                omega
            | startsOver full next escapes =>
                dsimp only
                omega
          dsimp only
          rw [List.length_append, List.length_singleton]
          omega

theorem Decompressing.start (symbols : Nat → CodeSymbol) (inData : List UInt8) (outLimit : Nat) :
    ∃ coder, RangeCoder.start symbols = .ok coder ∧
      Decompressing outLimit (coder, RangeDecoder.seed inData, []) := by
  obtain ⟨coder, forest, starts, modeled⟩ := modeled_start Sound.kind symbols
  exact ⟨coder, starts, ⟨forest, [], modeled⟩, RangeDecoder.ready_seed inData, Nat.zero_le _⟩

/-- **The loop of the decoder ends**, since each turn writes a byte. -/
theorem Decompressing.decodeLoop {outLimit : Nat} (fuel : Nat) : ∀ {coder : RangeCoder}
    {decoder : RangeDecoder} {output : List UInt8},
    Decompressing outLimit (coder, decoder, output) → outLimit < fuel + output.length →
    Coding.Ends (coder.decodeLoop outLimit fuel decoder output) fun bytes =>
      bytes.length ≤ outLimit := by
  induction fuel with
  | zero =>
      intro coder decoder output running enough
      have := running.written
      dsimp only at this
      omega
  | succ fuel ih =>
      intro coder decoder output running enough
      unfold RangeCoder.decodeLoop
      refine running.turn.bind ?_
      rintro ⟨next, output'⟩ ⟨last, goesOn⟩
      dsimp only at last goesOn ⊢
      cases next with
      | none =>
          rw [last rfl]
          exact .inr ⟨output, rfl, running.written⟩
      | some next =>
          obtain ⟨longer, -, running'⟩ := goesOn next rfl
          exact ih running' (by omega)

theorem DecompressReaches.decompressing {symbols : Nat → CodeSymbol} {inData : List UInt8}
    {outLimit : Nat} {state : RangeCoder × RangeDecoder × List UInt8}
    (reached : DecompressReaches symbols inData outLimit state) : Decompressing outLimit state := by
  obtain ⟨coder, starts, run⟩ := reached
  obtain ⟨coder', starts', running⟩ := Decompressing.start symbols inData outLimit
  rw [starts] at starts'
  cases starts'
  induction run with
  | refl => exact running
  | @tail state state' _ turn ih =>
      obtain ⟨coder, decoder, output⟩ := state
      rcases ih.turn with stops | ⟨result, returns, -, goesOn⟩
      · unfold DecompressTurn at turn
        rw [stops] at turn
        cases turn
      · unfold DecompressTurn at turn
        rw [returns] at turn
        cases turn
        exact (goesOn _ rfl).2.2

/-- A range of 0 would be shifted without end. -/
theorem RangeDecoder.normalise_zero (fuel : Nat) : ∀ {decoder : RangeDecoder},
    decoder.range = 0 → decoder.low < 4294967296 →
    decoder.normalise fuel = .error (.fault .normalise) := by
  induction fuel with
  | zero => exact fun _ _ => rfl
  | succ fuel ih =>
      intro decoder empty below
      have stays : u32 (decoder.low + 0) = decoder.low := Nat.mod_eq_of_lt below
      have shifts : settleRange decoder.low decoder.range = some 0 := by
        unfold settleRange
        rw [empty, stays, Nat.xor_self, if_neg (by decide)]
      unfold normalise
      rw [shifts]
      exact ih rfl (Nat.mod_lt _ (by decide))

/-- **The decoder is robust**: for every input it ends, without an index past the table, a
division by zero, a walk or a normalisation without end, and writes at most `outLimit`
bytes. After every byte the table has room for the symbols of the next, three at most, the
counts are positive bytes, the parents of the prediction lead to the root, and the range is
wide enough for a total. -/
theorem decompress_robust (symbols : Nat → CodeSymbol) (inData : List UInt8) (outLimit : Nat) :
    (∃ bytes, rangeCoderDecompress symbols inData outLimit = .ok bytes ∧
      bytes.length ≤ outLimit) ∧
    ∀ coder decoder output, DecompressReaches symbols inData outLimit (coder, decoder, output) →
      output.length ≤ outLimit ∧ coder.nextSymbol + 3 ≤ rangeCoderSymbols ∧
      (∀ index < coder.nextSymbol, index ≠ 0 →
        1 ≤ (coder.symbols index).count ∧ (coder.symbols index).count ≤ 255) ∧
      (∀ context < coder.nextSymbol, ∃ tree,
        Holds coder.symbols context (coder.symbols context).symbols tree ∧
          ∀ index ∈ tree.indices, index < coder.nextSymbol) ∧
      (∃ steps ≤ 2, (fun index => (coder.symbols index).parent)^[steps] coder.predicted = 0) ∧
      rangeCoderBottom ≤ decoder.range ∧
      (coder.decodeValue decoder output outLimit = .error .nothing ∨
        ∃ result, coder.decodeValue decoder output outLimit = .ok result ∧
          ∀ next, result.1 = some next → result.2.length = output.length + 1 ∧
            next.1.nextSymbol ≤ coder.nextSymbol + 3) := by
  constructor
  · unfold rangeCoderDecompress
    split
    next => exact ⟨[], rfl, Nat.zero_le _⟩
    next =>
        obtain ⟨coder, starts, running⟩ := Decompressing.start symbols inData outLimit
        rw [starts, Coding.ok_bind]
        rcases running.decodeLoop (outLimit + 2) (by omega) with stops | ⟨bytes, returns, few⟩
        · rw [stops]
          exact ⟨[], rfl, Nat.zero_le _⟩
        · rw [returns]
          exact ⟨bytes, rfl, few⟩
  · intro coder decoder output reached
    have running := reached.decompressing
    obtain ⟨⟨forest, recent, modeled⟩, ready, written⟩ := id running
    dsimp only at modeled ready written
    have inv := modeled.inv
    have free := modeled.free
    dsimp only [subcontextOrder] at free
    refine ⟨written, by omega, ?_, ?_, modeled.parents, ready.wide, ?_⟩
    · intro index inUse notRoot
      obtain ⟨context, member⟩ := inv.covered index inUse notRoot
      obtain ⟨entry, inTree, rfl⟩ := List.mem_map.mp member
      have below := inv.context_lt member
      rw [(inv.holds context below).count_eq entry inTree]
      have small := (modeled.books context below).small entry inTree
      exact ⟨(inv.kept context).counted entry inTree, by omega⟩
    · exact fun context below => ⟨forest context, inv.holds context below, inv.inside context⟩
    · rcases running.turn with stops | ⟨result, returns, -, goesOn⟩
      · exact .inl stops
      · refine .inr ⟨result, returns, fun next same => ?_⟩
        obtain ⟨longer, few, -⟩ := goesOn next same
        exact ⟨longer, few⟩

end Enet
