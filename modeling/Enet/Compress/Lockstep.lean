import Enet.Compress.Decoder

/-!
# The decoder follows the encoder

A decoder that reads a code in each share of a value decodes the value, and does
to its table what the model does; so its table keeps the same state of the model
as that of the encoder, although it counts the value in another order and places
the symbols at other indices.
-/

set_option autoImplicit false

namespace Enet

open Library (Share)

/-! ## Codes in shares -/

/-- A decoder reads a code in each of some shares, and goes on behind the last. -/
inductive RangeDecoder.Follows : RangeDecoder → List Share → RangeDecoder → Prop where
  | done (decoder : RangeDecoder) : Follows decoder [] decoder
  | next {decoder unit decoder' decoder'' : RangeDecoder} {share : Share} {shares : List Share}
      {code : Nat} (reads : decoder.read share.total = .ok (unit, code)) (has : share.Has code)
      (narrows : unit.decode share.under share.count = .ok decoder')
      (rest : Follows decoder' shares decoder'') :
      Follows decoder (share :: shares) decoder''

namespace RangeDecoder.Follows

variable {decoder decoder' decoder'' : RangeDecoder} {shares shares' : List Share}

theorem append (first : Follows decoder shares decoder')
    (second : Follows decoder' shares' decoder'') :
    Follows decoder (shares ++ shares') decoder'' := by
  induction first with
  | done decoder => exact second
  | next reads has narrows rest ih => exact .next reads has narrows (ih second)

theorem of_append (follows : Follows decoder (shares ++ shares') decoder'') :
    ∃ decoder', Follows decoder shares decoder' ∧ Follows decoder' shares' decoder'' := by
  induction shares generalizing decoder with
  | nil => exact ⟨decoder, .done decoder, follows⟩
  | cons share shares ih =>
      cases follows with
      | next reads has narrows rest =>
          obtain ⟨between, first, second⟩ := ih rest
          exact ⟨between, .next reads has narrows first, second⟩

end RangeDecoder.Follows

/-! ## One context -/

/-- What the decoder has done to the table once it has found a value: it is counted in one
context, and new in those above it. -/
structure FindsValue (coder coder' : RangeCoder) (forest : Nat → CodeTree) (model : ContextModel)
    (value context : Nat) (above older : List Nat) (decoded : RangeCoder.Decoded) : Prop where
  same : decoded.value = value
  inTable : ∃ forest', DecodedIn Ordered coder coder' forest forest' context above older decoded ∧
    Tallied coder' forest' (model.learn value [above])
  absent : ∀ other ∈ contextsAbove above older, (model other).counts value = 0
  found : above = [] ∨ 0 < (model above).counts value
  next : coder'.nextSymbol = coder.nextSymbol + if (model above).counts value = 0 then 1 else 0

section Decode

variable {coder : RangeCoder} {forest : Nat → CodeTree} {model : ContextModel}
  {recent path : List Nat} {value context : Nat} {decoder decoder' : RangeDecoder}

/-- A share of the table without a minimum. -/
theorem Tallied.subcontext_share (tallied : Tallied coder forest model)
    (modeled : Modeled Ordered coder forest recent) (leads : Path forest path context)
    (byte : value < 256) (subcontext : path ≠ []) :
    (model path).share path value = ⟨(coder.symbols context).escapes +
      ((forest context).locate value coder.nextSymbol).under,
      ((forest context).locate value coder.nextSymbol).count, (coder.symbols context).total⟩ := by
  have inv := modeled.inv
  have notRoot : context ≠ 0 := mt (inv.path_nil_iff leads).mpr subcontext
  have least : leastCount path = 0 := if_neg subcontext
  have share := tallied.share leads (modeled.books context (inv.path_lt leads))
    (inv.kept context).toSound
    (CodeTree.insert_grown value (contextDelta context) coder.nextSymbol (forest context))
    (Ordered.kind.insert coder.nextSymbol (inv.kept context) byte
      (contextDelta_bounds context).1).ascending ((if_neg notRoot).trans least.symm)
  rw [share, least, Nat.mul_zero, Nat.zero_add, Nat.zero_add]

/-- **A code in the share of a value finds it** in a subcontext that has its symbol. -/
theorem Modeled.followSubcontext (modeled : Modeled Ordered coder forest recent)
    (tallied : Tallied coder forest model) (leads : Path forest path context)
    (subcontext : path ≠ []) (byte : value < 256) (found : 0 < (model path).counts value)
    {code : Nat} (has : ((model path).share path value).Has code) :
    ∃ coder' coder'' coded,
      coder.contextTryDecode context (code - (coder.symbols context).escapes) =
        .ok (coder', value, coded) ∧
      (coder.symbols context).escapes + coded.under = ((model path).share path value).under ∧
      coded.count = ((model path).share path value).count ∧
      coder'.countSubcontext context 0 coded.count = .ok coder'' ∧
      FindsValue coder coder'' forest model value context path []
        ⟨value, context, coded.symbol⟩ := by
  have inv := modeled.inv
  have below := inv.path_lt leads
  have notRoot : context ≠ 0 := mt (inv.path_nil_iff leads).mpr subcontext
  have delta : contextDelta context = 2 := if_neg notRoot
  have own := modeled.books context below
  have grown := CodeTree.insert_grown value (contextDelta context) coder.nextSymbol
    (forest context)
  have kept := Ordered.kind.insert coder.nextSymbol (inv.kept context) byte
    (contextDelta_bounds context).1
  have tally := tallied.count leads grown kept.ascending
  have share := tallied.subcontext_share modeled leads byte subcontext
  have positive := grown.count_pos (inv.kept context).counted
  rw [tally] at found
  have present := positive.mp found
  rw [share] at has ⊢
  obtain ⟨low, high⟩ := has
  dsimp only at low high
  have sought := @CodeTree.seek_of_share value (code - (coder.symbols context).escapes) 0
    subcontextSymbolDelta coder.nextSymbol (by decide) byte (forest context) 0 (by omega)
    (by omega)
  obtain ⟨coder', decodes, counts⟩ := @Modeled.tryDecode _ _ _ _
    (code - (coder.symbols context).escapes) _ _ Ordered.kind modeled leads notRoot fun _ => by
      rw [sought]
      exact Ordered.kind.insert _ (inv.kept context) byte (by decide)
  rw [sought] at decodes counts
  dsimp only at decodes counts
  rw [if_pos present] at decodes
  obtain ⟨encodes, coder'', counts, forest'', counted, changed⟩ := counts present
  rw [delta, present] at grown
  have grown' : CodeTree.Grown value (contextDelta context) coder.nextSymbol (forest context)
      ((forest context).insert value subcontextSymbolDelta coder.nextSymbol)
      ((forest context).locate value coder.nextSymbol) true := by
    rw [delta]
    exact grown
  refine ⟨coder', coder'', _, decodes, rfl, rfl, counts, rfl, ⟨forest'', ?_, ?_⟩, ?_, ?_, ?_⟩
  · exact counted.decoded (.inl rfl) encodes grown' leads byte
  · have visited := Encodes.visited path inv modeled.books below (by
      have free := modeled.free
      dsimp only [rangeCoderSymbols, subcontextOrder] at free ⊢
      omega) (Ordered.kind.insert _ (inv.kept context) byte (by decide)) grown' encodes
    exact tallied.learnSubcontext subcontext (fun _ => id) inv own leads visited grown' changed
  · exact fun other member => absurd member List.not_mem_nil
  · rw [tally]
    exact .inr found
  · rw [tally, if_neg (Nat.ne_of_gt found)]
    rw [counted.next, encodes.next]
    rfl

/-- **A code in the share of a value finds it** in the root, where it may be new. -/
theorem Modeled.followRoot (modeled : Modeled Ordered coder forest recent)
    (tallied : Tallied coder forest model) (byte : value < 256)
    (follows : RangeDecoder.Follows decoder [(model []).share [] value] decoder') :
    ∃ coder' coded, coder.decodeRoot decoder =
        .ok (coder', decoder', some ⟨value, 0, coded⟩) ∧
      FindsValue coder coder' forest model value 0 [] [] ⟨value, 0, coded⟩ := by
  have inv := modeled.inv
  have own := modeled.books 0 inv.rooted
  have sound := (inv.kept 0).toSound
  have inTable : 0 < rangeCoderSymbols := by decide
  have delta : contextDelta 0 = contextSymbolDelta := rfl
  have grown := CodeTree.insert_grown value (contextDelta 0) coder.nextSymbol (forest 0)
  have kept := Ordered.kind.insert coder.nextSymbol (inv.kept 0) byte (contextDelta_bounds 0).1
  have tally := tallied.count .root grown kept.ascending
  have positive := grown.count_pos sound.counted
  have share := tallied.share .root own sound grown kept.ascending rfl
  have least : leastCount [] = 1 := rfl
  rw [least, Nat.mul_one] at share
  rw [share] at follows
  cases follows with
  | @next _ unit after _ _ _ code reads has narrows rest =>
      cases rest
      obtain ⟨low, high⟩ := has
      dsimp only at reads low high narrows
      have sought := @CodeTree.seek_of_share value (code - (coder.symbols 0).escapes) 1
        contextSymbolDelta coder.nextSymbol (by decide) byte (forest 0) 0 (by omega) (by omega)
      obtain ⟨coder', decodes, encodes, coder'', counts, forest'', counted, changed⟩ :=
        @Modeled.rootDecode _ _ _ (code - (coder.symbols 0).escapes) _ Ordered.kind modeled (by
          rw [sought]
          exact kept)
      rw [sought] at decodes encodes counts counted changed
      dsimp only at decodes encodes counts counted changed
      have free := modeled.free
      dsimp only [rangeCoderSymbols, subcontextOrder] at free
      refine ⟨coder'', ((forest 0).locate value coder.nextSymbol).symbol, ?_, rfl,
        ⟨forest'', counted.decoded (.inr rfl) encodes grown .root byte, ?_⟩,
        fun other member => absurd member List.not_mem_nil, .inl rfl, ?_⟩
      · unfold RangeCoder.decodeRoot
        rw [RangeCoder.symbol_of_lt inTable, Coding.ok_bind, reads, Coding.ok_bind]
        dsimp only
        rw [if_neg (by omega), decodes, Coding.ok_bind]
        dsimp only
        -- a value that is new has a share of one code
        have same : (coder.symbols 0).escapes + (if (forest 0).finds value = true then
              value + ((forest 0).locate value coder.nextSymbol).under
            else code - (coder.symbols 0).escapes) =
            (coder.symbols 0).escapes +
              (value + ((forest 0).locate value coder.nextSymbol).under) := by
          split
          next => rfl
          next absent =>
              have none : ((forest 0).locate value coder.nextSymbol).count = 0 :=
                Nat.eq_zero_of_not_pos fun filled => absent (positive.mp filled)
              omega
        rw [same, narrows, Coding.ok_bind, counts]
        rfl
      · have visited := Encodes.visited [] inv modeled.books inv.rooted (by
          dsimp only [rangeCoderSymbols]
          omega) kept grown encodes
        exact tallied.learn 0 (fun _ => id) inv own .root visited grown changed rfl rfl
      · rw [tally, counted.next, encodes.next]
        cases found : (forest 0).finds value with
        | true => rw [if_pos rfl, if_neg (Nat.ne_of_gt (positive.mpr found)), Nat.add_zero]
        | false =>
            rw [if_neg Bool.false_ne_true, if_pos (Nat.eq_zero_of_not_pos fun filled =>
              Bool.false_ne_true (found.symm.trans (positive.mp filled)))]

/-- What was found from the parent of a context was found from the context. -/
theorem FindsValue.up {coder' : RangeCoder} {above older : List Nat} {oldest : Nat}
    {decoded : RangeCoder.Decoded}
    (finds : FindsValue coder coder' forest model value (coder.symbols context).parent above older
      decoded) (below : context < coder.nextSymbol)
    (absent : (model (above ++ older ++ [oldest])).counts value = 0) :
    FindsValue coder coder' forest model value context above (older ++ [oldest]) decoded := by
  obtain ⟨same, ⟨forest', inner, learned⟩, absent', found, next⟩ := finds
  refine ⟨same, ⟨forest', inner.up below, learned⟩, ?_, found, next⟩
  rw [contextsAbove_concat]
  intro other member
  rcases List.mem_cons.mp member with rfl | member
  · exact absent
  · exact absent' other member

/-- The loop ends at a subcontext that has the symbol of the value. -/
theorem Modeled.decodeSubcontexts_found (modeled : Modeled Ordered coder forest recent)
    (tallied : Tallied coder forest model) (leads : Path forest path context)
    (subcontext : path ≠ []) (byte : value < 256) (found : 0 < (model path).counts value)
    (fuel : Nat)
    (follows : RangeDecoder.Follows decoder [(model path).share path value] decoder') :
    ∃ coder' decoded, coder.decodeSubcontexts (fuel + 1) decoder context =
        .ok (coder', decoder', some decoded) ∧
      FindsValue coder coder' forest model value context path [] decoded := by
  have inv := modeled.inv
  have below := inv.path_lt leads
  have inTable : context < rangeCoderSymbols := Nat.lt_of_lt_of_le below inv.room
  have notRoot : context ≠ 0 := mt (inv.path_nil_iff leads).mpr subcontext
  have own := modeled.books context below
  cases follows with
  | @next _ unit after _ _ _ code reads has narrows rest =>
      cases rest
      obtain ⟨coder', coder'', coded, decodes, under, count, counts, finds⟩ :=
        modeled.followSubcontext tallied leads subcontext byte found has
      have share := tallied.subcontext_share modeled leads byte subcontext
      have total : ((model path).share path value).total = (coder.symbols context).total := by
        rw [share]
      have grown := CodeTree.insert_grown value (contextDelta context) coder.nextSymbol
        (forest context)
      have positive : 0 < ((forest context).locate value coder.nextSymbol).count := by
        rw [← tallied.count leads grown (Ordered.kind.insert coder.nextSymbol
          (inv.kept context) byte (contextDelta_bounds context).1).ascending]
        exact found
      have filled : forest context ≠ .nil := by
        intro empty
        rw [empty] at positive
        exact absurd positive (Nat.lt_irrefl 0)
      have within := grown.le_weight
      have sum := own.total
      have some := own.escapes (.inl filled)
      have low := has.1
      rw [total] at reads
      rw [← under] at low
      refine ⟨coder'', _, ?_, finds⟩
      unfold RangeCoder.decodeSubcontexts
      rw [if_neg notRoot, RangeCoder.symbol_of_lt inTable, Coding.ok_bind, if_neg (by omega),
        reads, Coding.ok_bind]
      dsimp only
      rw [if_neg (by omega), decodes, Coding.ok_bind]
      dsimp only
      rw [under, count, narrows, Coding.ok_bind, ← count, counts, Coding.ok_bind]
      rfl

/-- **The loop of the decoder over the subcontexts** finds a value in the first that has its
symbol, or leaves its share in the root. -/
theorem Modeled.followSubcontexts (modeled : Modeled Ordered coder forest recent)
    (tallied : Tallied coder forest model) (byte : value < 256) (path : List Nat) :
    ∀ {context fuel : Nat} {decoder : RangeDecoder}, Path forest path context →
    path.length < fuel →
    RangeDecoder.Follows decoder (model.shares value (contextsOf path)) decoder' →
    (∃ coder' decoded above older, above ++ older = path ∧
      coder.decodeSubcontexts fuel decoder context = .ok (coder', decoder', some decoded) ∧
      FindsValue coder coder' forest model value context above older decoded) ∨
    ((∀ other ∈ contextsAbove [] path, (model other).counts value = 0) ∧
      ∃ between, coder.decodeSubcontexts fuel decoder context = .ok (coder, between, none) ∧
        RangeDecoder.Follows between [(model []).share [] value] decoder') := by
  have inv := modeled.inv
  induction path using List.reverseRecOn with
  | nil =>
      intro context fuel decoder leads enough follows
      obtain ⟨fuel, rfl⟩ : ∃ rest, fuel = rest + 1 := ⟨fuel - 1, by omega⟩
      cases leads with
      | root =>
          exact .inr ⟨fun other member => absurd member List.not_mem_nil, decoder, rfl, follows⟩
  | append_singleton path oldest ih =>
      intro context fuel decoder leads enough follows
      obtain ⟨fuel, rfl⟩ : ∃ rest, fuel = rest + 1 := ⟨fuel - 1, by omega⟩
      rw [List.length_append, List.length_singleton] at enough
      have below := inv.path_lt leads
      have inTable : context < rangeCoderSymbols := Nat.lt_of_lt_of_le below inv.room
      have subcontext : path ++ [oldest] ≠ [] := by simp
      have notRoot : context ≠ 0 := mt (inv.path_nil_iff leads).mpr subcontext
      have above := inv.parent_path leads List.not_mem_nil
      have own := modeled.books context below
      have escapes := tallied.escapeShare leads own (inv.kept context).toSound notRoot
      rw [contextsOf_concat] at follows
      unfold ContextModel.shares at follows
      by_cases found : 0 < (model (path ++ [oldest])).counts value
      · rw [if_pos (.inr found)] at follows
        obtain ⟨coder', decoded, decodes, finds⟩ :=
          modeled.decodeSubcontexts_found tallied leads subcontext byte found fuel follows
        exact .inl ⟨coder', decoded, path ++ [oldest], [], List.append_nil _, decodes, finds⟩
      · unfold RangeCoder.decodeSubcontexts
        rw [if_neg notRoot, RangeCoder.symbol_of_lt inTable, Coding.ok_bind]
        have absent : (model (path ++ [oldest])).counts value = 0 := by omega
        rw [if_neg (not_or.mpr ⟨subcontext, found⟩), escapes] at follows
        -- the parent is looked at, with the escape read where there is one
        have up : ∀ {decoder : RangeDecoder},
            RangeDecoder.Follows decoder (model.shares value (contextsOf path)) decoder' →
            (∃ coder' decoded above older, above ++ older = path ++ [oldest] ∧
              coder.decodeSubcontexts fuel decoder (coder.symbols context).parent =
                .ok (coder', decoder', some decoded) ∧
              FindsValue coder coder' forest model value context above older decoded) ∨
            ((∀ other ∈ contextsAbove [] (path ++ [oldest]), (model other).counts value = 0) ∧
              ∃ between, coder.decodeSubcontexts fuel decoder (coder.symbols context).parent =
                  .ok (coder, between, none) ∧
                RangeDecoder.Follows between [(model []).share [] value] decoder') := by
          intro decoder follows
          rcases @ih _ fuel _ above (by omega) follows with
            ⟨coder', decoded, above', older, rfl, decodes, finds⟩ | ⟨news, between, decodes, rest⟩
          · exact .inl ⟨coder', decoded, above', older ++ [oldest], (List.append_assoc ..).symm,
              decodes, finds.up below absent⟩
          · refine .inr ⟨?_, between, decodes, rest⟩
            rw [contextsAbove_concat]
            intro other member
            rcases List.mem_cons.mp member with rfl | member
            · exact absent
            · exact news other member
        split at follows
        next some =>
            rw [if_neg (by omega)]
            cases follows with
            | @next _ unit after _ _ _ code reads has narrows rest =>
                have few := has.2
                dsimp only at reads few narrows
                simp only [reads, Coding.ok_bind]
                rw [if_pos (by omega), narrows, Coding.ok_bind]
                exact up rest
        next none =>
            rw [if_pos (by omega)]
            exact up follows

/-- **A decoder that follows the shares of a value finds it.** -/
theorem Modeled.followValue (modeled : Modeled Ordered coder forest recent)
    (tallied : Tallied coder forest model) (byte : value < 256)
    (follows : RangeDecoder.Follows decoder (model.shares value (contextsOf recent)) decoder') :
    ∃ coder' decoded above older, above ++ older = recent ∧
      coder.decodeNext decoder = .ok (coder', decoder', some decoded) ∧
      FindsValue coder coder' forest model value coder.predicted above older decoded := by
  have length := modeled.length
  have order := modeled.order
  dsimp only [subcontextOrder] at order
  unfold RangeCoder.decodeNext
  rcases @Modeled.followSubcontexts _ _ _ _ _ _ modeled tallied byte recent coder.predicted
    rangeCoderSymbols _ modeled.predicted (by dsimp only [rangeCoderSymbols]; omega) follows with
    ⟨coder', decoded, above, older, whole, decodes, finds⟩ | ⟨absent, between, decodes, rest⟩
  · refine ⟨coder', decoded, above, older, whole, ?_, finds⟩
    rw [decodes, Coding.ok_bind]
    rfl
  · obtain ⟨coder', coded, decodes', ⟨-, ⟨forest', inner, learned⟩, -, -, next⟩⟩ :=
      modeled.followRoot tallied byte rest
    refine ⟨coder', _, [], recent, rfl, ?_, rfl, ⟨forest', inner.ofRoot modeled.predicted, learned⟩,
      absent, .inl rfl, next⟩
    rw [decodes, Coding.ok_bind]
    exact decodes'

end Decode

/-! ## One byte -/

/-- The symbols that a value gets: one in each context where it is new. -/
theorem ContextModel.created_above {model : ContextModel} {value : Nat} (path older : List Nat)
    (absent : ∀ other ∈ contextsAbove path older, (model other).counts value = 0)
    (found : path = [] ∨ 0 < (model path).counts value) :
    model.created value (contextsOf (path ++ older)) =
      (contextsAbove path older).countP (fun other => (model other).counts value = 0) +
        if (model path).counts value = 0 then 1 else 0 := by
  unfold created
  rw [visits_above path older absent found, List.countP_append, List.countP_singleton]
  simp only [decide_eq_true_eq]

/-- **A decoder that follows the shares of a byte writes the byte**, and is a step of the
model. -/
theorem Refines.decodeValue {coder : RangeCoder} {state : ContextState}
    {decoder decoder' : RangeDecoder} {output : List UInt8} {outLimit : Nat}
    (refines : Refines coder state) (value : UInt8)
    (follows : RangeDecoder.Follows decoder (state.shares value.toNat) decoder')
    (room : output.length < outLimit) :
    ∃ coder', Refines coder' (state.step value.toNat) ∧
      coder.decodeValue decoder output outLimit =
        .ok (some (coder', decoder'), output ++ [value]) := by
  obtain ⟨⟨forest, modeled, tallied⟩, used⟩ := refines
  have length := modeled.length
  obtain ⟨patched, decoded, above, older, whole, decodes, same, ⟨forest', inner, learned⟩, absent,
    found, next⟩ := modeled.followValue tallied value.toNat_lt follows
  obtain ⟨final, patches, order', few, forest'', coded, learns⟩ :=
    inner.patchContexts Ordered.kind modeled whole
  obtain ⟨learned', next'⟩ := learns (fun _ => id) _ learned
  rw [same] at learned' next' coded
  have away := not_mem_contextsAbove above older
  have before : ∀ other ∈ contextsAbove above older,
      (state.model.learn value.toNat [above]) other = state.model other := by
    intro other member
    refine ContextModel.learn_of_not_mem fun here => ?_
    obtain rfl := List.mem_singleton.mp here
    exact away member
  -- both orders count the value in the same contexts
  have visits : state.model.visits value.toNat (contextsOf state.recent) =
      contextsAbove above older ++ [above] := by
    rw [← whole]
    exact ContextModel.visits_above above older absent found
  have both : (state.model.learn value.toNat [above]).learn value.toNat
      (contextsAbove above older) = state.model.learn value.toNat
        (state.model.visits value.toNat (contextsOf state.recent)) := by
    rw [ContextModel.learn_cons away, visits]
    refine ContextModel.learn_congr fun path => ?_
    rw [List.mem_cons, List.mem_append, List.mem_singleton, or_comm]
  have created : final.nextSymbol = coder.nextSymbol +
      state.model.created value.toNat (contextsOf state.recent) := by
    rw [← whole, ContextModel.created_above above older absent found, next', next,
      List.countP_congr fun other member => by rw [before other member]]
    omega
  rw [both] at learned'
  obtain ⟨coder', steps, forest₂, path', modeled', continues⟩ := coded.nextContext Ordered.kind
    (by rw [List.length_cons, length, order']) (by rw [order']; exact modeled.order)
  refine ⟨coder', continues.refines used created learned' modeled', ?_⟩
  unfold RangeCoder.decodeValue
  rw [decodes, Coding.ok_bind]
  dsimp only
  rw [patches, Coding.ok_bind, if_neg (Nat.not_le.mpr room), steps, Coding.ok_bind, same,
    UInt8.ofNat_toNat]
  rfl

end Enet
