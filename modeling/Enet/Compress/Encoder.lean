import Enet.Compress.Visits

/-!
# What the encoder codes

The visits of a byte code the shares that the model of contexts gives it, whatever
the registers are, and count the byte in the table as in the model.
-/

set_option autoImplicit false

namespace Enet

open Library (Share)

/-! ## Shares -/

namespace RangeEncoder

/-- Shares coded one after the other. -/
def encodeShares : List Share → RangeEncoder → CheckedCoding RangeEncoder
  | [], encoder => .ok encoder
  | share :: shares, encoder => do
    let encoder ← encoder.encodeChecked share.under share.count share.total
    encodeShares shares encoder

theorem encodeShares_singleton (share : Share) (encoder : RangeEncoder) :
    encodeShares [share] encoder =
      encoder.encodeChecked share.under share.count share.total :=
  bind_pure _

theorem encodeShares_append (shares shares' : List Share) : ∀ encoder : RangeEncoder,
    encodeShares (shares ++ shares') encoder =
      encodeShares shares encoder >>= encodeShares shares' := by
  induction shares with
  | nil => exact fun encoder => rfl
  | cons share shares ih =>
      intro encoder
      rw [List.cons_append]
      unfold encodeShares
      rw [bind_assoc]
      exact bind_congr ih

/-- A share that the registers can narrow their range to. -/
structure Narrow (share : Share) : Prop extends share.Proper where
  small : share.total < rangeCoderBottom

/-- **Coding shares keeps the registers ready**, or the output is full. -/
theorem Ready.encodeShares {shares : List Share} (narrow : ∀ share ∈ shares, Narrow share) :
    ∀ {encoder : RangeEncoder}, encoder.Ready → Ends (encoder.encodeShares shares) := by
  induction shares with
  | nil => exact fun ready => .inr ⟨_, rfl, ready⟩
  | cons share shares ih =>
      intro encoder ready
      obtain ⟨⟨positive, within⟩, small⟩ := narrow share List.mem_cons_self
      refine (ready.encode positive within small).bind ?_
      intro encoder' ready'
      exact ih (fun other member => narrow other (List.mem_cons_of_mem _ member)) ready'

end RangeEncoder

/-! ## Shares that can be coded -/

theorem Tally.below_mono (tally : Tally) (least : Nat) {value value' : Nat}
    (le : value ≤ value') : tally.below least value ≤ tally.below least value' :=
  Finset.sum_le_sum_of_subset (Finset.range_subset_range.mpr le)

theorem Tally.below_succ (tally : Tally) (least value : Nat) :
    tally.below least (value + 1) = tally.below least value + (tally.counts value + least) :=
  Finset.sum_range_succ ..

/-- A share of a value that has a count lies within the total. -/
theorem Tally.share_proper {tally : Tally} {path : List Nat} {value : Nat} (byte : value < 256)
    (coded : path = [] ∨ 0 < tally.counts value) : (tally.share path value).Proper := by
  have within := tally.below_mono (leastCount path) (Nat.succ_le_of_lt byte)
  rw [tally.below_succ] at within
  refine ⟨?_, ?_⟩
  · unfold Tally.share leastCount
    dsimp only
    rcases coded with root | counted
    · rw [if_pos root]
      dsimp only [contextSymbolMinimum]
      omega
    · omega
  · unfold Tally.share Tally.total
    dsimp only
    omega

/-- **The shares of a value can be coded** where no total is too large. -/
theorem ContextModel.shares_narrow {model : ContextModel} {value : Nat} (byte : value < 256)
    {paths : List (List Nat)} (bounded : ∀ path ∈ paths,
      (model path).total (leastCount path) ≤ rangeCoderBottom - 0x100) :
    ∀ share ∈ model.shares value paths, RangeEncoder.Narrow share := by
  induction paths with
  | nil => exact fun share member => absurd member List.not_mem_nil
  | cons path rest ih =>
      have small : (model path).total (leastCount path) < rangeCoderBottom := by
        have := bounded path List.mem_cons_self
        dsimp only [rangeCoderBottom] at this ⊢
        omega
      intro share member
      unfold ContextModel.shares at member
      split at member
      next coded =>
          obtain rfl := List.mem_singleton.mp member
          exact ⟨Tally.share_proper byte coded, small⟩
      next absent =>
          rcases List.mem_append.mp member with escape | later
          · have least : leastCount path = 0 := if_neg fun root => absent (.inl root)
            rw [least] at small
            unfold Tally.escapeShare at escape
            split at escape
            next escapes =>
                obtain rfl := List.mem_singleton.mp escape
                exact ⟨⟨escapes.1, by dsimp only; omega⟩, small⟩
            next => exact absurd escape List.not_mem_nil
          · exact ih (fun other member => bounded other (List.mem_cons_of_mem _ member)) share later

/-! ## The share of a value in the table -/

section Share

variable {coder : RangeCoder} {forest : Nat → CodeTree} {model : ContextModel}
  {path : List Nat} {context value least : Nat}

/-- **The share of a value is in the table**: what comes under its symbol, and its count. -/
theorem Tallied.share {update new : Nat} {tree' : CodeTree} {coded : CodedSymbol} {found : Bool}
    (tallied : Tallied coder forest model) (leads : Path forest path context)
    (books : Books coder context (forest context)) (sound : Sound (forest context))
    (grown : CodeTree.Grown value update new (forest context) tree' coded found)
    (ascends : tree'.values.Pairwise (· < ·)) (minimum : contextMinimum context = leastCount path) :
    (model path).share path value = ⟨(coder.symbols context).escapes +
      (value * leastCount path + coded.under), leastCount path + coded.count,
      (coder.symbols context).total⟩ := by
  obtain ⟨count, under⟩ := grown.located ascends
  have total := books.total_eq sound minimum
  have below : (coder.tally forest context).below (leastCount path) value =
      value * leastCount path + coded.under := by
    unfold Tally.below RangeCoder.tally
    dsimp only
    rw [Finset.sum_add_distrib, ← under, Finset.sum_const, Finset.card_range, nsmul_eq_mul,
      Nat.cast_id, Nat.add_comm]
  unfold Tally.share
  rw [tallied.known leads, total, below, count]
  rfl

/-- The share of an escape is in the table. -/
theorem Tallied.escapeShare (tallied : Tallied coder forest model)
    (leads : Path forest path context) (books : Books coder context (forest context))
    (sound : Sound (forest context)) (notRoot : context ≠ 0) :
    (model path).escapeShare =
      if 0 < (coder.symbols context).escapes ∧
          (coder.symbols context).escapes < (coder.symbols context).total then
        [⟨0, (coder.symbols context).escapes, (coder.symbols context).total⟩]
      else [] := by
  unfold Tally.escapeShare
  rw [tallied.known leads, books.total_eq sound (if_neg notRoot)]
  rfl

end Share

/-! ## The visits -/

namespace RangeCoder

/-- The visits of a value: the subcontexts from one of them on, and the root where the value
is new in all of them. -/
def encodeContextsChecked (value fuel : Nat) (coder : RangeCoder) (encoder : RangeEncoder)
    (subcontext : Nat) (parent : ParentSlot) : CheckedCoding (RangeCoder × RangeEncoder) := do
  let result ← encodeSubcontextsChecked value fuel coder encoder subcontext parent
  match result.2.2 with
  | none => pure (result.1, result.2.1)
  | some parent => result.1.encodeRootChecked result.2.1 value parent

end RangeCoder

/-- What the visits of contexts do to the table: the value is counted as in the model. -/
structure Learns (coder coder' : RangeCoder) (model : ContextModel) (value : Nat)
    (recent : List Nat) (paths : List (List Nat)) : Prop where
  coded : ∃ forest', Coded Ordered coder' forest' (value :: recent) ∧
    Tallied coder' forest' (model.learn value (model.visits value paths))
  next : coder'.nextSymbol = coder.nextSymbol + model.created value paths
  order : coder'.order = coder.order

section Visits

variable {coder coder' coder'' : RangeCoder} {forest forest'' : Nat → CodeTree}
  {model : ContextModel} {value context : Nat} {recent path : List Nat}
  {rest : List (List Nat)} {slot : RangeCoder.ParentSlot}

/-- The visit of a context in which the value is new comes before the others. -/
theorem Learns.cons (learns : Learns coder'' coder' (model.learn value [path]) value recent rest)
    (absent : (model path).counts value = 0) (away : path ∉ rest)
    (next : coder''.nextSymbol = coder.nextSymbol + 1) (order : coder''.order = coder.order) :
    Learns coder coder' model value recent (path :: rest) := by
  have same : ∀ other ∈ rest, (model.learn value [path]) other = model other := by
    intro other member
    refine ContextModel.learn_of_not_mem ?_
    rintro here
    obtain rfl := List.mem_singleton.mp here
    exact away member
  obtain ⟨⟨forest', coded, tallied⟩, next', order'⟩ := learns
  refine ⟨⟨forest', coded, ?_⟩, ?_, order'.trans order⟩
  · rw [ContextModel.visits_congr same,
      ContextModel.learn_cons fun member => away (ContextModel.visits_subset rest member)]
      at tallied
    rw [ContextModel.visits_of_zero absent]
    exact tallied
  · rw [next', next, ContextModel.created_congr same, ContextModel.created_of_zero absent]
    omega

/-- The visit of a context that has the symbol of the value is the last. -/
theorem Learns.last (coded : Coded Ordered coder' forest'' (value :: recent))
    (learned : Tallied coder' forest'' (model.learn value [path]))
    (found : 0 < (model path).counts value)
    (next : coder'.nextSymbol =
      coder.nextSymbol + if (model path).counts value = 0 then 1 else 0)
    (order : coder'.order = coder.order) :
    Learns coder coder' model value recent (path :: rest) := by
  refine ⟨⟨forest'', coded, ?_⟩, ?_, order⟩
  · rw [ContextModel.visits_of_pos found]
    exact learned
  · rw [next, if_neg (Nat.ne_of_gt found), ContextModel.created_of_pos found]

/-- **The visit of the root** codes the share of the value there, and counts it. -/
theorem VisitingContext.encodeRoot
    (visiting : VisitingContext Ordered coder forest value recent 0 [] slot)
    (tallied : Tallied coder forest model) (byte : value < 256)
    (room : coder.nextSymbol < rangeCoderSymbols) :
    ∃ coder', (∀ encoder : RangeEncoder, coder.encodeRootChecked encoder value slot =
        encoder.encodeShares (model.shares value [[]]) >>= fun encoder' =>
          .ok (coder', encoder')) ∧
      Learns coder coder' model value recent [[]] := by
  obtain ⟨pending, inv, -⟩ := visiting.inv
  have books := visiting.books 0 inv.rooted
  have sum := books.total
  have within := books.bounded
  have sound := (inv.kept 0).toSound
  have grown := CodeTree.insert_grown value (contextDelta 0) coder.nextSymbol (forest 0)
  have kept := Ordered.kind.insert coder.nextSymbol (inv.kept 0) byte (contextDelta_bounds 0).1
  have located := grown.le_weight
  have share := tallied.share .root books sound grown kept.ascending rfl
  obtain ⟨coded, coder', encodes, written, visited, predicted⟩ :=
    visiting.visit Ordered.kind byte room
  obtain ⟨coder'', counts, forest'', counted, changed⟩ :=
    visited.countRoot Ordered.kind grown books inv.rooted
  have minimum : contextMinimum 0 = 1 := rfl
  rw [minimum] at encodes sum
  dsimp only [rangeCoderBottom] at within
  refine ⟨coder'', fun encoder => ?_, ⟨forest'', ?_, ?_⟩, ?_, counted.order.trans visited.order⟩
  · have encodes' : coder.contextEncodeChecked 0 value contextSymbolDelta contextSymbolMinimum =
      _ := encodes
    unfold RangeCoder.encodeRootChecked
    rw [encodes', CheckedCoding.ok_bind]
    dsimp only
    rw [written, CheckedCoding.ok_bind, RangeCoder.symbol_checked (by decide),
      CheckedCoding.ok_bind, visited.escapes 0 inv.rooted, visited.total,
      fit16_of_lt (by omega), CheckedCoding.ok_bind]
    unfold ContextModel.shares
    rw [if_pos (.inl rfl), share]
    rw [RangeEncoder.encodeShares_singleton]
    refine bind_congr fun encoder' => ?_
    rw [counts]
    rfl
  · exact counted.coded predicted (.inr rfl)
  · have alone : model.visits value [[]] = [[]] := by
      unfold ContextModel.visits ContextModel.visits
      split <;> rfl
    rw [alone]
    exact tallied.learn 0 (fun _ => id) inv books .root visited grown changed rfl rfl
  · rw [counted.next, tallied.next (fun _ => id) inv .root visited grown]
    by_cases new : (model []).counts value = 0
    · rw [if_pos new, ContextModel.created_of_zero new]
      rfl
    · rw [if_neg new, ContextModel.created_of_pos (Nat.pos_of_ne_zero new)]

/-- **The visits of a value** code its shares, whatever the registers are, and count it. -/
theorem VisitingContext.encodeContexts (byte : value < 256) (path : List Nat) :
    ∀ {coder : RangeCoder} {forest : Nat → CodeTree} {model : ContextModel} {context fuel : Nat}
      {slot : RangeCoder.ParentSlot},
    VisitingContext Ordered coder forest value recent context path slot →
    Tallied coder forest model → coder.nextSymbol + path.length < rangeCoderSymbols →
    path.length < fuel →
    ∃ coder', (∀ encoder : RangeEncoder,
        RangeCoder.encodeContextsChecked value fuel coder encoder context slot =
          encoder.encodeShares (model.shares value (contextsOf path)) >>= fun encoder' =>
            .ok (coder', encoder')) ∧
      Learns coder coder' model value recent (contextsOf path) := by
  induction path using List.reverseRecOn with
  | nil =>
      intro coder forest model context fuel slot visiting tallied room enough
      have root : context = 0 := by
        cases visiting.leads with
        | root => rfl
      subst root
      obtain ⟨fuel, rfl⟩ : ∃ rest, fuel = rest + 1 := ⟨fuel - 1, by omega⟩
      exact visiting.encodeRoot tallied byte room
  | append_singleton path oldest ih =>
      intro coder forest model context fuel slot visiting tallied room enough
      rw [List.length_append, List.length_singleton] at room enough
      obtain ⟨fuel, rfl⟩ : ∃ rest, fuel = rest + 1 := ⟨fuel - 1, by omega⟩
      obtain ⟨pending, inv, -⟩ := visiting.inv
      have below := inv.path_lt visiting.leads
      have inTable : context < rangeCoderSymbols := Nat.lt_of_lt_of_le below inv.room
      have subcontext : path ++ [oldest] ≠ [] := by simp
      have notRoot : context ≠ 0 := mt (inv.path_nil_iff visiting.leads).mpr subcontext
      have books := visiting.books context below
      have sum := books.total
      have within := books.bounded
      have delta : contextDelta context = 2 := if_neg notRoot
      have minimum : contextMinimum context = 0 := if_neg notRoot
      have least : leastCount (path ++ [oldest]) = 0 := if_neg subcontext
      have sound := (inv.kept context).toSound
      have grown := CodeTree.insert_grown value (contextDelta context) coder.nextSymbol
        (forest context)
      have kept := Ordered.kind.insert coder.nextSymbol (inv.kept context) byte
        (contextDelta_bounds context).1
      have located := grown.le_weight
      have share := tallied.share visiting.leads books sound grown kept.ascending
        (minimum.trans least.symm)
      have escapes := tallied.escapeShare visiting.leads books sound notRoot
      have positive := grown.count_pos sound.counted
      have tally := tallied.count visiting.leads grown kept.ascending
      obtain ⟨coded, coder', encodes, written, visited, predicted⟩ :=
        visiting.visit Ordered.kind byte (by omega)
      obtain ⟨coder'', counts, forest'', counted, changed⟩ := visited.countSubcontext Ordered.kind
        grown sound.counted books inTable below notRoot
      have learned := tallied.learnSubcontext subcontext (fun _ => id) inv books visiting.leads
        visited grown changed
      have next := counted.next.trans
        (tallied.next (fun _ => id) inv visiting.leads visited grown)
      have order : coder''.order = coder.order := counted.order.trans visited.order
      rw [delta, minimum] at encodes
      rw [contextsOf_concat]
      dsimp only [rangeCoderBottom] at within
      unfold RangeCoder.encodeContextsChecked RangeCoder.encodeSubcontextsChecked
      simp only [if_neg notRoot, encodes, CheckedCoding.ok_bind, Nat.mul_zero, Nat.zero_add,
        written, RangeCoder.symbol_checked inTable, visited.escapes context below, visited.total,
        counts]
      unfold ContextModel.shares
      rw [tally, share]
      by_cases found : 0 < ((forest context).locate value coder.nextSymbol).count
      · -- the value has a symbol: nothing is left to visit
        refine ⟨coder'', fun encoder => ?_,
          .last (counted.coded predicted (.inl (positive.mp found))) learned
            (by rw [tally]; exact found) next order⟩
        rw [if_pos found, if_pos (.inr found), fit16_of_lt (by omega), least, Nat.mul_zero,
          Nat.zero_add, Nat.zero_add]
        rw [RangeEncoder.encodeShares_singleton]
        simp only [CheckedCoding.ok_bind, if_pos found, bind_assoc]
        rfl
      · -- an escape is coded, where the context has any, and its parent is visited
        have none : ((forest context).locate value coder.nextSymbol).count = 0 := by omega
        rw [if_pos (tally.trans none)] at next
        obtain ⟨final, codes, learns⟩ := ih (visiting.parent visited predicted grown counted)
          learned (by omega) (Nat.lt_of_succ_lt_succ enough)
        have away : ∀ other ∈ contextsOf path, other ∉ [path ++ [oldest]] := by
          intro other member here
          obtain rfl := List.mem_singleton.mp here
          exact not_mem_contextsOf path oldest member
        rw [@ContextModel.shares_congr model _ _ _ fun other member =>
          ContextModel.learn_of_not_mem (away other member)] at codes
        refine ⟨final, fun encoder => ?_, learns.cons (tally.trans none)
          (not_mem_contextsOf path oldest) next order⟩
        rw [if_neg found, if_neg (not_or.mpr ⟨subcontext, found⟩), escapes,
          RangeEncoder.encodeShares_append, bind_assoc]
        unfold RangeCoder.encodeContextsChecked at codes
        split
        next escapes =>
            rw [RangeEncoder.encodeShares_singleton, bind_assoc]
            refine bind_congr fun encoder' => ?_
            exact codes encoder'
        next => exact codes encoder

end Visits

end Enet
