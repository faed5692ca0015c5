import Enet.Model.Compress

/-!
# Buffers of the encoder

`enet_range_coder_compress` switches to the next buffer once for each value that
it reads. Where no buffer behind the first is empty it reads the concatenation
of its buffers; an empty one behind the first is left by a read past its end.
-/

set_option autoImplicit false

namespace Enet

namespace RangeCoder

/-! ## The bytes that are coded -/

/-- The loop of `enet_range_coder_compress` over values that are at hand. -/
def encodeValues : List UInt8 → RangeCoder → RangeEncoder → Coding (RangeCoder × RangeEncoder)
  | [], coder, encoder => .ok (coder, encoder)
  | value :: values, coder, encoder =>
    match coder.encodeValue encoder value with
    | .error stop => .error stop
    | .ok (coder, encoder) => encodeValues values coder encoder

/-- Whether the loop stops before it has coded all of the values. -/
def StopsWithin (coder : RangeCoder) (encoder : RangeEncoder) (values : List UInt8) : Prop :=
  ∃ stop, encodeValues values coder encoder = .error stop

variable {coder coder' : RangeCoder} {encoder encoder' : RangeEncoder}

theorem encodeValues_append_of_error {values : List UInt8} {stop : CodingStop}
    (stops : encodeValues values coder encoder = .error stop) (more : List UInt8) :
    encodeValues (values ++ more) coder encoder = .error stop := by
  induction values generalizing coder encoder with
  | nil => cases stops
  | cons value values ih =>
      rw [List.cons_append]
      unfold encodeValues at stops ⊢
      split
      next coded =>
          rw [coded] at stops
          cases stops
          rfl
      next coded =>
          rw [coded] at stops
          exact ih stops

/-- The values of nonempty buffers are coded one after the other, and nothing
outside of the buffers is read. -/
theorem encodeLoop_prefix (beyond : Nat → UInt8) (extra outside : Nat)
    (rest : List (List UInt8)) (values : Nat) : ∀ (current : List UInt8)
    (before : List (List UInt8)) (coder : RangeCoder) (encoder : RangeEncoder),
    (∀ buffer ∈ before, buffer ≠ []) → current.length + before.flatten.length = values →
    (∃ stop cursor, encodeValues (current ++ before.flatten) coder encoder = .error stop ∧
      encodeLoop beyond (values + extra) ⟨current, before ++ rest, outside⟩ coder encoder =
        (cursor, .error stop) ∧ cursor.outside = outside) ∨
    (∃ coder' encoder', encodeValues (current ++ before.flatten) coder encoder =
        .ok (coder', encoder') ∧
      encodeLoop beyond (values + extra) ⟨current, before ++ rest, outside⟩ coder encoder =
        encodeLoop beyond extra ⟨[], rest, outside⟩ coder' encoder') := by
  induction values with
  | zero =>
      intro current before coder encoder filled number
      cases current with
      | cons value current => rw [List.length_cons] at number; omega
      | nil =>
          cases before with
          | nil => exact .inr ⟨coder, encoder, rfl, by rw [Nat.zero_add]; rfl⟩
          | cons buffer before =>
              have positive := List.length_pos_iff.mpr (filled buffer List.mem_cons_self)
              rw [List.flatten_cons, List.length_append] at number
              omega
  | succ values ih =>
      intro current before coder encoder filled number
      -- the first value is the head of the current buffer or of the next one
      obtain ⟨value, current', before', bytes, next, filled', number'⟩ :
          ∃ value current' before', current ++ before.flatten =
              value :: (current' ++ List.flatten before') ∧
            BufferCursor.next beyond ⟨current, before ++ rest, outside⟩ =
              some (value, ⟨current', before' ++ rest, outside⟩) ∧
            (∀ buffer ∈ before', buffer ≠ []) ∧
            current'.length + (List.flatten before').length = values := by
        cases current with
        | cons value current =>
            refine ⟨value, current, before, rfl, rfl, filled, ?_⟩
            rw [List.length_cons] at number
            omega
        | nil =>
            cases before with
            | nil => rw [List.flatten_nil, List.length_nil] at number; omega
            | cons buffer before =>
                cases buffer with
                | nil => exact absurd rfl (filled [] List.mem_cons_self)
                | cons value buffer =>
                    refine ⟨value, buffer, before, rfl, rfl,
                      fun other member => filled other (List.mem_cons_of_mem _ member), ?_⟩
                    rw [List.flatten_cons, List.length_append, List.length_cons] at number
                    rw [List.length_nil] at number
                    omega
      rw [Nat.add_right_comm, encodeLoop, next, bytes]
      unfold encodeValues
      dsimp only
      cases coder.encodeValue encoder value with
      | error stop => exact .inl ⟨stop, ⟨current', before' ++ rest, outside⟩, rfl, rfl, rfl⟩
      | ok coded =>
          obtain ⟨coder', encoder'⟩ := coded
          dsimp only
          exact ih current' before' coder' encoder' filled' number'

/-- What was read outside of the buffers stays read. -/
theorem outside_le_encodeLoop (beyond : Nat → UInt8) (fuel : Nat) :
    ∀ (cursor : BufferCursor) (coder : RangeCoder) (encoder : RangeEncoder),
      cursor.outside ≤ (encodeLoop beyond fuel cursor coder encoder).1.outside := by
  induction fuel with
  | zero => intro cursor coder encoder; exact Nat.le_refl _
  | succ fuel ih =>
      intro cursor coder encoder
      have grows : ∀ value after, cursor.next beyond = some (value, after) →
          cursor.outside ≤ after.outside := by
        intro value after next
        unfold BufferCursor.next at next
        split at next
        · cases next
          exact Nat.le_refl _
        · cases next
        · cases next
          exact Nat.le_refl _
        · cases next
          exact Nat.le_succ _
      unfold encodeLoop
      split
      · exact Nat.le_refl _
      next value after next =>
          split
          · exact grows value after next
          · exact Nat.le_trans (grows value after next) (ih _ _ _)

end RangeCoder

/-! ## Buffers -/

/-- The registers at the head of `enet_range_coder_compress`. -/
def RangeEncoder.start (outLimit : Nat) : RangeEncoder := ⟨0, 0xFFFFFFFF, [], outLimit⟩

/-- No buffer behind the first is empty, unless the output is full before the first
such buffer is reached; and nothing is read where `inLimit` is 0. -/
def SwitchesInside (symbols : Nat → CodeSymbol) (inBuffers : List (List UInt8))
    (inLimit outLimit : Nat) : Prop :=
  inLimit = 0 ∨ ∀ first before after, inBuffers = first :: (before ++ [] :: after) →
    [] ∉ before → ∀ coder, RangeCoder.start symbols = .ok coder →
      coder.StopsWithin (.start outLimit) (first ++ List.flatten before)

/-- The table always has room for the root context. -/
theorem RangeCoder.start_ok (symbols : Nat → CodeSymbol) :
    ∃ coder, RangeCoder.start symbols = .ok coder :=
  ⟨_, rfl⟩

/-- What `enet_range_coder_compress` returns, once its loop has ended. -/
def compressed (coded : Coding RangeEncoder) : Except CodingFault (List UInt8) :=
  codedBytes do
    let encoder ← coded
    let encoder ← encoder.flush 5
    return encoder.output

theorem turns_append (first : List UInt8) (before after : List (List UInt8)) :
    first.length + (before ++ [] :: after).flatten.length + ((before ++ [] :: after).length + 2) =
      first.length + before.flatten.length +
        (after.flatten.length + ((before ++ [] :: after).length + 2)) := by
  rw [List.flatten_append, List.length_append, List.flatten_cons, List.nil_append]
  omega

section Loop

variable {symbols : Nat → CodeSymbol} {coder : RangeCoder} (beyond : Nat → UInt8)
  (inLimit outLimit : Nat)

theorem rangeCoderCompress_of_start (starts : RangeCoder.start symbols = .ok coder)
    (positive : inLimit ≠ 0) (first : List UInt8) (rest : List (List UInt8)) :
    rangeCoderCompress symbols beyond (first :: rest) inLimit outLimit =
      (compressed (coder.encodeLoop beyond ((first.length + rest.flatten.length) +
          (rest.length + 2)) ⟨first, rest, 0⟩ (.start outLimit)).2,
        (coder.encodeLoop beyond ((first.length + rest.flatten.length) + (rest.length + 2))
          ⟨first, rest, 0⟩ (.start outLimit)).1.outside) := by
  have turns : ∀ buffers : List (List UInt8), (buffers.map fun buffer => buffer.length + 1).sum =
      buffers.flatten.length + buffers.length := by
    intro buffers
    induction buffers with
    | nil => rfl
    | cons buffer buffers ih =>
        rw [List.map_cons, List.sum_cons, ih, List.flatten_cons, List.length_append,
          List.length_cons]
        omega
  unfold rangeCoderCompress
  dsimp only
  rw [if_neg positive, starts, turns, List.flatten_cons, List.length_append, List.length_cons]
  rw [show first.length + rest.flatten.length + (rest.length + 1) + 1 =
    (first.length + rest.flatten.length) + (rest.length + 2) by omega]
  rfl

/-- **Nonempty buffers behind the first are read as their concatenation.** -/
theorem rangeCoderCompress_of_filled (starts : RangeCoder.start symbols = .ok coder)
    (positive : inLimit ≠ 0) (first : List UInt8) {rest : List (List UInt8)}
    (filled : ∀ buffer ∈ rest, buffer ≠ []) :
    rangeCoderCompress symbols beyond (first :: rest) inLimit outLimit =
      (compressed ((RangeCoder.encodeValues (first ++ rest.flatten) coder (.start outLimit)).map
        Prod.snd), 0) := by
  have loops := RangeCoder.encodeLoop_prefix beyond (rest.length + 2) 0 [] _ first rest coder
    (.start outLimit) filled rfl
  rw [List.append_nil] at loops
  rw [rangeCoderCompress_of_start beyond inLimit outLimit starts positive]
  rcases loops with ⟨stop, cursor, coded, loops, same⟩ | ⟨last, encoder, coded, loops⟩
  · rw [loops, coded, same]
    rfl
  · rw [loops, coded]
    rfl

/-- The loop that stops in the buffers before an empty one. -/
theorem rangeCoderCompress_of_stops (starts : RangeCoder.start symbols = .ok coder)
    (positive : inLimit ≠ 0) {first : List UInt8} {before : List (List UInt8)}
    (after : List (List UInt8)) (filled : ∀ buffer ∈ before, buffer ≠ [])
    (stops : coder.StopsWithin (.start outLimit) (first ++ before.flatten)) :
    rangeCoderCompress symbols beyond (first :: (before ++ [] :: after)) inLimit outLimit =
      (compressed ((RangeCoder.encodeValues (first ++ (before ++ [] :: after).flatten) coder
        (.start outLimit)).map Prod.snd), 0) := by
  obtain ⟨stop, stops⟩ := stops
  have whole := RangeCoder.encodeValues_append_of_error stops ([] :: after).flatten
  rw [List.append_assoc, ← List.flatten_append] at whole
  have loops := RangeCoder.encodeLoop_prefix beyond
    (after.flatten.length + ((before ++ [] :: after).length + 2)) 0 ([] :: after) _ first before
    coder (.start outLimit) filled rfl
  rw [rangeCoderCompress_of_start beyond inLimit outLimit starts positive, whole,
    turns_append first before after]
  rcases loops with ⟨other, cursor, coded, loops, same⟩ | ⟨last, encoder, coded, -⟩
  · rw [stops] at coded
    cases coded
    rw [loops, same]
    rfl
  · rw [stops] at coded
    cases coded

/-- The loop that reaches an empty buffer behind the first. -/
theorem rangeCoderCompress_of_empty (starts : RangeCoder.start symbols = .ok coder)
    (positive : inLimit ≠ 0) {first : List UInt8} {before : List (List UInt8)}
    (after : List (List UInt8)) (filled : ∀ buffer ∈ before, buffer ≠ [])
    (reaches : ¬coder.StopsWithin (.start outLimit) (first ++ before.flatten)) :
    0 < (rangeCoderCompress symbols beyond (first :: (before ++ [] :: after)) inLimit
      outLimit).2 := by
  have loops := RangeCoder.encodeLoop_prefix beyond
    (after.flatten.length + ((before ++ [] :: after).length + 2)) 0 ([] :: after) _ first before
    coder (.start outLimit) filled rfl
  rw [rangeCoderCompress_of_start beyond inLimit outLimit starts positive,
    turns_append first before after]
  rcases loops with ⟨stop, cursor, coded, -⟩ | ⟨last, encoder, -, loops⟩
  · exact absurd ⟨stop, coded⟩ reaches
  · rw [loops]
    dsimp only
    rw [show after.flatten.length + ((before ++ [] :: after).length + 2) =
      (after.flatten.length + (before ++ [] :: after).length + 1) + 1 by omega]
    unfold RangeCoder.encodeLoop
    dsimp only [BufferCursor.next]
    split
    · exact Nat.one_pos
    · exact RangeCoder.outside_le_encodeLoop beyond _ ⟨[], after, 0 + 1⟩ _ _

end Loop

/-- **Compression depends on the bytes only**, and reads nothing else, exactly where no
empty buffer is switched to. -/
theorem rangeCoderCompress_eq_iff (symbols : Nat → CodeSymbol) (beyond : Nat → UInt8)
    (inBuffers : List (List UInt8)) (inLimit outLimit : Nat) :
    rangeCoderCompress symbols beyond inBuffers inLimit outLimit =
        ((rangeCoderCompress symbols beyond [inBuffers.flatten] inLimit outLimit).1, 0) ↔
      SwitchesInside symbols inBuffers inLimit outLimit := by
  obtain ⟨coder, starts⟩ := RangeCoder.start_ok symbols
  have filled : ∀ {before : List (List UInt8)}, [] ∉ before → ∀ buffer ∈ before, buffer ≠ [] :=
    fun absent buffer member same => absent (same ▸ member)
  rcases Nat.eq_zero_or_pos inLimit with rfl | positive
  · refine iff_of_true ?_ (.inl rfl)
    cases inBuffers <;> rfl
  have positive : inLimit ≠ 0 := Nat.pos_iff_ne_zero.mp positive
  have single : ∀ bytes, rangeCoderCompress symbols beyond [bytes] inLimit outLimit =
      (compressed ((RangeCoder.encodeValues bytes coder (.start outLimit)).map Prod.snd), 0) := by
    intro bytes
    have reads := rangeCoderCompress_of_filled beyond inLimit outLimit starts positive bytes
      (fun buffer member => absurd member List.not_mem_nil)
    rwa [List.flatten_nil, List.append_nil] at reads
  rw [single]
  constructor
  · intro same
    refine .inr ?_
    intro first before after split absent coder' starts'
    rw [starts] at starts'
    cases starts'
    by_contra reaches
    have outside := rangeCoderCompress_of_empty beyond inLimit outLimit starts positive after
      (filled absent) reaches
    rw [← split, same] at outside
    exact Nat.lt_irrefl 0 outside
  · rintro (none | switches)
    · exact absurd none positive
    cases inBuffers with
    | nil => rfl
    | cons first rest =>
        by_cases empty : [] ∈ rest
        · obtain ⟨before, after, rfl, absent⟩ := List.eq_append_cons_of_mem empty
          exact rangeCoderCompress_of_stops beyond inLimit outLimit starts positive after
            (filled absent) (switches first before after rfl absent coder starts)
        · exact rangeCoderCompress_of_filled beyond inLimit outLimit starts positive first
            (filled empty)

/-- An empty table. -/
def blankSymbols : Nat → CodeSymbol := fun _ => RangeCoder.newSymbol 0 0

/-- A SEND_RELIABLE command with the empty data of its packet behind it: a value is
read from outside of the data. -/
theorem rangeCoderCompress_ne_concatenation :
    ¬∀ (symbols : Nat → CodeSymbol) (beyond : Nat → UInt8) (inBuffers : List (List UInt8))
      (inLimit outLimit : Nat), 0 < inBuffers.flatten.length →
        rangeCoderCompress symbols beyond inBuffers inLimit outLimit =
          ((rangeCoderCompress symbols beyond [inBuffers.flatten] inLimit outLimit).1, 0) := by
  intro always
  have same := always blankSymbols (fun _ => 0) [[0x86, 0, 0, 1, 0, 0], []] 6 6 (by decide)
  exact absurd (congrArg Prod.snd same) (by decide +kernel)

end Enet
