import Enet.Compress.Transmission

/-!
# What was compressed is decompressed

The compressor codes the shares that a model of contexts gives to its bytes, one
after the other, and the decompressor learns from each byte what the compressor
has learned. Both keep tables of their own, in which the symbols lie at other
indices; what they have in common is the state of the model.
-/

set_option autoImplicit false

namespace Enet

open Library (Share)

/-! ## Runs of the model -/

namespace ContextState

/-- The shares of bytes that are coded one after the other. -/
def sharesOf : ContextState → List UInt8 → List Share
  | _, [] => []
  | state, value :: values =>
    state.shares value.toNat ++ sharesOf (state.step value.toNat) values

/-- The state after bytes that are coded one after the other. -/
def run (state : ContextState) (values : List UInt8) : ContextState :=
  values.foldl (fun state value => state.step value.toNat) state

end ContextState

/-- Both functions start in the first state of the model, whatever the table held before. -/
theorem refines_start (symbols : Nat → CodeSymbol) :
    ∃ coder, RangeCoder.start symbols = .ok coder ∧ Refines coder .start := by
  obtain ⟨coder, creates, alone, empty, escapes, total, predicted, order⟩ :=
    RangeCoder.contextCreate_root ⟨symbols, 0, 0, 0⟩ rfl
  exact ⟨coder, creates, ⟨_, .blank Ordered.kind alone empty escapes total predicted order,
    .start escapes⟩, alone⟩

/-- The shares of bytes can be coded. -/
theorem Refines.narrow_all (values : List UInt8) :
    ∀ {coder : RangeCoder} {state : ContextState}, Refines coder state →
    ∀ share ∈ state.sharesOf values, RangeEncoder.Narrow share := by
  induction values with
  | nil => exact fun _ share member => absurd member List.not_mem_nil
  | cons value values ih =>
      intro coder state refines share member
      obtain ⟨coder', steps, -⟩ := refines.encodeValue value
      unfold ContextState.sharesOf at member
      rcases List.mem_append.mp member with first | rest
      · exact refines.narrow value.toNat_lt share first
      · exact ih steps share rest

/-- **The loop of the compressor codes the shares of its bytes**, and its table keeps the state
of the model. -/
theorem Refines.encodeValues (values : List UInt8) :
    ∀ {coder : RangeCoder} {state : ContextState}, Refines coder state →
    ∃ coder', Refines coder' (state.run values) ∧ ∀ encoder : RangeEncoder, encoder.Ready →
      (RangeCoder.encodeValues values coder encoder).checked =
        encoder.encodeShares (state.sharesOf values) >>= fun encoder' =>
          .ok (coder', encoder') := by
  induction values with
  | nil => exact fun {coder} {state} refines => ⟨coder, refines, fun encoder ready => rfl⟩
  | cons value values ih =>
      intro coder state refines
      obtain ⟨between, steps, codes⟩ := refines.encodeValue value
      obtain ⟨coder', runs, codesAll⟩ := ih steps
      refine ⟨coder', runs, fun encoder ready => ?_⟩
      have ends := ready.encodeShares (refines.narrow value.toNat_lt)
      have agrees := RangeCoder.encodeValueChecked_agrees coder encoder value
      rw [codes encoder] at agrees
      unfold ContextState.sharesOf RangeCoder.encodeValues
      rw [RangeEncoder.encodeShares_append]
      rcases ends with full | ⟨encoder', written, ready'⟩
      · rw [full] at agrees ⊢
        rw [agrees.of_stop rfl]
        rfl
      · rw [written] at agrees ⊢
        rw [agrees.of_ok rfl]
        exact codesAll encoder' ready'

/-- **The loop of the decompressor writes the bytes** whose shares it follows, up to the end of
the stream. -/
theorem Refines.decodeLoop {last : RangeDecoder} (ended : last.Ended) {outLimit : Nat}
    (values : List UInt8) : ∀ {coder : RangeCoder} {state : ContextState}
      {decoder : RangeDecoder} {output : List UInt8} {fuel : Nat}, Refines coder state →
    decoder.Follows (state.sharesOf values) last →
    output.length + values.length ≤ outLimit → values.length < fuel →
    coder.decodeLoop outLimit fuel decoder output = .ok (output ++ values) := by
  induction values with
  | nil =>
      intro coder state decoder output fuel refines follows room enough
      obtain ⟨fuel, rfl⟩ : ∃ rest, fuel = rest + 1 := ⟨fuel - 1, by omega⟩
      cases follows
      obtain ⟨⟨forest, modeled, -⟩, -⟩ := refines
      unfold RangeCoder.decodeLoop
      rw [modeled.decodeValue_end ended, Coding.ok_bind, List.append_nil]
      rfl
  | cons value values ih =>
      intro coder state decoder output fuel refines follows room enough
      rw [List.length_cons] at room enough
      obtain ⟨fuel, rfl⟩ : ∃ rest, fuel = rest + 1 := ⟨fuel - 1, by omega⟩
      obtain ⟨between, first, rest⟩ := follows.of_append
      obtain ⟨coder', steps, decodes⟩ :=
        @Refines.decodeValue _ _ _ _ output outLimit refines value first (by omega)
      have written := @ih coder' _ between (output ++ [value]) fuel steps rest (by
        rw [List.length_append, List.length_singleton]
        omega) (by omega)
      rw [List.append_assoc] at written
      unfold RangeCoder.decodeLoop
      rw [decodes, Coding.ok_bind]
      exact written

/-! ## Compression -/

theorem Coding.checked_map {α β : Type} (plain : Coding α) (change : α → β) :
    Coding.checked (plain.map change) = plain.checked >>= fun value => .ok (change value) := by
  cases plain with
  | ok value => rfl
  | error stop => rfl

/-- The bytes that are returned were written by a coding that did not stop. -/
theorem codedBytes_eq_ok {coded : Coding (List UInt8)} {bytes : List UInt8}
    (returns : codedBytes coded = .ok bytes) (some : bytes ≠ []) : coded = .ok bytes := by
  unfold codedBytes at returns
  split at returns
  · cases returns
    rfl
  · cases returns
    exact absurd rfl some
  · cases returns

section Compress

variable {symbols symbols' : Nat → CodeSymbol} {beyond : Nat → UInt8}
  {buffers : List (List UInt8)} {inLimit outLimit : Nat}

/-- **The compressor is the range coder over the model of contexts**: what it writes are the
shares of its bytes and the low end behind them, whatever its table held before. -/
theorem rangeCoderCompress_codes (filled : ∀ buffer ∈ buffers, buffer ≠ [])
    (some : buffers ≠ []) (positive : inLimit ≠ 0) :
    ∃ coded : Coding RangeEncoder,
      rangeCoderCompress symbols beyond buffers inLimit outLimit = (compressed coded, 0) ∧
      coded.checked =
        (RangeEncoder.start outLimit).encodeShares
          (ContextState.start.sharesOf buffers.flatten) := by
  obtain ⟨coder, starts, refines⟩ := refines_start symbols
  cases buffers with
  | nil => exact absurd rfl some
  | cons first rest =>
      obtain ⟨coder', -, codes⟩ := refines.encodeValues (first ++ rest.flatten)
      refine ⟨_, rangeCoderCompress_of_filled beyond inLimit outLimit starts positive first
        fun buffer member => filled buffer (List.mem_cons_of_mem _ member), ?_⟩
      rw [Coding.checked_map, codes (.start outLimit) (RangeEncoder.ready_start outLimit),
        bind_assoc, List.flatten_cons]
      exact bind_pure _

/-- **The bytes of the shares and of the low end lead a decoder to the end of the stream.** -/
theorem RangeEncoder.transmits_stream {values : List UInt8} {encoder encoder' : RangeEncoder}
    (codes : (RangeEncoder.start outLimit).encodeShares (ContextState.start.sharesOf values) =
      .ok encoder)
    (flushes : encoder.flush 5 = .ok encoder') :
    ∃ last : RangeDecoder, last.Ended ∧
      (RangeDecoder.seed encoder'.output).Follows (ContextState.start.sharesOf values) last := by
  obtain ⟨coder, -, refines⟩ := refines_start blankSymbols
  obtain ⟨bytes, transmits⟩ :=
    (RangeEncoder.ready_start outLimit).transmits_all (refines.narrow_all values) codes
  have ready := transmits.ready
  have carry := ready.carry
  have wide := ready.wide
  dsimp only [rangeCoderBottom] at wide
  have written : encoder.output = bytes := transmits.output
  obtain ⟨low, range, output, limit⟩ := encoder
  dsimp only at carry wide written
  subst written
  obtain ⟨tail, output', few, stands⟩ := RangeEncoder.flush_leading 5 (show 4 + 0 = 4 from rfl)
    (by omega) (Nat.pow_zero 256 ▸ Nat.one_dvd low) flushes
  have within : Within low range tail := ⟨Nat.le_of_eq stands.symm, by rw [stands]; omega⟩
  have follows := transmits.follows within
  have behind : tail.drop 4 = [] := List.drop_of_length_le few
  rw [RangeDecoder.seed_eq _ outLimit, output']
  refine ⟨_, ⟨⟨wide, ?_⟩, stands, behind⟩, follows⟩
  exact InRange.tame ⟨Nat.lt_of_lt_of_le (by decide) wide, carry, ready.high⟩

/-- **What was compressed is decompressed**: the bytes that the compressor returns for nonempty
buffers, if any, are decompressed to what the buffers held, with any table on either side and
any room that the bytes fit. -/
theorem decompress_compress {limit : Nat} {bytes : List UInt8} {outside : Nat}
    (filled : ∀ buffer ∈ buffers, buffer ≠ [])
    (compresses : rangeCoderCompress symbols beyond buffers inLimit outLimit = (.ok bytes, outside))
    (returns : bytes ≠ []) (room : buffers.flatten.length ≤ limit) :
    rangeCoderDecompress symbols' bytes limit = .ok buffers.flatten := by
  have some : buffers ≠ [] := by
    rintro rfl
    cases compresses
    exact returns rfl
  have positive : inLimit ≠ 0 := by
    rintro rfl
    cases buffers with
    | nil => exact some rfl
    | cons first rest =>
        cases compresses
        exact returns rfl
  obtain ⟨coded, codes, shares⟩ := @rangeCoderCompress_codes symbols beyond buffers inLimit outLimit
    filled some positive
  have written := codedBytes_eq_ok (congrArg Prod.fst (codes.symm.trans compresses)) returns
  -- neither the shares nor the low end found the output full
  cases coded with
  | error stop => cases written
  | ok encoder =>
      rw [Coding.ok_bind] at written
      cases flushes : encoder.flush 5 with
      | error stop =>
          rw [flushes] at written
          cases written
      | ok encoder' =>
          rw [flushes] at written
          cases written
          obtain ⟨last, ended, follows⟩ := RangeEncoder.transmits_stream shares.symm flushes
          obtain ⟨coder, starts, refines⟩ := refines_start symbols'
          have loops := refines.decodeLoop ended buffers.flatten follows
            (show [].length + _ ≤ limit by simpa using room) (show _ < limit + 2 by omega)
          unfold rangeCoderDecompress
          rw [if_neg (by simpa using returns), starts, Coding.ok_bind, loops]
          rfl

/-- Two buffers with a byte that comes again. -/
theorem decompress_compress_bytes :
    rangeCoderDecompress blankSymbols [8, 0, 12, 56] 3 = .ok [7, 7, 9] :=
  @decompress_compress blankSymbols blankSymbols (fun _ => 0) [[7], [7, 9]] 3 100 3 _ 0
    (by decide) (by decide +kernel) (by decide) (by decide)

end Compress

end Enet
