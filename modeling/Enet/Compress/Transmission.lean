import Enet.Compress.Buffers
import Enet.Compress.Lockstep
import Enet.Library.Bytes

/-!
# What is coded is read

The bytes behind those that the encoder has written stand for a number in its
range, whatever it codes afterwards: what is narrowed later is narrowed within
the range, and the last bytes are those of the low end. So a decoder that has
the registers of the encoder and the next four bytes as its code reads a code in
the share that the encoder coded, and follows it to the end of the stream; behind
that its code is the low end, and it reads nothing but escapes.
-/

set_option autoImplicit false

namespace Enet

open Library (Share leading leading_lt leading_succ leading_tail leading_nil)

/-! ## The bytes that follow -/

/-- The bytes that follow stand for a number in the range. -/
structure Within (low range : Nat) (rest : List UInt8) : Prop where
  above : low ≤ leading 4 rest
  below : leading 4 rest < low + range

@[simp] theorem length_topBytes (turns : Nat) : ∀ low, (topBytes turns low).length = turns := by
  induction turns with
  | zero => exact fun low => rfl
  | succ turns ih =>
      intro low
      rw [topBytes, List.length_cons, ih]

/-- A byte in front of a number that is shifted by a byte. -/
theorem leading_cons_bounds (byte : UInt8) (rest : List UInt8) :
    leading 4 (byte :: rest) = byte.toNat * 16777216 + leading 3 rest ∧
      leading 3 rest * 256 ≤ leading 4 rest ∧ leading 4 rest < leading 3 rest * 256 + 256 := by
  have last := ((rest.drop 3).headD 0).toNat_lt
  have split : leading 4 rest = _ := leading_succ 3 rest
  refine ⟨rfl, ?_, ?_⟩
  · omega
  · omega

/-- **The bytes that are shifted out stand in front of those that follow**: a number in the
range that is left was in the range before. -/
theorem Settles.within {turns low range low' range' : Nat}
    (settles : Settles turns low range low' range') : InRange low range → low < 4294967296 →
    ∀ {rest : List UInt8}, Within low' range' rest →
      Within low range (topBytes turns low ++ rest) := by
  induction settles with
  | done settled => exact fun _ _ _ within => within
  | @turn turns low range cut low' range' shifts small rest ih =>
      intro inRange below bytes within
      obtain ⟨above, under⟩ := ih (inRange.next shifts) (Nat.mod_lt _ (by decide)) within
      have fewer : cut ≤ range := by
        obtain ⟨-, -, ⟨same, -, -⟩ | ⟨-, fewer, -, -⟩⟩ := inRange.turn shifts
        · exact Nat.le_of_eq same
        · exact fewer
      have numbers : ∀ third fourth : Nat, third * 256 ≤ fourth → fourth < third * 256 + 256 →
          low % 16777216 * 256 ≤ fourth → fourth < low % 16777216 * 256 + cut * 256 →
          low ≤ low / 16777216 * 16777216 + third ∧
            low / 16777216 * 16777216 + third < low + range := by
        omega
      obtain ⟨first, low₃, high₃⟩ := leading_cons_bounds (UInt8.ofNat (low / rangeCoderTop))
        (topBytes turns (u32 (low * 256)) ++ bytes)
      have top : (UInt8.ofNat (low / rangeCoderTop)).toNat = low / 16777216 := by
        rw [UInt8.toNat_ofNat']
        dsimp only [rangeCoderTop]
        omega
      have shifted : u32 (low * 256) = low % 16777216 * 256 := by
        dsimp only [u32]
        omega
      rw [topBytes, List.cons_append]
      rw [shifted] at above under low₃ high₃ first
      rw [shifted]
      rw [top] at first
      obtain ⟨reaches, stays⟩ := numbers _ _ low₃ high₃ above under
      rw [← first] at reaches stays
      exact ⟨reaches, stays⟩

/-! ## Shifting in -/

namespace RangeDecoder

/-- A turn shifts a byte into the code, and takes it from the input. -/
theorem shiftIns_step (turns code : Nat) (input : List UInt8) :
    shiftIns (turns + 1) code input =
      shiftIns turns (u32 (code * 256 + (input.headD 0).toNat)) input.tail := by
  cases input with
  | nil => simp only [shiftIns, List.headD_nil, UInt8.toNat_zero, Nat.add_zero, List.tail_nil]
  | cons byte input => rfl

theorem shiftIn_eq (decoder : RangeDecoder) :
    decoder.shiftIn = ⟨decoder.low, u32 (decoder.code * 256 + (decoder.input.headD 0).toNat),
      decoder.range, decoder.input.tail⟩ := by
  obtain ⟨low, code, range, input⟩ := decoder
  cases input with
  | nil => simp only [shiftIn, List.headD_nil, UInt8.toNat_zero, Nat.add_zero, List.tail_nil]
  | cons byte input => rfl

/-- Bytes are shifted in from the right, and as many out on the left. -/
theorem shiftIns_leading (turns : Nat) : ∀ bytes : List UInt8,
    shiftIns turns (leading 4 bytes) (bytes.drop 4) =
      (leading 4 (bytes.drop turns), (bytes.drop turns).drop 4) := by
  induction turns with
  | zero => exact fun bytes => rfl
  | succ turns ih =>
      intro bytes
      have tail : u32 (leading 4 bytes * 256 + ((bytes.drop 4).headD 0).toNat) =
          leading 4 bytes.tail := leading_tail 4 bytes
      have next : bytes.drop (turns + 1) = bytes.tail.drop turns := by
        rw [← List.drop_one, List.drop_drop, Nat.add_comm]
      have rest : (bytes.drop 4).tail = bytes.tail.drop 4 := by
        rw [← List.drop_one, ← List.drop_one, List.drop_drop, List.drop_drop]
      rw [shiftIns_step, tail, rest, ih, next]

end RangeDecoder

/-- The decoder that has the registers of the encoder, for the bytes that follow. -/
def RangeEncoder.decoder (encoder : RangeEncoder) (rest : List UInt8) : RangeDecoder :=
  ⟨encoder.low, leading 4 rest, encoder.range, rest.drop 4⟩

/-- The decoder starts with the registers of the encoder. -/
theorem RangeDecoder.seed_eq (input : List UInt8) (outLimit : Nat) :
    RangeDecoder.seed input = (RangeEncoder.start outLimit).decoder input := by
  -- four bytes that are 0 are shifted out
  have shifts := shiftIns_leading 4 (0 :: 0 :: 0 :: 0 :: input)
  have empty : leading 4 (0 :: 0 :: 0 :: 0 :: input) = 0 := rfl
  rw [empty, shiftIns_step, shiftIns_step, shiftIns_step, shiftIns_step] at shifts
  obtain ⟨code, rest⟩ := Prod.mk.inj shifts
  unfold seed RangeEncoder.decoder RangeEncoder.start
  rw [shiftIn_eq, shiftIn_eq, shiftIn_eq, shiftIn_eq]
  dsimp only
  exact congrArg₂ (fun code rest => RangeDecoder.mk 0 code 0xFFFFFFFF rest) code rest

/-! ## Shares -/

/-- A code in the registers that a share takes is read as a code in the share. -/
theorem RangeDecoder.read_share {decoder : RangeDecoder} {share : Share} (proper : share.Proper)
    (small : share.total < 65536) (unit : 0 < decoder.range / share.total)
    (above : decoder.low + share.under * (decoder.range / share.total) ≤ decoder.code)
    (under : decoder.code < decoder.low + share.under * (decoder.range / share.total) +
      decoder.range / share.total * share.count) :
    ∃ code, share.Has code ∧ decoder.read share.total =
      .ok ({ decoder with range := decoder.range / share.total }, code) := by
  have inside := proper.within
  have positive := proper.positive
  have has : share.Has ((decoder.code - decoder.low) / (decoder.range / share.total)) := by
    rw [Share.has_div_iff unit]
    exact ⟨by omega, by omega⟩
  have distance : sub32 decoder.code decoder.low = decoder.code - decoder.low :=
    if_pos (by omega)
  have stored : u16 ((decoder.code - decoder.low) / (decoder.range / share.total)) =
      (decoder.code - decoder.low) / (decoder.range / share.total) :=
    Nat.mod_eq_of_lt (by have := has.2; omega)
  refine ⟨_, has, ?_⟩
  unfold RangeDecoder.read
  dsimp only
  rw [if_neg (by omega), if_neg (by omega), distance, stored]

namespace RangeEncoder

variable {encoder encoder' encoder'' : RangeEncoder}

/-- What coding some shares means for a decoder with the same registers: the bytes written
lead it through the shares, whatever follows them in the range that is left. -/
structure Transmits (encoder encoder' : RangeEncoder) (shares : List Share)
    (bytes : List UInt8) : Prop where
  ready : encoder'.Ready
  output : encoder'.output = encoder.output ++ bytes
  within : ∀ {rest : List UInt8}, Within encoder'.low encoder'.range rest →
    Within encoder.low encoder.range (bytes ++ rest)
  follows : ∀ {rest : List UInt8}, Within encoder'.low encoder'.range rest →
    RangeDecoder.Follows (encoder.decoder (bytes ++ rest)) shares (encoder'.decoder rest)

theorem Transmits.nil (ready : encoder.Ready) : Transmits encoder encoder [] [] :=
  ⟨ready, (List.append_nil _).symm, fun within => within, fun _ => .done _⟩

theorem Transmits.append {shares shares' : List Share} {bytes bytes' : List UInt8}
    (first : Transmits encoder encoder' shares bytes)
    (second : Transmits encoder' encoder'' shares' bytes') :
    Transmits encoder encoder'' (shares ++ shares') (bytes ++ bytes') := by
  refine ⟨second.ready, ?_, fun within => ?_, fun within => ?_⟩
  · rw [second.output, first.output, List.append_assoc]
  · rw [List.append_assoc]
    exact first.within (second.within within)
  · rw [List.append_assoc]
    exact (first.follows (second.within within)).append (second.follows within)

/-- **A share that is coded is read**: the code of the decoder lies in the share, and what it
makes of its registers is what the encoder made of them. -/
theorem Ready.transmits {share : Share} (ready : encoder.Ready) (narrow : Narrow share)
    (codes : encoder.encodeChecked share.under share.count share.total = .ok encoder') :
    ∃ bytes, Transmits encoder encoder' [share] bytes := by
  have proper := narrow.toProper
  have small : share.total < 65536 := narrow.small
  have wide : 65536 ≤ encoder.range := ready.wide
  have fits := proper.fits encoder.range
  have unit : 0 < encoder.range / share.total := by
    have positive := proper.positive
    have inside := proper.within
    exact Nat.div_pos (by omega) (by omega)
  obtain ⟨turns, few, low, range, below, inRange, settles, ready', stops | settled⟩ :=
    ready.encode_settles proper.positive proper.within small
  · rw [stops] at codes
    cases codes
  rw [settled] at codes
  cases codes
  have top : encoder.range / share.total * share.count < 4294967296 := by
    have high := inRange.high
    have carry := inRange.carry
    dsimp only [rangeCoderTop] at high
    omega
  refine ⟨_, ready', rfl, fun within => ?_, fun {rest} within => ?_⟩
  · obtain ⟨above, under⟩ := settles.within inRange below within
    exact ⟨by omega, by omega⟩
  · obtain ⟨above, under⟩ := settles.within inRange below within
    obtain ⟨code, has, reads⟩ := @RangeDecoder.read_share (encoder.decoder
      (topBytes turns (encoder.low + share.under * (encoder.range / share.total)) ++ rest))
      share proper small unit above under
    refine .next reads has ?_ (.done _)
    have behind : (topBytes turns (encoder.low + share.under * (encoder.range / share.total)) ++
        rest).drop turns = rest := by
      rw [List.drop_append_of_le_length (by rw [length_topBytes]),
        List.drop_of_length_le (by rw [length_topBytes]), List.nil_append]
    have low' : u32 (encoder.low + share.under * (encoder.range / share.total)) = _ :=
      Nat.mod_eq_of_lt below
    have range' : u32 (encoder.range / share.total * share.count) = _ := Nat.mod_eq_of_lt top
    unfold RangeDecoder.decode RangeEncoder.decoder
    dsimp only
    rw [low', range', RangeDecoder.normalise_settles settles few, RangeDecoder.shiftIns_leading,
      behind]

/-- **Shares that are coded are read**, one after the other. -/
theorem Ready.transmits_all {shares : List Share} (narrow : ∀ share ∈ shares, Narrow share) :
    ∀ {encoder : RangeEncoder}, encoder.Ready → encoder.encodeShares shares = .ok encoder' →
    ∃ bytes, Transmits encoder encoder' shares bytes := by
  induction shares with
  | nil =>
      intro encoder ready codes
      cases codes
      exact ⟨[], .nil ready⟩
  | cons share shares ih =>
      intro encoder ready codes
      unfold RangeEncoder.encodeShares at codes
      cases coded : encoder.encodeChecked share.under share.count share.total with
      | error stop =>
          rw [coded] at codes
          cases codes
      | ok between =>
          rw [coded, CheckedCoding.ok_bind] at codes
          obtain ⟨bytes, first⟩ := ready.transmits (narrow share List.mem_cons_self) coded
          obtain ⟨bytes', second⟩ :=
            ih (fun other member => narrow other (List.mem_cons_of_mem _ member)) first.ready codes
          exact ⟨bytes ++ bytes', first.append second⟩

end RangeEncoder

/-! ## The end of the stream -/

/-- The last bytes are those of the low end, less the bytes that are 0 behind them. -/
theorem RangeEncoder.flush_leading (fuel : Nat) : ∀ {width left low range limit : Nat}
    {output : List UInt8} {encoder' : RangeEncoder}, width + left = 4 → low < 4294967296 →
    256 ^ left ∣ low → RangeEncoder.flush fuel ⟨low, range, output, limit⟩ = .ok encoder' →
    ∃ bytes, encoder'.output = output ++ bytes ∧ bytes.length ≤ width ∧ leading 4 bytes = low := by
  induction fuel with
  | zero =>
      intro width left low range limit output encoder' four below ends flushes
      cases flushes
  | succ fuel ih =>
      intro width left low range limit output encoder' four below ends flushes
      unfold flush at flushes
      dsimp only at flushes
      split at flushes
      next zero =>
          cases flushes
          exact ⟨[], (List.append_nil _).symm, Nat.zero_le _, zero.symm⟩
      next some =>
          rcases write_cases ⟨low, range, output, limit⟩ (low / rangeCoderTop) with full | written
          · rw [full] at flushes
            cases flushes
          · rw [written, Coding.ok_bind] at flushes
            have shifted : u32 (low * 256) = low % 16777216 * 256 := by
              dsimp only [u32]
              omega
            obtain ⟨width, rfl⟩ : ∃ less, width = less + 1 := by
              cases width with
              | zero =>
                  obtain rfl : left = 4 := by omega
                  obtain ⟨high, rfl⟩ := ends
                  omega
              | succ width => exact ⟨width, rfl⟩
            have border : 256 ^ left ∣ 16777216 := Nat.pow_dvd_pow 256 (by omega : left ≤ 3)
            have ends' : 256 ^ (left + 1) ∣ u32 (low * 256) := by
              rw [shifted, Nat.pow_succ]
              exact Nat.mul_dvd_mul_right ((Nat.dvd_mod_iff border).mpr ends) 256
            obtain ⟨bytes, output', few, stands⟩ :=
              ih (show width + (left + 1) = 4 by omega) (Nat.mod_lt _ (by decide)) ends' flushes
            refine ⟨UInt8.ofNat (low / rangeCoderTop) :: bytes, ?_, ?_, ?_⟩
            · rw [output', List.append_assoc]
              rfl
            · rw [List.length_cons]
              omega
            · obtain ⟨first, low₃, high₃⟩ :=
                leading_cons_bounds (UInt8.ofNat (low / rangeCoderTop)) bytes
              have top : (UInt8.ofNat (low / rangeCoderTop)).toNat = low / 16777216 := by
                rw [UInt8.toNat_ofNat']
                dsimp only [rangeCoderTop]
                omega
              have numbers : ∀ third fourth : Nat, third * 256 ≤ fourth →
                  fourth < third * 256 + 256 → fourth = low % 16777216 * 256 →
                  low / 16777216 * 16777216 + third = low := by
                omega
              rw [first, top]
              exact numbers _ _ low₃ high₃ (stands.trans shifted)

/-- The decoder has read all of its input, and its code is the low end. -/
structure RangeDecoder.Ended (decoder : RangeDecoder) : Prop extends Ready decoder where
  last : decoder.code = decoder.low
  input : decoder.input = []

/-- Where the input has ended, the code is shifted as the low end is. -/
theorem Settles.shiftIns_nil {turns low range low' range' : Nat}
    (settles : Settles turns low range low' range') :
    RangeDecoder.shiftIns turns low [] = (low', []) := by
  induction settles with
  | done settled => rfl
  | turn shifts small rest ih => exact ih

/-- **Behind the end there are escapes only.** -/
theorem RangeDecoder.Ended.escapes {decoder : RangeDecoder} {escapes total : Nat}
    (ended : decoder.Ended) (positive : 0 < escapes) (less : escapes < total)
    (small : total < rangeCoderBottom) :
    ∃ decoder', decoder'.Ended ∧
      decoder.read total = .ok ({ decoder with range := decoder.range / total }, 0) ∧
      RangeDecoder.decode { decoder with range := decoder.range / total } 0 escapes =
        .ok decoder' := by
  obtain ⟨_, low, range, input⟩ := decoder
  obtain ⟨ready, last, done⟩ := ended
  dsimp only at last done
  subst last done
  obtain ⟨turns, low', range', settles, decodes, ready'⟩ :=
    ready.decode_settles positive less small (.inl rfl)
  dsimp only at settles decodes ready'
  have same : u32 (low + 0 * (range / total)) = low := by
    rw [Nat.zero_mul, Nat.add_zero]
    exact Nat.mod_eq_of_lt ready.tame.below
  have shifted := settles.shiftIns_nil
  rw [same] at shifted
  rw [shifted] at decodes ready'
  have distance : sub32 low low = 0 := (if_pos (Nat.le_refl _)).trans (Nat.sub_self _)
  refine ⟨_, ⟨ready', rfl, rfl⟩, ?_, decodes⟩
  rw [ready.read (Nat.lt_trans positive less) small]
  dsimp only
  rw [distance, Nat.zero_div]

section End

variable {coder : RangeCoder} {forest : Nat → CodeTree} {recent : List Nat}
  {decoder : RangeDecoder}

/-- The decoder leaves each subcontext with an escape. -/
theorem Modeled.decodeSubcontexts_end (modeled : Modeled Ordered coder forest recent)
    (path : List Nat) : ∀ {context fuel : Nat} {decoder : RangeDecoder},
    Path forest path context → path.length < fuel → decoder.Ended →
    ∃ decoder', decoder'.Ended ∧
      coder.decodeSubcontexts fuel decoder context = .ok (coder, decoder', none) := by
  have inv := modeled.inv
  induction path using List.reverseRecOn with
  | nil =>
      intro context fuel decoder leads enough ended
      obtain ⟨fuel, rfl⟩ : ∃ rest, fuel = rest + 1 := ⟨fuel - 1, by omega⟩
      cases leads with
      | root => exact ⟨decoder, ended, rfl⟩
  | append_singleton path oldest ih =>
      intro context fuel decoder leads enough ended
      obtain ⟨fuel, rfl⟩ : ∃ rest, fuel = rest + 1 := ⟨fuel - 1, by omega⟩
      rw [List.length_append, List.length_singleton] at enough
      have below := inv.path_lt leads
      have notRoot : context ≠ 0 := mt (inv.path_nil_iff leads).mpr (by simp)
      have bounded := (modeled.books context below).bounded
      dsimp only [rangeCoderBottom] at bounded
      have above := inv.parent_path leads List.not_mem_nil
      unfold RangeCoder.decodeSubcontexts
      rw [if_neg notRoot, RangeCoder.symbol_of_lt (Nat.lt_of_lt_of_le below inv.room),
        Coding.ok_bind]
      split
      next => exact ih above (by omega) ended
      next some =>
          obtain ⟨decoder', ended', reads, decodes⟩ := @RangeDecoder.Ended.escapes _
            (coder.symbols context).escapes (coder.symbols context).total ended (by omega)
            (by omega) (by dsimp only [rangeCoderBottom]; omega)
          rw [reads, Coding.ok_bind]
          dsimp only
          rw [if_pos (by omega), decodes, Coding.ok_bind]
          exact ih above (by omega) ended'

/-- The escape of the root is the end of the stream. -/
theorem Modeled.decodeRoot_end (modeled : Modeled Ordered coder forest recent)
    (ended : decoder.Ended) :
    ∃ decoder', coder.decodeRoot decoder = .ok (coder, decoder', none) := by
  have books := modeled.books 0 modeled.inv.rooted
  have bounded := books.bounded
  have total := books.total
  have minimum : contextMinimum 0 = 1 := rfl
  have escapes := books.escapes (.inr rfl)
  dsimp only [rangeCoderBottom] at bounded
  rw [minimum] at total
  obtain ⟨decoder', -, reads, decodes⟩ := @RangeDecoder.Ended.escapes _
    (coder.symbols 0).escapes (coder.symbols 0).total ended escapes (by omega)
    (by dsimp only [rangeCoderBottom]; omega)
  refine ⟨decoder', ?_⟩
  unfold RangeCoder.decodeRoot
  rw [RangeCoder.symbol_of_lt (by decide), Coding.ok_bind, reads, Coding.ok_bind]
  dsimp only
  rw [if_pos escapes, decodes]
  rfl

/-- **The stream ends behind the last byte**, whatever the table holds. -/
theorem Modeled.decodeValue_end (modeled : Modeled Ordered coder forest recent)
    (ended : decoder.Ended) (output : List UInt8) (outLimit : Nat) :
    coder.decodeValue decoder output outLimit = .ok (none, output) := by
  have length := modeled.length
  have order := modeled.order
  dsimp only [subcontextOrder] at order
  obtain ⟨between, ended', none⟩ := @Modeled.decodeSubcontexts_end _ _ _ modeled recent _
    rangeCoderSymbols _ modeled.predicted (by dsimp only [rangeCoderSymbols]; omega) ended
  obtain ⟨decoder', last⟩ := modeled.decodeRoot_end ended'
  unfold RangeCoder.decodeValue RangeCoder.decodeNext
  rw [none, Coding.ok_bind]
  dsimp only
  rw [last]
  rfl

end End

end Enet
