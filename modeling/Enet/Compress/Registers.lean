import Enet.Compress.Checked
import Enet.Library.Shares

/-!
# The registers of the encoder

The range is never so small that a total cannot divide it, and no carry leaves
`encodeLow`. Where the range reaches from one top byte into the next and is too
small, it is cut at the border of the two; then `encodeLow + encodeRange` is
2^32, and it stays so until the registers are settled.
-/

set_option autoImplicit false

namespace Enet

open Library (Share)

/-! ## Top bytes -/

/-- The test of the loop compares the top bytes. -/
theorem xor_lt_top_iff (a b : Nat) :
    a ^^^ b < rangeCoderTop ↔ a / rangeCoderTop = b / rangeCoderTop := by
  have high : (a ^^^ b) / rangeCoderTop = a / rangeCoderTop ^^^ b / rangeCoderTop :=
    Nat.xor_div_two_pow (n := 24)
  constructor
  · intro small
    rw [Nat.div_eq_of_lt small] at high
    calc a / rangeCoderTop
        = a / rangeCoderTop ^^^ (b / rangeCoderTop ^^^ b / rangeCoderTop) := by
          rw [Nat.xor_self, Nat.xor_zero]
      _ = b / rangeCoderTop := by rw [← Nat.xor_assoc, ← high, Nat.zero_xor]
  · intro same
    rw [same, Nat.xor_self] at high
    exact (Nat.div_eq_zero_iff_lt (by decide)).mp high

theorem and_bottom_eq (value : Nat) : value &&& (rangeCoderBottom - 1) = value % rangeCoderBottom :=
  Nat.and_two_pow_sub_one_eq_mod value 16

/-! ## Turns -/

/-- The registers between the turns of a normalisation. -/
structure InRange (low range : Nat) : Prop where
  positive : 0 < range
  carry : low + range ≤ 4294967296
  high : low + range = 4294967296 → rangeCoderTop ≤ low

/-- The turns of a normalisation: how many, and the registers before and after them. -/
inductive Settles : (turns low range low' range' : Nat) → Prop where
  | done {low range : Nat} (settled : settleRange low range = none) :
      Settles 0 low range low range
  | turn {turns low range cut low' range' : Nat} (shifts : settleRange low range = some cut)
      (small : cut * 256 < 4294967296)
      (rest : Settles turns (u32 (low * 256)) (cut * 256) low' range') :
      Settles (turns + 1) low range low' range'

/-- The loop ends with a range that is not too small for a total. -/
theorem Settles.wide {turns low range low' range' : Nat}
    (settles : Settles turns low range low' range') : rangeCoderBottom ≤ range' := by
  induction settles with
  | done settled =>
      unfold settleRange at settled
      split at settled
      next =>
          split at settled
          next wide => exact wide
          next => cases settled
      next => cases settled
  | turn shifts small rest ih => exact ih

namespace InRange

variable {low range cut : Nat}

/-- What a turn makes of the registers: all of the range where it lies within one top
byte, else what lies in front of the border, and then they end at 2^32. -/
theorem turn (ranged : InRange low range) (shifts : settleRange low range = some cut) :
    0 < cut ∧ cut * 256 < 4294967296 ∧
      (cut = range ∧ u32 (low * 256) + cut * 256 < 4294967296 ∧ low + range < 4294967296 ∨
        u32 (low * 256) + cut * 256 = 4294967296 ∧ cut ≤ range ∧ range < rangeCoderBottom ∧
          (low + range = 4294967296 → cut = range)) := by
  obtain ⟨positive, carry, high⟩ := ranged
  have wraps : low + range = 4294967296 → u32 (low + range) = 0 := by
    intro last
    rw [last]
  have stays : low + range < 4294967296 → u32 (low + range) = low + range :=
    fun below => Nat.mod_eq_of_lt below
  unfold settleRange at shifts
  split at shifts
  next differ =>
      split at shifts
      next => cases shifts
      next small =>
          cases shifts
          rw [and_bottom_eq]
          have apart := mt (xor_lt_top_iff _ _).mpr (Nat.not_lt.mpr differ)
          unfold sub32
          dsimp only [rangeCoderTop, rangeCoderBottom, u32] at *
          refine ⟨?_, ?_, .inr ⟨?_, ?_, by omega, ?_⟩⟩ <;> split <;> omega
  next same =>
      cases shifts
      have border := (xor_lt_top_iff _ _).mp (Nat.not_le.mp same)
      dsimp only [rangeCoderTop, rangeCoderBottom, u32] at *
      have below : low + range < 4294967296 := by
        rcases Nat.lt_or_eq_of_le carry with below | last
        · exact below
        · rw [wraps last] at border
          have := high last
          omega
      rw [stays below] at border
      refine ⟨positive, ?_, .inl ⟨rfl, ?_, below⟩⟩ <;> omega

/-- The registers after a turn. -/
theorem next (ranged : InRange low range) (shifts : settleRange low range = some cut) :
    InRange (u32 (low * 256)) (cut * 256) := by
  obtain ⟨positive, small, ⟨-, below, -⟩ | ⟨last, within, narrow, -⟩⟩ := ranged.turn shifts
  · refine ⟨by omega, Nat.le_of_lt below, fun last => ?_⟩
    omega
  · refine ⟨by omega, Nat.le_of_eq last, fun _ => ?_⟩
    dsimp only [rangeCoderTop, rangeCoderBottom] at *
    omega

/-- The registers that end at 2^32 are shifted until the range is wide. -/
theorem settles_last (turns : Nat) : ∀ {low range : Nat}, InRange low range →
    low + range = 4294967296 → rangeCoderBottom ≤ range * 256 ^ turns →
    ∃ used ≤ turns, ∃ low' range', Settles used low range low' range' ∧ InRange low' range' := by
  induction turns with
  | zero =>
      intro low range ranged last wide
      cases shifts : settleRange low range with
      | none => exact ⟨0, Nat.le_refl _, low, range, .done shifts, ranged⟩
      | some cut =>
          obtain ⟨-, -, ⟨-, -, below⟩ | ⟨-, -, narrow, -⟩⟩ := ranged.turn shifts
          · omega
          · rw [Nat.pow_zero, Nat.mul_one] at wide
            omega
  | succ turns ih =>
      intro low range ranged last wide
      cases shifts : settleRange low range with
      | none => exact ⟨0, Nat.zero_le _, low, range, .done shifts, ranged⟩
      | some cut =>
          obtain ⟨-, small, ⟨-, -, below⟩ | ⟨last', -, -, same⟩⟩ := ranged.turn shifts
          · omega
          · have wide' : rangeCoderBottom ≤ cut * 256 * 256 ^ turns := by
              rw [same last, Nat.mul_assoc, ← Nat.pow_succ']
              exact wide
            obtain ⟨used, few, low', range', settles, ranged'⟩ :=
              ih (ranged.next shifts) last' wide'
            exact ⟨used + 1, Nat.succ_le_succ few, low', range', .turn shifts small settles,
              ranged'⟩

/-- A range that is positive is shifted a few times at most. -/
theorem settles (turns : Nat) : ∀ {low range : Nat}, InRange low range →
    rangeCoderTop ≤ range * 256 ^ turns →
    ∃ used ≤ turns + 2, ∃ low' range',
      Settles used low range low' range' ∧ InRange low' range' := by
  induction turns with
  | zero =>
      intro low range ranged wide
      rw [Nat.pow_zero, Nat.mul_one] at wide
      cases shifts : settleRange low range with
      | none => exact ⟨0, Nat.zero_le _, low, range, .done shifts, ranged⟩
      | some cut =>
          obtain ⟨-, small, ⟨same, below, -⟩ | ⟨-, -, narrow, -⟩⟩ := ranged.turn shifts
          · dsimp only [rangeCoderTop] at wide
            omega
          · dsimp only [rangeCoderTop, rangeCoderBottom] at wide narrow
            omega
  | succ turns ih =>
      intro low range ranged wide
      cases shifts : settleRange low range with
      | none => exact ⟨0, Nat.zero_le _, low, range, .done shifts, ranged⟩
      | some cut =>
          obtain ⟨positive, small, ⟨same, -, -⟩ | ⟨last, -, -, -⟩⟩ := ranged.turn shifts
          · have wide' : rangeCoderTop ≤ cut * 256 * 256 ^ turns := by
              rw [same, Nat.mul_assoc, ← Nat.pow_succ']
              exact wide
            obtain ⟨used, few, low', range', settles, ranged'⟩ := ih (ranged.next shifts) wide'
            exact ⟨used + 1, Nat.succ_le_succ few, low', range', .turn shifts small settles,
              ranged'⟩
          · have wide' : rangeCoderBottom ≤ cut * 256 * 256 ^ 1 := by
              dsimp only [rangeCoderBottom]
              omega
            obtain ⟨used, few, low', range', settles, ranged'⟩ :=
              settles_last 1 (ranged.next shifts) last wide'
            exact ⟨used + 1, by omega, low', range', .turn shifts small settles, ranged'⟩

end InRange

/-! ## The loop of the encoder -/

/-- The bytes that are shifted out of a register from the left. -/
def topBytes : (turns low : Nat) → List UInt8
  | 0, _ => []
  | turns + 1, low => UInt8.ofNat (low / rangeCoderTop) :: topBytes turns (u32 (low * 256))

namespace RangeEncoder

/-- The registers between two codings. -/
structure Ready (encoder : RangeEncoder) : Prop extends Settled encoder where
  high : encoder.low + encoder.range = 4294967296 → rangeCoderTop ≤ encoder.low

variable {encoder : RangeEncoder}

theorem write_cases (encoder : RangeEncoder) (value : Nat) :
    encoder.write value = .error .nothing ∨
      encoder.write value =
        .ok { encoder with output := encoder.output ++ [UInt8.ofNat value] } := by
  unfold write
  split
  · exact .inl rfl
  · exact .inr rfl

/-- A coding that ends with the registers ready, or where the output is full. -/
abbrev Ends (result : CheckedCoding RangeEncoder) : Prop := CheckedCoding.Ends result Ready

/-- **The loop of the encoder writes the bytes that are shifted out**, or the output is
full. -/
theorem normaliseChecked_settles {turns low range low' range' : Nat}
    (settles : Settles turns low range low' range') (carry : low' + range' ≤ 4294967296) :
    ∀ {output : List UInt8} {limit fuel : Nat}, turns < fuel →
    normaliseChecked fuel ⟨low, range, output, limit⟩ = .error (.stop .nothing) ∨
      normaliseChecked fuel ⟨low, range, output, limit⟩ =
        .ok ⟨low', range', output ++ topBytes turns low, limit⟩ := by
  induction settles with
  | @done low range settled =>
      intro output limit fuel enough
      obtain ⟨fuel, rfl⟩ : ∃ rest, fuel = rest + 1 := ⟨fuel - 1, by omega⟩
      have wide := (Settles.done settled).wide
      have ready : Settled ⟨low, range, output, limit⟩ := ⟨carry, wide⟩
      unfold normaliseChecked
      rw [settled]
      dsimp only
      rw [if_pos ready, topBytes, List.append_nil]
      exact .inr rfl
  | @turn turns low range cut low' range' shifts small rest ih =>
      intro output limit fuel enough
      obtain ⟨fuel, rfl⟩ : ∃ rest, fuel = rest + 1 := ⟨fuel - 1, by omega⟩
      have fits : fit32 (cut * 256) = .ok (cut * 256) := if_pos small
      unfold normaliseChecked
      rw [shifts]
      dsimp only
      rcases write_cases ⟨low, range, output, limit⟩ (low / rangeCoderTop) with full | written
      · rw [full]
        exact .inl rfl
      · rw [written]
        have after := @ih carry (output ++ [UInt8.ofNat (low / rangeCoderTop)]) limit fuel
          (by omega)
        rw [List.append_assoc] at after
        change (fit32 (cut * 256) >>= _) = _ ∨ (fit32 (cut * 256) >>= _) = _
        rw [fits]
        exact after

/-! ## Coding -/

/-- **Coding narrows the registers to a share and settles them**: the low end does not carry,
and the bytes that are shifted out are written; or the output is full. -/
theorem Ready.encode_settles {under count total : Nat} (ready : encoder.Ready)
    (positive : 0 < count) (inside : under + count ≤ total) (small : total < rangeCoderBottom) :
    ∃ turns < rangeTurns, ∃ low range,
      encoder.low + under * (encoder.range / total) < 4294967296 ∧
      InRange (encoder.low + under * (encoder.range / total)) (encoder.range / total * count) ∧
      Settles turns (encoder.low + under * (encoder.range / total))
        (encoder.range / total * count) low range ∧
      Ready ⟨low, range, encoder.output ++
        topBytes turns (encoder.low + under * (encoder.range / total)), encoder.limit⟩ ∧
      (encoder.encodeChecked under count total = .error (.stop .nothing) ∨
        encoder.encodeChecked under count total = .ok ⟨low, range, encoder.output ++
          topBytes turns (encoder.low + under * (encoder.range / total)), encoder.limit⟩) := by
  have wide := ready.wide
  have carry := ready.carry
  have unit : 1 ≤ encoder.range / total := by
    rw [Nat.le_div_iff_mul_le (by omega)]
    omega
  have shares := @Share.Proper.fits ⟨under, count, total⟩ ⟨positive, inside⟩ encoder.range
  dsimp only at shares
  have share : encoder.range / total * 1 ≤ encoder.range / total * count :=
    Nat.mul_le_mul_left _ positive
  have fits : encoder.low + under * (encoder.range / total) < 4294967296 := by omega
  have low : fit32 (encoder.low + under * (encoder.range / total)) =
      .ok (encoder.low + under * (encoder.range / total)) := if_pos fits
  have range : encoder.range / total * count < 4294967296 ∨ encoder.low = 0 := by omega
  have top : encoder.range / total * count < 4294967296 := by
    rcases range with range | zero
    · exact range
    · have high := ready.high
      dsimp only [rangeCoderTop] at high
      omega
  have range : fit32 (encoder.range / total * count) = .ok (encoder.range / total * count) :=
    if_pos top
  have ranged : InRange (encoder.low + under * (encoder.range / total))
      (encoder.range / total * count) := by
    refine ⟨by omega, by omega, fun last => ?_⟩
    have high := ready.high
    omega
  obtain ⟨used, few, low', range', settles, ranged'⟩ := ranged.settles 3 (by
    dsimp only [rangeCoderTop]
    omega)
  have enough : used < rangeTurns := Nat.lt_of_le_of_lt few (by decide)
  refine ⟨used, enough, low', range', fits, ranged, settles,
    ⟨⟨ranged'.carry, settles.wide⟩, ranged'.high⟩, ?_⟩
  unfold encodeChecked
  rw [if_neg (by omega)]
  dsimp only
  rw [low]
  change (fit32 (encoder.range / total * count) >>= _) = _ ∨
    (fit32 (encoder.range / total * count) >>= _) = _
  rw [range]
  exact normaliseChecked_settles settles ranged'.carry enough

/-- **Coding keeps the registers in their range**, or the output is full. -/
theorem Ready.encode {under count total : Nat} (ready : encoder.Ready) (positive : 0 < count)
    (inside : under + count ≤ total) (small : total < rangeCoderBottom) :
    Ends (encoder.encodeChecked under count total) := by
  obtain ⟨_, _, _, _, _, _, _, ready', stops | codes⟩ :=
    ready.encode_settles positive inside small
  · exact .inl stops
  · exact .inr ⟨_, codes, ready'⟩

theorem ready_start (outLimit : Nat) : Ready ⟨0, 0xFFFFFFFF, [], outLimit⟩ := by
  refine ⟨⟨?_, ?_⟩, fun last => ?_⟩
  all_goals
    dsimp only [rangeCoderBottom] at *
    omega

end RangeEncoder

end Enet
