/-!
# Reflected cyclic redundancy checks

A reflected check is a register that shifts to the right by one place for each
bit of a message, the low bit of each byte first. The bit that falls out, taken
together with the bit of the message, says whether the polynomial is added.

A register that takes a whole byte at once needs the register of each byte alone,
which is kept in a table. The step with the table is the eight steps bit by bit,
for any polynomial and any width that holds a byte.
-/

set_option autoImplicit false

namespace Enet.Library.ReflectedCrc

variable {width : Nat}

/-! ## Bit by bit -/

/-- One bit of a message. -/
def shiftBit (polynomial register : BitVec width) (bit : Bool) : BitVec width :=
  if register.getLsbD 0 ^^ bit then register >>> 1 ^^^ polynomial else register >>> 1

/-- The low bits of a register, from the lowest on. -/
def lowBits (count : Nat) (register : BitVec width) : List Bool :=
  (List.range count).map register.getLsbD

/-- The bits of a message, in the order in which the register takes them. -/
def bitsOf (bytes : List UInt8) : List Bool :=
  bytes.flatMap fun byte => lowBits 8 byte.toBitVec

/-- The register after a list of bits. -/
def shiftBits (polynomial register : BitVec width) (bits : List Bool) : BitVec width :=
  bits.foldl (shiftBit polynomial) register

/-- The check of a message: a register of ones at first, complemented at last. -/
def check (polynomial : BitVec width) (bytes : List UInt8) : BitVec width :=
  ~~~shiftBits polynomial (BitVec.allOnes width) (bitsOf bytes)

theorem bitsOf_append (first second : List UInt8) :
    bitsOf (first ++ second) = bitsOf first ++ bitsOf second := List.flatMap_append

theorem lowBits_succ (count : Nat) (register : BitVec width) :
    lowBits (count + 1) register = register.getLsbD 0 :: lowBits count (register >>> 1) := by
  unfold lowBits
  rw [List.range_succ_eq_map, List.map_cons, List.map_map]
  refine congrArg _ (List.map_congr_left fun place _ => ?_)
  rw [BitVec.getLsbD_ushiftRight, Function.comp_apply, Nat.succ_eq_one_add]

/-! ## Byte by byte -/

/-- A register into which some bits of the message are added beforehand takes the
lowest of them, and keeps the others. -/
theorem shiftBit_xor (polynomial register message : BitVec width) :
    shiftBit polynomial (register ^^^ message) false =
      shiftBit polynomial register (message.getLsbD 0) ^^^ message >>> 1 := by
  unfold shiftBit
  rw [BitVec.getLsbD_xor, Bool.xor_false, BitVec.ushiftRight_xor_distrib]
  split
  · rw [BitVec.xor_assoc, BitVec.xor_assoc, BitVec.xor_comm (message >>> 1)]
  · rfl

/-- Zero bits shift a register to which a message is added as the bits of the
message shift the register. -/
theorem shiftBits_xor (polynomial : BitVec width) (count : Nat) :
    ∀ register message : BitVec width,
      shiftBits polynomial (register ^^^ message) (List.replicate count false) =
        shiftBits polynomial register (lowBits count message) ^^^ message >>> count := by
  induction count with
  | zero =>
      intro register message
      rw [BitVec.ushiftRight_zero]
      rfl
  | succ count ih =>
      intro register message
      rw [lowBits_succ, List.replicate_succ]
      unfold shiftBits at ih ⊢
      rw [List.foldl_cons, List.foldl_cons, shiftBit_xor, ih, ← BitVec.shiftRight_add,
        Nat.add_comm 1 count]

/-- What the table holds for a byte: the register of the byte alone. -/
def tableEntry (polynomial : BitVec width) (byte : BitVec 8) : BitVec width :=
  shiftBits polynomial (BitVec.ofNat width 0) (lowBits 8 byte)

/-- The bits of a byte do not depend on the width of its register. -/
theorem lowBits_setWidth {count narrow : Nat} (within : count ≤ narrow) (register : BitVec width) :
    lowBits count (register.setWidth narrow) = lowBits count register := by
  unfold lowBits
  refine List.map_congr_left fun place member => ?_
  have below : place < narrow := Nat.lt_of_lt_of_le (List.mem_range.mp member) within
  rw [BitVec.getLsbD_setWidth, decide_eq_true below, Bool.true_and]

theorem lowBits_extend {count narrow : Nat} (register : BitVec narrow) (wide : narrow ≤ width) :
    lowBits count (register.setWidth width) = lowBits count register := by
  unfold lowBits
  refine List.map_congr_left fun place _ => ?_
  rw [BitVec.getLsbD_setWidth]
  by_cases below : place < width
  · rw [decide_eq_true below, Bool.true_and]
  · rw [decide_eq_false below, Bool.false_and]
    exact (BitVec.getLsbD_of_ge register place (by omega)).symm

/-- **The table takes a byte as its eight bits.** The entry is that of the low byte
of the register with the byte added. -/
theorem shiftBits_byte (polynomial register : BitVec width) (wide : 8 ≤ width) (byte : BitVec 8) :
    shiftBits polynomial register (lowBits 8 byte) =
      register >>> 8 ^^^ tableEntry polynomial (register.setWidth 8 ^^^ byte) := by
  have taken := shiftBits_xor polynomial 8 register (byte.setWidth width)
  have zero := shiftBits_xor polynomial 8 (BitVec.ofNat width 0) (register ^^^ byte.setWidth width)
  have gone : byte.setWidth width >>> 8 = BitVec.ofNat width 0 := by
    refine BitVec.eq_of_getLsbD_eq fun place _ => ?_
    rw [BitVec.getLsbD_ushiftRight, BitVec.getLsbD_setWidth, BitVec.getLsbD_zero,
      BitVec.getLsbD_of_ge byte (8 + place) (by omega), Bool.and_false]
  have low : (register ^^^ byte.setWidth width).setWidth 8 = register.setWidth 8 ^^^ byte := by
    rw [BitVec.setWidth_xor, BitVec.setWidth_setWidth_of_le _ wide, BitVec.setWidth_eq]
  rw [lowBits_extend byte wide, gone, BitVec.xor_zero] at taken
  rw [BitVec.zero_xor, BitVec.ushiftRight_xor_distrib, gone, BitVec.xor_zero,
    ← lowBits_setWidth (Nat.le_refl 8) (register ^^^ byte.setWidth width), low] at zero
  rw [← taken, zero, BitVec.xor_comm]
  rfl

end Enet.Library.ReflectedCrc
