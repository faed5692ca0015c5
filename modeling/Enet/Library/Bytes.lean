import Mathlib.Algebra.Ring.Nat
import Mathlib.Data.List.Basic

/-!
# Numbers in a fixed number of bytes

The big-endian and the little-endian bytes of a number, and the number that
bytes stand for. Reading back what was written gives the number reduced to the
width.
-/

set_option autoImplicit false

namespace Enet.Library

/-- Replace the bytes at an offset. What would fall behind the end is not written. -/
def overwrite (bytes : List UInt8) (offset : Nat) (written : List UInt8) : List UInt8 :=
  (bytes.take offset ++ written ++ bytes.drop (offset + written.length)).take bytes.length

@[simp] theorem length_overwrite (bytes : List UInt8) (offset : Nat) (written : List UInt8) :
    (overwrite bytes offset written).length = bytes.length := by
  simp only [overwrite, List.length_take, List.length_append, List.length_drop]
  omega

/-- Bytes that are replaced in the middle. -/
theorem overwrite_append {before replaced written : List UInt8}
    (same : written.length = replaced.length) (behind after : List UInt8) :
    overwrite (before ++ replaced ++ behind ++ after) before.length written =
      before ++ written ++ behind ++ after := by
  have past : (before ++ replaced ++ behind ++ after).drop (before.length + written.length) =
      behind ++ after := by
    rw [same, ← List.length_append, List.append_assoc, List.drop_left]
  unfold overwrite
  rw [past, List.append_assoc, List.append_assoc, List.take_left, List.append_assoc,
    List.take_of_length_le]
  · simp only [List.append_assoc]
  · simp only [List.length_append, same]
    omega

/-- The number that big-endian bytes stand for. -/
def bigEndian (bytes : List UInt8) : Nat :=
  bytes.foldl (fun value byte => value * 256 + byte.toNat) 0

/-- The number that little-endian bytes stand for. -/
def littleEndian : List UInt8 → Nat
  | [] => 0
  | byte :: bytes => byte.toNat + 256 * littleEndian bytes

/-- The little-endian bytes of a number, in a given width. -/
def toLittleEndian : (width : Nat) → Nat → List UInt8
  | 0, _ => []
  | width + 1, value => UInt8.ofNat value :: toLittleEndian width (value / 256)

/-- The big-endian bytes of a number, in a given width. -/
def toBigEndian (width value : Nat) : List UInt8 := (toLittleEndian width value).reverse

@[simp] theorem length_toLittleEndian (width : Nat) :
    ∀ value, (toLittleEndian width value).length = width := by
  induction width with
  | zero => intro value; rfl
  | succ width ih => intro value; simp [toLittleEndian, ih]

@[simp] theorem length_toBigEndian (width value : Nat) :
    (toBigEndian width value).length = width := by
  simp [toBigEndian]

theorem littleEndian_toLittleEndian (width : Nat) :
    ∀ value, littleEndian (toLittleEndian width value) = value % 256 ^ width := by
  induction width with
  | zero => intro value; simp [toLittleEndian, littleEndian, Nat.mod_one]
  | succ width ih =>
      intro value
      have split : value % 256 ^ (width + 1) =
          value % 256 + 256 * (value / 256 % 256 ^ width) := by
        rw [Nat.pow_succ', Nat.mod_mul]
      rw [toLittleEndian, littleEndian, ih, UInt8.toNat_ofNat', split]

theorem bigEndian_append_singleton (bytes : List UInt8) (byte : UInt8) :
    bigEndian (bytes ++ [byte]) = bigEndian bytes * 256 + byte.toNat := by
  simp [bigEndian]

theorem bigEndian_reverse (bytes : List UInt8) :
    bigEndian bytes.reverse = littleEndian bytes := by
  induction bytes with
  | nil => rfl
  | cons byte bytes ih =>
      rw [List.reverse_cons, bigEndian_append_singleton, ih, littleEndian]
      omega

/-- Reading back a number written big-endian. -/
theorem bigEndian_toBigEndian (width value : Nat) :
    bigEndian (toBigEndian width value) = value % 256 ^ width := by
  rw [toBigEndian, bigEndian_reverse, littleEndian_toLittleEndian]

/-! ## Leading bytes -/

/-- The number that the first bytes stand for, where a byte that is missing is 0. -/
def leading : (width : Nat) → List UInt8 → Nat
  | 0, _ => 0
  | _ + 1, [] => 0
  | width + 1, byte :: bytes => byte.toNat * 256 ^ width + leading width bytes

@[simp] theorem leading_nil (width : Nat) : leading width [] = 0 := by
  cases width <;> rfl

theorem leading_lt (width : Nat) : ∀ bytes : List UInt8, leading width bytes < 256 ^ width := by
  induction width with
  | zero => exact fun bytes => Nat.one_pos
  | succ width ih =>
      intro bytes
      have positive : 0 < 256 ^ width := Nat.pow_pos (by decide)
      cases bytes with
      | nil => exact Nat.pow_pos (by decide)
      | cons byte bytes =>
          have small := ih bytes
          have top := byte.toNat_lt
          have scaled : byte.toNat * 256 ^ width ≤ 255 * 256 ^ width :=
            Nat.mul_le_mul_right _ (Nat.le_of_lt_succ top)
          unfold leading
          rw [Nat.pow_succ']
          generalize 256 ^ width = unit at *
          omega

/-- One more byte is taken in from the right. -/
theorem leading_succ (width : Nat) : ∀ bytes : List UInt8,
    leading (width + 1) bytes =
      leading width bytes * 256 + ((bytes.drop width).headD 0).toNat := by
  induction width with
  | zero =>
      intro bytes
      cases bytes with
      | nil => simp
      | cons byte bytes => simp [leading]
  | succ width ih =>
      intro bytes
      cases bytes with
      | nil => simp
      | cons byte bytes =>
          have shifted : byte.toNat * 256 ^ (width + 1) = byte.toNat * 256 ^ width * 256 := by
            rw [Nat.pow_succ, Nat.mul_assoc]
          rw [leading, ih bytes, leading, shifted, List.drop_succ_cons]
          omega

/-- The next byte is shifted in from the right, and the first one out. -/
theorem leading_tail (width : Nat) (bytes : List UInt8) :
    (leading width bytes * 256 + ((bytes.drop width).headD 0).toNat) % 256 ^ width =
      leading width bytes.tail := by
  rw [← leading_succ]
  cases bytes with
  | nil => simp
  | cons byte bytes =>
      rw [leading, List.tail_cons, Nat.mul_comm, Nat.mul_add_mod]
      exact Nat.mod_eq_of_lt (leading_lt width bytes)

end Enet.Library
