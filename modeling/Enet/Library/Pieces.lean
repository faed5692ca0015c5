import Enet.Library.Bytes
import Mathlib.Data.List.Range

/-!
# Pieces of a list

A list cut into pieces of one length, the last of which may be shorter. Pieces
that are written to their places, in any order and more than once, leave every
other piece alone; a list all of whose pieces are those of another of its length
is the other.
-/

set_option autoImplicit false

namespace Enet.Library

variable {α : Type}

/-- The number of pieces of a length that cover a total. -/
def pieceCount (total length : Nat) : Nat := (total + length - 1) / length

/-- The length of a piece. -/
def pieceLength (total length piece : Nat) : Nat := min length (total - piece * length)

/-- A piece of a list. -/
def pieceOf (items : List α) (length piece : Nat) : List α :=
  (items.drop (piece * length)).take length

theorem lt_pieceCount_iff {total length : Nat} (positive : 0 < length) (piece : Nat) :
    piece < pieceCount total length ↔ piece * length < total := by
  unfold pieceCount
  rw [Nat.lt_div_iff_mul_lt positive]
  omega

/-- There are no more pieces than elements. -/
theorem pieceCount_le {total length : Nat} (positive : 0 < length) :
    pieceCount total length ≤ total := by
  by_contra more
  have inside := (lt_pieceCount_iff positive total).mp (Nat.lt_of_not_le more)
  have larger : total * 1 ≤ total * length := Nat.mul_le_mul_left _ positive
  omega

theorem length_pieceOf (items : List α) (length piece : Nat) :
    (pieceOf items length piece).length = pieceLength items.length length piece := by
  unfold pieceOf pieceLength
  rw [List.length_take, List.length_drop]

/-- The pieces before the last one have the full length. -/
theorem pieceLength_of_next {total length piece : Nat} (positive : 0 < length)
    (next : piece + 1 < pieceCount total length) : pieceLength total length piece = length := by
  rw [lt_pieceCount_iff positive, Nat.add_mul, Nat.one_mul] at next
  unfold pieceLength
  omega

theorem pieceLength_pos {total length piece : Nat} (positive : 0 < length)
    (inside : piece < pieceCount total length) : 0 < pieceLength total length piece := by
  rw [lt_pieceCount_iff positive] at inside
  unfold pieceLength
  omega

theorem pieceLength_fits {total length piece : Nat} (positive : 0 < length)
    (inside : piece < pieceCount total length) :
    piece * length + pieceLength total length piece ≤ total := by
  rw [lt_pieceCount_iff positive] at inside
  unfold pieceLength
  omega

/-- A piece ends where the next one starts, or with the list. -/
theorem pieceLength_step {total length piece : Nat} (positive : 0 < length)
    (inside : piece < pieceCount total length) :
    piece * length + pieceLength total length piece = min ((piece + 1) * length) total := by
  rw [lt_pieceCount_iff positive] at inside
  rw [Nat.succ_mul]
  unfold pieceLength
  omega

/-- The first pieces are the beginning of the list. -/
theorem flatMap_pieceOf (items : List α) (length count : Nat) :
    (List.range count).flatMap (pieceOf items length) = items.take (count * length) := by
  induction count with
  | zero => simp
  | succ count ih =>
      rw [List.range_succ, List.flatMap_append, ih, List.flatMap_singleton, pieceOf,
        Nat.succ_mul, List.take_add]

/-- **The pieces of a list make it up.** -/
theorem flatMap_pieces (items : List α) {length : Nat} (positive : 0 < length) :
    (List.range (pieceCount items.length length)).flatMap (pieceOf items length) = items := by
  rw [flatMap_pieceOf]
  refine List.take_of_length_le ?_
  have outside : ¬pieceCount items.length length * length < items.length :=
    (lt_pieceCount_iff positive _).not.mp (Nat.lt_irrefl _)
  omega

/-- **A list with the pieces of another is the other.** -/
theorem eq_of_pieces {items other : List α} {length : Nat} (positive : 0 < length)
    (same : other.length = items.length)
    (pieces : ∀ piece < pieceCount items.length length,
      pieceOf other length piece = pieceOf items length piece) : other = items := by
  rw [← flatMap_pieces items positive, ← flatMap_pieces other positive, same]
  refine List.flatMap_congr fun piece member => ?_
  exact pieces piece (List.mem_range.mp member)

/-! ## Writing pieces -/

theorem getElem?_overwrite (bytes : List UInt8) {offset : Nat} {written : List UInt8}
    (fits : offset + written.length ≤ bytes.length) (place : Nat) :
    (overwrite bytes offset written)[place]? =
      if offset ≤ place ∧ place < offset + written.length then written[place - offset]?
      else bytes[place]? := by
  have whole : (bytes.take offset ++ written ++ bytes.drop (offset + written.length)).length =
      bytes.length := by
    simp only [List.length_append, List.length_take, List.length_drop]
    omega
  have front : (bytes.take offset).length = offset := by
    rw [List.length_take]
    omega
  unfold overwrite
  rw [List.take_of_length_le (Nat.le_of_eq whole), List.append_assoc]
  rcases Nat.lt_or_ge place offset with before | behind
  · rw [List.getElem?_append_left (by omega), List.getElem?_take_of_lt before,
      if_neg (by omega)]
  · rw [List.getElem?_append_right (by omega), front]
    rcases Nat.lt_or_ge place (offset + written.length) with inside | after
    · rw [List.getElem?_append_left (by omega), if_pos ⟨behind, inside⟩]
    · rw [List.getElem?_append_right (by omega), List.getElem?_drop, if_neg (by omega)]
      congr 1
      omega

theorem getElem?_pieceOf (items : List α) (length piece place : Nat) :
    (pieceOf items length piece)[place]? =
      if place < length then items[piece * length + place]? else none := by
  unfold pieceOf
  rw [List.getElem?_take, List.getElem?_drop]

/-- **A piece written to its place is there, and the others are as before.** -/
theorem pieceOf_overwrite {bytes items : List UInt8} {length : Nat} (positive : 0 < length)
    (same : bytes.length = items.length) {written : Nat}
    (inside : written < pieceCount items.length length) (piece : Nat) :
    pieceOf (overwrite bytes (written * length) (pieceOf items length written)) length piece =
      if piece = written then pieceOf items length written else pieceOf bytes length piece := by
  have size := length_pieceOf items length written
  have fits := pieceLength_fits positive inside
  have shorter : pieceLength items.length length written ≤ length := Nat.min_le_left _ _
  refine List.ext_getElem? fun place => ?_
  rw [getElem?_pieceOf, getElem?_overwrite bytes (by omega), size]
  by_cases equal : piece = written
  · subst equal
    rw [if_pos rfl]
    by_cases near : place < pieceLength items.length length piece
    · rw [if_pos (by omega), if_pos (by omega), Nat.add_sub_cancel_left]
    · rw [@List.getElem?_eq_none _ (pieceOf items length piece) place (by omega)]
      split
      next reached =>
          rw [if_neg (by omega), List.getElem?_eq_none]
          unfold pieceLength at near
          omega
      · rfl
  · have apart : (piece + 1) * length ≤ written * length ∨
        (written + 1) * length ≤ piece * length :=
      (Nat.lt_or_gt_of_ne equal).imp (fun less => Nat.mul_le_mul_right length less)
        (fun greater => Nat.mul_le_mul_right length greater)
    rw [Nat.succ_mul, Nat.succ_mul] at apart
    rw [if_neg equal, getElem?_pieceOf bytes]
    split
    next near => rw [if_neg (by omega)]
    · rfl

end Enet.Library
