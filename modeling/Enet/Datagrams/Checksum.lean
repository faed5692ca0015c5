import Enet.Library.ReflectedCrc
import Enet.Model.Checksum

/-!
# The checksum of a datagram

The table of `enet_crc32` is that of the reflected CRC-32, and the loop over the
buffers goes on where the one before ended: the checksum is that of the bytes of
all buffers, wherever they are split. A sender, which keeps the header, the
commands and their data in buffers of their own, and a receiver, which has one
buffer, compute the same.
-/

set_option autoImplicit false

namespace Enet

open Library.ReflectedCrc

/-- The polynomial of CRC-32, reflected. -/
def crcPolynomial : BitVec 32 := 0xEDB88320#32

/-- **Every entry of the table is the register of its byte.** -/
theorem crcTable_entries : ∀ byte : Fin 256,
    crcTable.get (byte.cast length_crcTable.symm) =
      tableEntry crcPolynomial (BitVec.ofFin byte) := by
  decide +kernel

/-- A turn of the loop takes the eight bits of a byte. -/
theorem crcByte_eq (crc : BitVec 32) (byte : UInt8) :
    crcByte crc byte = shiftBits crcPolynomial crc (lowBits 8 byte.toBitVec) := by
  have narrow := (crc.setWidth 8 ^^^ byte.toBitVec).isLt
  have index : (crcIndex crc byte).toNat = (crc.setWidth 8 ^^^ byte.toBitVec).toNat := by
    rw [crcIndex_eq, BitVec.toNat_setWidth]
    exact Nat.mod_eq_of_lt (Nat.lt_trans narrow (by decide))
  have entry := crcTable_entries (crc.setWidth 8 ^^^ byte.toBitVec).toFin
  have place : (⟨(crcIndex crc byte).toNat, crcIndex_lt crc byte⟩ : Fin crcTable.length) =
      (crc.setWidth 8 ^^^ byte.toBitVec).toFin.cast length_crcTable.symm := Fin.ext index
  rw [crcByte, place, entry, shiftBits_byte crcPolynomial crc (by decide)]

/-- The loop over a buffer takes the bits of its bytes. -/
theorem crcBuffer_eq (buffer : List UInt8) : ∀ crc : BitVec 32,
    crcBuffer crc buffer = shiftBits crcPolynomial crc (bitsOf buffer) := by
  induction buffer with
  | nil => intro crc; rfl
  | cons byte buffer ih =>
      intro crc
      have first : crcBuffer crc (byte :: buffer) = crcBuffer (crcByte crc byte) buffer := rfl
      rw [first, ih, crcByte_eq]
      exact (List.foldl_append).symm

/-- The loop over the buffers takes the bits of all of them. -/
theorem foldl_crcBuffer_eq (buffers : List (List UInt8)) : ∀ crc : BitVec 32,
    buffers.foldl crcBuffer crc = shiftBits crcPolynomial crc (bitsOf buffers.flatten) := by
  induction buffers with
  | nil => intro crc; rfl
  | cons buffer buffers ih =>
      intro crc
      rw [List.foldl_cons, ih, crcBuffer_eq, List.flatten_cons, bitsOf_append]
      exact (List.foldl_append).symm

/-- **The checksum is CRC-32.** For any buffers, empty ones too, it is the CRC-32,
bit by bit, of their bytes in sequence; so buffers with the same bytes have the
same checksum, and one buffer with all the bytes has that of the many. -/
theorem crc32_eq_check (buffers : List (List UInt8)) :
    crcOf buffers = check crcPolynomial buffers.flatten ∧
      (∀ others : List (List UInt8), others.flatten = buffers.flatten →
        crcOf others = crcOf buffers ∧ crc32 others = crc32 buffers) ∧
      crc32 [buffers.flatten] = crc32 buffers := by
  have whole : ∀ others : List (List UInt8),
      crcOf others = check crcPolynomial others.flatten := by
    intro others
    rw [crcOf, foldl_crcBuffer_eq]
    rfl
  have split : ∀ others : List (List UInt8), others.flatten = buffers.flatten →
      crcOf others = crcOf buffers := by
    intro others same
    rw [whole, same, whole]
  refine ⟨whole buffers, fun others same => ⟨split others same, ?_⟩, ?_⟩
  · rw [crc32, split others same]
    rfl
  · rw [crc32, split [buffers.flatten] (by simp)]
    rfl

/-- The checksum of the nine digits of the usual test. -/
example : crcOf [[49, 50, 51], [], [52, 53, 54, 55, 56, 57]] = 0xCBF43926#32 := by decide +kernel

end Enet
