import OSWorkspace.ByteBuffers

/-!
# Bitmaps in byte buffers

Bit `index` of a bitmap is bit `index % 8` of byte `index / 8`.  Bits are read
with a one-bit mask, set by an or and cleared by an and with the complement.
-/

namespace OSWorkspace

/-- The mask of one bit of a byte. -/
def bitMask (index : Nat) : UInt8 :=
  1 <<< UInt8.ofNat (index % 8)

private theorem toNat_bitMask (index : Nat) : (bitMask index).toNat = 2 ^ (index % 8) := by
  have small : index % 8 < 8 := Nat.mod_lt _ (by omega)
  unfold bitMask
  generalize index % 8 = position at small
  interval_cases position <;> rfl

namespace Bytes

variable {size : Nat}

/-- Bit `index` of a bitmap. -/
def testBit (buffer : Bytes size) (index : Nat) : Bool :=
  (buffer.get (index / 8)).toNat.testBit (index % 8)

/-- Set or clear bit `index` of a bitmap. -/
def setBit (buffer : Bytes size) (index : Nat) (value : Bool) : Bytes size :=
  let byte := buffer.get (index / 8)
  buffer.overlay (index / 8) 1 fun _ =>
    if value then byte ||| bitMask index else byte &&& ~~~ bitMask index

/-- Masking out one bit decides it. -/
theorem mask_eq_zero_iff (buffer : Bytes size) (index : Nat) :
    buffer.get (index / 8) &&& bitMask index = 0 ↔ buffer.testBit index = false := by
  rw [← UInt8.toNat_inj, UInt8.toNat_and, toNat_bitMask, testBit]
  rw [Nat.and_two_pow]
  cases (buffer.get (index / 8)).toNat.testBit (index % 8) <;> simp

theorem testBit_setBit (buffer : Bytes size) {index : Nat} (inside : index / 8 < size)
    (value : Bool) (other : Nat) :
    (buffer.setBit index value).testBit other =
      if other = index then value else buffer.testBit other := by
  unfold testBit setBit
  by_cases sameByte : other / 8 = index / 8
  · rw [sameByte, get_overlay_inside _ _ (by omega) (by omega) inside]
    have small : other % 8 < 8 := Nat.mod_lt _ (by omega)
    cases value with
    | true =>
        simp only [if_true, UInt8.toNat_or, Nat.testBit_or, toNat_bitMask, Nat.testBit_two_pow]
        by_cases same : other = index
        · simp [same]
        · have different : ¬ index % 8 = other % 8 := by omega
          simp [same, different]
    | false =>
        have complement : (~~~ bitMask index).toNat = 255 - 2 ^ (index % 8) := by
          rw [UInt8.toNat_not, toNat_bitMask]
          rfl
        have position : index % 8 < 8 := Nat.mod_lt _ (by omega)
        have bits : ∀ bit < 8, ∀ position < 8,
            (255 - 2 ^ position).testBit bit = decide (bit ≠ position) := by decide
        simp only [Bool.false_eq_true, if_false, UInt8.toNat_and, Nat.testBit_and, complement,
          bits _ small _ position]
        by_cases same : other = index
        · simp [same]
        · have different : ¬ other % 8 = index % 8 := by omega
          simp [same, different]
  · rw [get_overlay_outside _ _ (by omega), if_neg (by rintro rfl; exact sameByte rfl)]

end Bytes

end OSWorkspace
