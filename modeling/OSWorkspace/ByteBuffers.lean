import Mathlib

/-!
# Fixed-size byte buffers

On-disk structures are read and written by casting addresses inside a block to
structure pointers.  This file gives the memory model for that style: a buffer
of a fixed number of bytes, the overlay of a byte range, and little-endian
integers at arbitrary offsets, together with the frame and round-trip laws by
which a structure write is seen only by the fields it covers.
-/

namespace OSWorkspace

/-- A buffer of exactly `size` bytes. -/
def Bytes (size : Nat) : Type :=
  Fin size → UInt8

/-- Little-endian value of the first `width` bytes delivered by `read`. -/
def leValue : (width : Nat) → (read : Nat → UInt8) → Nat
  | 0, _ => 0
  | width + 1, read => (read 0).toNat + 256 * leValue width fun index => read (index + 1)

/-- Byte number `index` of the little-endian representation of `value`. -/
def leByte (value index : Nat) : UInt8 :=
  UInt8.ofNat (value / 256 ^ index)

theorem leValue_lt (width : Nat) (read : Nat → UInt8) :
    leValue width read < 256 ^ width := by
  induction width generalizing read with
  | zero => simp [leValue]
  | succ width ih =>
      have lowByte := (read 0).toNat_lt
      have rest := ih fun index => read (index + 1)
      have powerEq : 256 ^ (width + 1) = 256 * 256 ^ width := by ring
      simp only [leValue]
      omega

theorem leValue_congr {width : Nat} {first second : Nat → UInt8}
    (agree : ∀ index < width, first index = second index) :
    leValue width first = leValue width second := by
  induction width generalizing first second with
  | zero => rfl
  | succ width ih =>
      simp only [leValue]
      rw [agree 0 (by omega), ih fun index indexLt => agree (index + 1) (by omega)]

/-- Decoding the little-endian bytes of a number recovers it modulo the width. -/
theorem leValue_leByte (width value : Nat) :
    leValue width (leByte value) = value % 256 ^ width := by
  induction width generalizing value with
  | zero => simp [leValue, Nat.mod_one]
  | succ width ih =>
      have shifted : (fun index => leByte value (index + 1)) = leByte (value / 256) := by
        funext index
        simp only [leByte]
        rw [Nat.div_div_eq_div_mul, Nat.pow_succ, Nat.mul_comm]
      have powerEq : 256 ^ (width + 1) = 256 * 256 ^ width := by ring
      simp only [leValue]
      rw [shifted, ih, powerEq, Nat.mod_mul]
      simp [leByte]

/-- The bytes of a decoded number are those that were read. -/
theorem leByte_leValue {width index : Nat} (read : Nat → UInt8) (inside : index < width) :
    leByte (leValue width read) index = read index := by
  induction width generalizing read index with
  | zero => omega
  | succ width ih =>
      have lowByte := (read 0).toNat_lt
      cases index with
      | zero =>
          simp only [leByte, leValue, Nat.pow_zero, Nat.div_one]
          refine UInt8.toNat_inj.mp ?_
          rw [UInt8.toNat_ofNat']
          omega
      | succ index =>
          have shifted : leValue (width + 1) read / 256 ^ (index + 1) =
              leValue width (fun index => read (index + 1)) / 256 ^ index := by
            rw [Nat.pow_succ, Nat.mul_comm, ← Nat.div_div_eq_div_mul]
            congr 1
            rw [leValue]
            omega
          rw [leByte, shifted]
          exact ih (fun index => read (index + 1)) (by omega)

namespace Bytes

variable {size : Nat}

/-- Byte at `index`; an index past the end reads as zero. -/
def get (buffer : Bytes size) (index : Nat) : UInt8 :=
  if inside : index < size then buffer ⟨index, inside⟩ else 0

/-- The buffer of zero bytes. -/
def zeroed : Bytes size :=
  fun _ => 0

/-- The buffer of equal bytes. -/
def filled (byte : UInt8) : Bytes size :=
  fun _ => byte

/-- Replace the `length` bytes from `offset` on by those of `source`. -/
def overlay (buffer : Bytes size) (offset length : Nat) (source : Nat → UInt8) :
    Bytes size :=
  fun index =>
    if offset ≤ index.val ∧ index.val < offset + length then source (index.val - offset)
    else buffer index

/-- Write a list of bytes at `offset`. -/
def write (buffer : Bytes size) (offset : Nat) (data : List UInt8) : Bytes size :=
  buffer.overlay offset data.length fun index => data.getD index 0

/-- The list of `length` bytes from `offset` on. -/
def slice (buffer : Bytes size) (offset length : Nat) : List UInt8 :=
  (List.range length).map fun index => buffer.get (offset + index)

/-- The structure image of `width` bytes found at `offset`. -/
def extract (buffer : Bytes size) (offset width : Nat) : Bytes width :=
  fun index => buffer.get (offset + index.val)

/-- Store a structure image at `offset`. -/
def paste {width : Nat} (buffer : Bytes size) (offset : Nat) (image : Bytes width) :
    Bytes size :=
  buffer.overlay offset width image.get

/-- Little-endian unsigned integer of `width` bytes at `offset`. -/
def uint (buffer : Bytes size) (offset width : Nat) : Nat :=
  leValue width fun index => buffer.get (offset + index)

/-- Store the low `width` bytes of `value` at `offset`. -/
def putUint (buffer : Bytes size) (offset width value : Nat) : Bytes size :=
  buffer.overlay offset width (leByte value)

@[ext]
theorem ext {first second : Bytes size}
    (agree : ∀ index < size, first.get index = second.get index) : first = second := by
  funext index
  have atIndex := agree index.val index.isLt
  simpa [get, index.isLt] using atIndex

theorem get_of_le (buffer : Bytes size) {index : Nat} (outside : size ≤ index) :
    buffer.get index = 0 := by
  simp [get, Nat.not_lt.mpr outside]

@[simp]
theorem get_zeroed (index : Nat) : (zeroed : Bytes size).get index = 0 := by
  simp [get, zeroed]

theorem get_filled (byte : UInt8) {index : Nat} (inside : index < size) :
    (filled byte : Bytes size).get index = byte := by
  rw [get, dif_pos inside, filled]

theorem get_overlay (buffer : Bytes size) (offset length : Nat) (source : Nat → UInt8)
    {index : Nat} (inside : index < size) :
    (buffer.overlay offset length source).get index =
      if offset ≤ index ∧ index < offset + length then source (index - offset)
      else buffer.get index := by
  simp [get, overlay, inside]

theorem get_overlay_outside (buffer : Bytes size) {offset length index : Nat}
    (source : Nat → UInt8) (outside : index < offset ∨ offset + length ≤ index) :
    (buffer.overlay offset length source).get index = buffer.get index := by
  by_cases inside : index < size
  · rw [get_overlay _ _ _ _ inside, if_neg (by omega)]
  · rw [get_of_le _ (by omega), get_of_le _ (by omega)]

theorem get_overlay_inside (buffer : Bytes size) {offset length index : Nat}
    (source : Nat → UInt8) (lower : offset ≤ index) (upper : index < offset + length)
    (fits : index < size) :
    (buffer.overlay offset length source).get index = source (index - offset) := by
  rw [get_overlay _ _ _ _ fits, if_pos ⟨lower, upper⟩]

theorem get_extract (buffer : Bytes size) {offset width index : Nat} (inside : index < width) :
    (buffer.extract offset width).get index = buffer.get (offset + index) := by
  simp [get, extract, inside]

@[simp]
theorem length_slice (buffer : Bytes size) (offset length : Nat) :
    (buffer.slice offset length).length = length := by
  simp [slice]

theorem slice_congr {first second : Bytes size} {offset length : Nat}
    (agree : ∀ index, offset ≤ index → index < offset + length →
      first.get index = second.get index) :
    first.slice offset length = second.slice offset length := by
  simp only [slice]
  apply List.map_congr_left
  intro index indexMem
  have indexLt := List.mem_range.mp indexMem
  exact agree _ (by omega) (by omega)

/-- Reading back a written list of bytes. -/
theorem slice_write (buffer : Bytes size) {offset : Nat} {data : List UInt8}
    (fits : offset + data.length ≤ size) :
    (buffer.write offset data).slice offset data.length = data := by
  apply List.ext_getElem
  · simp
  · intro index indexLt dataLt
    simp only [slice, List.getElem_map, List.getElem_range, write]
    rw [get_overlay_inside _ _ (by omega) (by omega) (by omega)]
    simp [List.getD, dataLt]

/-- Reading back a structure image. -/
theorem extract_paste {width : Nat} (buffer : Bytes size) {offset : Nat} (image : Bytes width)
    (fits : offset + width ≤ size) :
    (buffer.paste offset image).extract offset width = image := by
  apply ext
  intro index indexLt
  rw [get_extract _ indexLt, paste,
    get_overlay_inside _ _ (by omega) (by omega) (by omega)]
  congr 1
  omega

/-- An overlay outside a structure image leaves the image unchanged. -/
theorem extract_overlay_outside (buffer : Bytes size) {offset length start width : Nat}
    (source : Nat → UInt8) (outside : start + width ≤ offset ∨ offset + length ≤ start) :
    (buffer.overlay offset length source).extract start width = buffer.extract start width := by
  apply ext
  intro index indexLt
  rw [get_extract _ indexLt, get_extract _ indexLt, get_overlay_outside _ _ (by omega)]

theorem uint_lt (buffer : Bytes size) (offset width : Nat) :
    buffer.uint offset width < 256 ^ width :=
  leValue_lt _ _

theorem uint_congr {otherSize : Nat} {first : Bytes size} {second : Bytes otherSize}
    {offset otherOffset width : Nat}
    (agree : ∀ index < width,
      first.get (offset + index) = second.get (otherOffset + index)) :
    first.uint offset width = second.uint otherOffset width :=
  leValue_congr agree

theorem uint_overlay_outside (buffer : Bytes size) {offset length start width : Nat}
    (source : Nat → UInt8) (outside : start + width ≤ offset ∨ offset + length ≤ start) :
    (buffer.overlay offset length source).uint start width = buffer.uint start width := by
  apply uint_congr
  intro index indexLt
  exact get_overlay_outside _ _ (by omega)

theorem uint_overlay_inside (buffer : Bytes size) {offset length start width : Nat}
    (source : Nat → UInt8) (lower : offset ≤ start) (upper : start + width ≤ offset + length)
    (fits : start + width ≤ size) :
    (buffer.overlay offset length source).uint start width =
      leValue width fun index => source (start - offset + index) := by
  apply leValue_congr
  intro index indexLt
  rw [get_overlay_inside _ _ (by omega) (by omega) (by omega)]
  congr 1
  omega

theorem uint_putUint (buffer : Bytes size) {offset width : Nat} (value : Nat)
    (fits : offset + width ≤ size) :
    (buffer.putUint offset width value).uint offset width = value % 256 ^ width := by
  rw [putUint, uint_overlay_inside _ _ (by omega) (by omega) fits]
  simpa using leValue_leByte width value

theorem uint_putUint_outside (buffer : Bytes size) {offset width start otherWidth : Nat}
    (value : Nat) (outside : start + otherWidth ≤ offset ∨ offset + width ≤ start) :
    (buffer.putUint offset width value).uint start otherWidth = buffer.uint start otherWidth :=
  uint_overlay_outside _ _ outside

/-- Storing the number that is there changes nothing. -/
theorem putUint_uint (buffer : Bytes size) (offset width : Nat) :
    buffer.putUint offset width (buffer.uint offset width) = buffer := by
  refine ext fun index inside => ?_
  rw [putUint, get_overlay _ _ _ _ inside]
  split_ifs with inField
  · rw [uint, leByte_leValue _ (by omega)]
    congr 1
    omega
  · rfl

/-- Storing the structure that is there changes nothing. -/
theorem paste_extract (buffer : Bytes size) (offset width : Nat) :
    buffer.paste offset (buffer.extract offset width) = buffer := by
  refine ext fun index inside => ?_
  rw [paste, get_overlay _ _ _ _ inside]
  split_ifs with inImage
  · rw [get_extract _ (by omega)]
    congr 1
    omega
  · rfl

theorem uint_extract (buffer : Bytes size) {offset width start fieldWidth : Nat}
    (inside : start + fieldWidth ≤ width) :
    (buffer.extract offset width).uint start fieldWidth =
      buffer.uint (offset + start) fieldWidth := by
  apply uint_congr
  intro index indexLt
  rw [get_extract _ (by omega), Nat.add_assoc]

end Bytes

end OSWorkspace
