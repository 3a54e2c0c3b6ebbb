import Mathlib

/-!
# UTF-8 strings as bytes

A string is its bytes, which are well-formed UTF-8.  The check follows the
table of well-formed byte sequences: the first byte of a character fixes the
ranges of the bytes behind it.
-/

namespace OSWorkspace

/-- The ranges of the bytes behind the first byte of a character. -/
def utf8Tail (first : UInt8) : Option (List (UInt8 × UInt8)) :=
  if first ≤ 0x7F then some []
  else if 0xC2 ≤ first ∧ first ≤ 0xDF then some [(0x80, 0xBF)]
  else if first = 0xE0 then some [(0xA0, 0xBF), (0x80, 0xBF)]
  else if first = 0xED then some [(0x80, 0x9F), (0x80, 0xBF)]
  else if 0xE1 ≤ first ∧ first ≤ 0xEF then some [(0x80, 0xBF), (0x80, 0xBF)]
  else if first = 0xF0 then some [(0x90, 0xBF), (0x80, 0xBF), (0x80, 0xBF)]
  else if 0xF1 ≤ first ∧ first ≤ 0xF3 then some [(0x80, 0xBF), (0x80, 0xBF), (0x80, 0xBF)]
  else if first = 0xF4 then some [(0x80, 0x8F), (0x80, 0xBF), (0x80, 0xBF)]
  else none

/-- The bytes complete a character with the given ranges and continue well. -/
def validUtf8From : (pending : List (UInt8 × UInt8)) → List UInt8 → Bool
  | [], [] => true
  | _ :: _, [] => false
  | [], byte :: bytes =>
      match utf8Tail byte with
      | some pending => validUtf8From pending bytes
      | none => false
  | (low, high) :: pending, byte :: bytes =>
      decide (low ≤ byte ∧ byte ≤ high) && validUtf8From pending bytes

def validUtf8 (bytes : List UInt8) : Bool :=
  validUtf8From [] bytes

/-- A UTF-8 string. -/
structure Str where
  bytes : List UInt8
  valid : validUtf8 bytes = true
deriving DecidableEq

namespace Str

def len (str : Str) : Nat := str.bytes.length

def isEmpty (str : Str) : Bool := str.bytes.isEmpty

/-- Check the bytes. -/
def fromUtf8 (bytes : List UInt8) : Option Str :=
  if valid : validUtf8 bytes = true then some ⟨bytes, valid⟩ else none

@[simp]
theorem fromUtf8_bytes (str : Str) : fromUtf8 str.bytes = some str := by
  simp [fromUtf8, str.valid]

theorem bytes_of_fromUtf8 {bytes : List UInt8} {str : Str} (decoded : fromUtf8 bytes = some str) :
    str.bytes = bytes := by
  unfold fromUtf8 at decoded
  split at decoded
  · cases decoded
    rfl
  · cases decoded

theorem bytes_injective {first second : Str} (same : first.bytes = second.bytes) :
    first = second := by
  cases first
  cases second
  simpa using same

instance : Ord Str := ⟨fun first second => compare first.bytes second.bytes⟩

instance : Std.TransOrd Str where
  eq_swap := Std.OrientedOrd.eq_swap (α := List UInt8)
  isLE_trans := Std.TransOrd.isLE_trans (α := List UInt8)

instance : Std.LawfulEqOrd Str where
  compare_self := Std.ReflOrd.compare_self (α := List UInt8)
  eq_of_compare same := bytes_injective (Std.LawfulEqOrd.eq_of_compare same)

/-- The names of a directory itself and of its parent. -/
def dot : Str := ⟨[0x2E], rfl⟩

def dotDot : Str := ⟨[0x2E, 0x2E], rfl⟩

end Str

end OSWorkspace
