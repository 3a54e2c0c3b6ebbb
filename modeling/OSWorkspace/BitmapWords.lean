import OSWorkspace.ByteBuffers

/-!
# Bitmaps of 64-bit words in byte buffers

Bit `index` of a bitmap is bit `index % 64` of the little-endian word
`index / 64`.  The search for a clear bit skips full words and counts the
trailing ones of the first word that is not full; a bit is set by an or and
cleared by a subtraction.
-/

namespace OSWorkspace

/-- Number of one bits below the lowest zero bit of a 64-bit word. -/
def trailingOnes (word : Nat) : Nat :=
  ((List.range 64).find? fun position => !word.testBit position).getD 64

theorem trailingOnes_spec {word : Nat} (small : word < 2 ^ 64) (notFull : word ≠ 2 ^ 64 - 1) :
    trailingOnes word < 64 ∧ word.testBit (trailingOnes word) = false ∧
      ∀ position < trailingOnes word, word.testBit position = true := by
  rw [trailingOnes]
  cases search : (List.range 64).find? fun position => !word.testBit position with
  | some found =>
      obtain ⟨clear, inRange, below⟩ := List.find?_range_eq_some.mp search
      rw [Option.getD_some]
      exact ⟨List.mem_range.mp inRange, by simpa using clear, by simpa using below⟩
  | none =>
      exfalso
      apply notFull
      have allSet := List.find?_range_eq_none.mp search
      apply Nat.eq_of_testBit_eq
      intro position
      rw [Nat.testBit_two_pow_sub_one]
      by_cases inside : position < 64
      · simpa [inside] using allSet position inside
      · have power : 2 ^ 64 ≤ 2 ^ position := Nat.pow_le_pow_right (by omega) (by omega)
        simpa [inside] using Nat.testBit_lt_two_pow (Nat.lt_of_lt_of_le small power)

/-- Subtracting the value of a set bit clears it. -/
theorem testBit_sub_two_pow {word position : Nat} (isSet : word.testBit position = true)
    (other : Nat) :
    (word - 2 ^ position).testBit other =
      if other = position then false else word.testBit other := by
  have odd : word / 2 ^ position % 2 = 1 := by
    simpa [Nat.testBit, Nat.shiftRight_eq_div_pow, Nat.and_comm, Nat.one_and_eq_mod_two]
      using isSet
  have remainderLt : word % 2 ^ position < 2 ^ position := Nat.mod_lt _ (Nat.two_pow_pos _)
  obtain ⟨half, quotient⟩ : ∃ half, word / 2 ^ position = 2 * half + 1 :=
    ⟨word / 2 ^ position / 2, by omega⟩
  have wordEq : word = 2 ^ position * (2 * half + 1) ||| word % 2 ^ position := by
    rw [← Nat.two_pow_add_eq_or_of_lt remainderLt, ← quotient, Nat.div_add_mod]
  have clearedEq : word - 2 ^ position = 2 ^ position * (2 * half) ||| word % 2 ^ position := by
    rw [← Nat.two_pow_add_eq_or_of_lt remainderLt]
    have whole := Nat.div_add_mod word (2 ^ position)
    rw [quotient, Nat.mul_add, Nat.mul_one] at whole
    omega
  rw [clearedEq, Nat.testBit_or, Nat.testBit_two_pow_mul]
  by_cases same : other = position
  · have low := Nat.testBit_lt_two_pow remainderLt
    simp [same, low]
  · rw [if_neg same]
    conv_rhs => rw [wordEq, Nat.testBit_or, Nat.testBit_two_pow_mul]
    congr 1
    by_cases above : position ≤ other
    · obtain ⟨distance, rfl⟩ : ∃ distance, other = position + (distance + 1) :=
        ⟨other - position - 1, by omega⟩
      simp only [Nat.add_sub_cancel_left, Nat.testBit_succ]
      congr 2
      omega
    · simp [above]

namespace Bytes

variable {size : Nat}

/-- A word of a bitmap. -/
def word (buffer : Bytes size) (position : Nat) : Nat := buffer.uint (8 * position) 8

/-- A bit of a bitmap of words. -/
def wordBit (buffer : Bytes size) (index : Nat) : Bool :=
  (buffer.word (index / 64)).testBit (index % 64)

/-- The lowest clear bit of the first words. -/
def firstClearBit (buffer : Bytes size) (words : Nat) : Option Nat :=
  ((List.range words).find? fun position => buffer.word position ≠ 2 ^ 64 - 1).map
    fun position => position * 64 + trailingOnes (buffer.word position)

/-- Set a bit by an or. -/
def orWordBit (buffer : Bytes size) (index : Nat) : Bytes size :=
  buffer.putUint (8 * (index / 64)) 8 (buffer.word (index / 64) ||| 2 ^ (index % 64))

/-- Clear a set bit by a subtraction. -/
def subWordBit (buffer : Bytes size) (index : Nat) : Bytes size :=
  buffer.putUint (8 * (index / 64)) 8 (buffer.word (index / 64) - 2 ^ (index % 64))

theorem word_lt (buffer : Bytes size) (position : Nat) : buffer.word position < 2 ^ 64 :=
  Nat.lt_of_lt_of_eq (uint_lt _ _ _) (by decide)

theorem wordBit_zeroed (index : Nat) : (zeroed : Bytes size).wordBit index = false := by
  have wordZero : (zeroed : Bytes size).word (index / 64) = 0 := by
    simp [word, uint, leValue]
  rw [wordBit, wordZero, Nat.zero_testBit]

theorem word_putWord (buffer : Bytes size) {position : Nat} (inside : 8 * position + 8 ≤ size)
    {value : Nat} (small : value < 2 ^ 64) (other : Nat) :
    (buffer.putUint (8 * position) 8 value).word other =
      if other = position then value else buffer.word other := by
  by_cases same : other = position
  · rw [if_pos same, same, word, uint_putUint _ _ inside]
    exact Nat.mod_eq_of_lt small
  · rw [if_neg same, word, word, uint_putUint_outside _ _ (by omega)]

theorem wordBit_putWord (buffer : Bytes size) {index : Nat}
    (inside : 8 * (index / 64) + 8 ≤ size) {value : Nat} (small : value < 2 ^ 64)
    {bit : Bool} (bits : ∀ other, value.testBit other =
      if other = index % 64 then bit else (buffer.word (index / 64)).testBit other)
    (other : Nat) :
    (buffer.putUint (8 * (index / 64)) 8 value).wordBit other =
      if other = index then bit else buffer.wordBit other := by
  rw [wordBit, word_putWord _ inside small]
  by_cases sameWord : other / 64 = index / 64
  · rw [if_pos sameWord, bits]
    by_cases same : other = index
    · rw [if_pos same, same, if_pos rfl]
    · rw [if_neg same, if_neg (by omega), wordBit, sameWord]
  · rw [if_neg sameWord, if_neg (by rintro rfl; exact sameWord rfl), wordBit]

theorem wordBit_orWordBit (buffer : Bytes size) {index : Nat}
    (inside : 8 * (index / 64) + 8 ≤ size) (other : Nat) :
    (buffer.orWordBit index).wordBit other =
      if other = index then true else buffer.wordBit other := by
  have power : 2 ^ (index % 64) < 2 ^ 64 := Nat.pow_lt_pow_right (by omega) (by omega)
  apply wordBit_putWord _ inside (Nat.or_lt_two_pow (word_lt _ _) power)
  intro position
  rw [Nat.testBit_or, Nat.testBit_two_pow]
  by_cases same : position = index % 64
  · simp [same]
  · simp [same, Ne.symm same]

theorem wordBit_subWordBit (buffer : Bytes size) {index : Nat}
    (inside : 8 * (index / 64) + 8 ≤ size) (isSet : buffer.wordBit index = true) (other : Nat) :
    (buffer.subWordBit index).wordBit other =
      if other = index then false else buffer.wordBit other := by
  apply wordBit_putWord _ inside (Nat.lt_of_le_of_lt (Nat.sub_le _ _) (word_lt _ _))
  exact testBit_sub_two_pow isSet

theorem wordBit_of_full {buffer : Bytes size} {index : Nat}
    (full : buffer.word (index / 64) = 2 ^ 64 - 1) : buffer.wordBit index = true := by
  have small : index % 64 < 64 := Nat.mod_lt _ (by omega)
  rw [wordBit, full, Nat.testBit_two_pow_sub_one]
  simpa using small

theorem firstClearBit_some {buffer : Bytes size} {words found : Nat}
    (search : buffer.firstClearBit words = some found) :
    found < words * 64 ∧ buffer.wordBit found = false ∧
      ∀ index < found, buffer.wordBit index = true := by
  obtain ⟨position, first, rfl⟩ := Option.map_eq_some_iff.mp search
  obtain ⟨notFull, inRange, below⟩ := List.find?_range_eq_some.mp first
  obtain ⟨small, clear, onesBelow⟩ := trailingOnes_spec (buffer.word_lt position)
    (by simpa using notFull)
  have positionLt := List.mem_range.mp inRange
  have quotient : (position * 64 + trailingOnes (buffer.word position)) / 64 = position := by
    omega
  have remainder : (position * 64 + trailingOnes (buffer.word position)) % 64 =
      trailingOnes (buffer.word position) := by omega
  refine ⟨by omega, ?_, ?_⟩
  · rw [wordBit, quotient, remainder, clear]
  · intro index indexLt
    by_cases sameWord : index / 64 = position
    · rw [wordBit, sameWord]
      exact onesBelow _ (by omega)
    · apply wordBit_of_full
      simpa using below (index / 64) (by omega)

theorem firstClearBit_none {buffer : Bytes size} {words : Nat}
    (search : buffer.firstClearBit words = none) {index : Nat} (inside : index < words * 64) :
    buffer.wordBit index = true := by
  have full := List.find?_range_eq_none.mp (Option.map_eq_none_iff.mp search)
  apply wordBit_of_full
  simpa using full (index / 64) (by omega)

end Bytes

end OSWorkspace
