import OSWorkspace.ShellScripts

/-!
# Words of shell statements

Statements written as words with one space between them: such a statement is
its own trimmed form, its tokens are its words, and expansion acts on each word.
-/

namespace OSWorkspace

namespace Shell

open Environment

/-- A character that the tokenizer copies. -/
def Plain (ch : Char) : Prop :=
  isWhitespace ch = false ∧ ch ≠ backslash ∧ ch ≠ singleQuote ∧ ch ≠ doubleQuote

instance (ch : Char) : Decidable (Plain ch) :=
  inferInstanceAs (Decidable (_ ∧ _))

/-- A nonempty text of plain characters. -/
structure IsWord (word : Text) : Prop where
  nonempty : word ≠ []
  plain : ∀ ch ∈ word, Plain ch

instance (word : Text) : Decidable (IsWord word) :=
  letI := List.decidableBAll Plain word
  decidable_of_iff (word ≠ [] ∧ ∀ ch ∈ word, Plain ch)
    ⟨fun parts => ⟨parts.1, parts.2⟩, fun isWord => ⟨isWord.nonempty, isWord.plain⟩⟩

/-- Words with one space between them. -/
def spaced (words : List Text) : Text := List.intercalate [' '] words

@[simp]
theorem spaced_singleton (word : Text) : spaced [word] = word := by
  simp [spaced, List.intercalate]

theorem spaced_cons_cons (first second : Text) (words : List Text) :
    spaced (first :: second :: words) = first ++ ' ' :: spaced (second :: words) := by
  simp [spaced, List.intercalate]

theorem spaced_eq_append (first : Text) (words : List Text) :
    ∃ rest, spaced (first :: words) = first ++ rest := by
  cases words with
  | nil => exact ⟨[], by simp⟩
  | cons second words => exact ⟨_, spaced_cons_cons first second words⟩

theorem tokenizeFrom_plain {word : Text} (plain : ∀ ch ∈ word, Plain ch) (current rest : Text) :
    tokenizeFrom current none false (word ++ rest) =
      tokenizeFrom (current ++ word) none false rest := by
  induction word generalizing current with
  | nil => simp
  | cons ch word ih =>
      obtain ⟨notSpace, notBackslash, notSingle, notDouble⟩ := plain ch (by simp)
      have rest := ih (fun other otherMem => plain other (by simp [otherMem])) (current ++ [ch])
      simp [tokenizeFrom, notSpace, notBackslash, notSingle, notDouble, rest]

theorem parseCommand_spaced {words : List Text} (isWords : ∀ word ∈ words, IsWord word) :
    parseCommand (spaced words) = words := by
  induction words with
  | nil => rfl
  | cons first words ih =>
      have isFirst := isWords first (by simp)
      have nonempty : first.isEmpty = false := by simpa using isFirst.nonempty
      have others := ih fun word wordMem => isWords word (by simp [wordMem])
      cases words with
      | nil =>
          have tokens := tokenizeFrom_plain isFirst.plain [] []
          simp only [List.append_nil, List.nil_append] at tokens
          rw [spaced_singleton, parseCommand, tokens]
          simp [tokenizeFrom, nonempty]
      | cons second words =>
          have space : isWhitespace ' ' = true := by decide
          rw [spaced_cons_cons, parseCommand, tokenizeFrom_plain isFirst.plain,
            List.nil_append, tokenizeFrom]
          simp only [Bool.false_eq_true, if_false, space, nonempty, and_self, if_true]
          rw [if_neg (by decide), if_neg (by decide)]
          exact congrArg _ others

theorem splitWhitespaceFrom_plain {word : Text} (plain : ∀ ch ∈ word, Plain ch)
    (current rest : Text) :
    splitWhitespaceFrom current (word ++ rest) = splitWhitespaceFrom (current ++ word) rest := by
  induction word generalizing current with
  | nil => simp
  | cons ch word ih =>
      have notSpace := (plain ch (by simp)).1
      have rest := ih (fun other otherMem => plain other (by simp [otherMem])) (current ++ [ch])
      simp [splitWhitespaceFrom, notSpace, rest]

theorem splitWhitespace_spaced {words : List Text} (isWords : ∀ word ∈ words, IsWord word) :
    splitWhitespace (spaced words) = words := by
  induction words with
  | nil => rfl
  | cons first words ih =>
      have isFirst := isWords first (by simp)
      have nonempty : first.isEmpty = false := by simpa using isFirst.nonempty
      have others := ih fun word wordMem => isWords word (by simp [wordMem])
      cases words with
      | nil =>
          have pieces := splitWhitespaceFrom_plain isFirst.plain [] []
          simp only [List.append_nil, List.nil_append] at pieces
          rw [spaced_singleton, splitWhitespace, pieces]
          simp [splitWhitespaceFrom, nonempty]
      | cons second words =>
          have space : isWhitespace ' ' = true := by decide
          rw [spaced_cons_cons, splitWhitespace, splitWhitespaceFrom_plain isFirst.plain,
            List.nil_append, splitWhitespaceFrom]
          simp only [space, nonempty, Bool.false_eq_true, if_false, if_true]
          exact congrArg _ others

theorem spaced_ne_nil {first : Text} {words : List Text} (nonempty : first ≠ []) :
    spaced (first :: words) ≠ [] := by
  obtain ⟨rest, shape⟩ := spaced_eq_append first words
  simp [shape, nonempty]

theorem getLast_spaced {words : List Text} (isWords : ∀ word ∈ words, IsWord word)
    (nonempty : spaced words ≠ []) : isWhitespace ((spaced words).getLast nonempty) = false := by
  induction words with
  | nil => exact absurd rfl nonempty
  | cons first words ih =>
      have isFirst := isWords first (by simp)
      cases words with
      | nil =>
          simp only [spaced_singleton]
          exact (isFirst.plain _ (List.getLast_mem isFirst.nonempty)).1
      | cons second words =>
          have isSecond := isWords second (by simp)
          have tailNonempty := @spaced_ne_nil second words isSecond.nonempty
          simp only [spaced_cons_cons, List.getLast_append_of_ne_nil _ (List.cons_ne_nil _ _),
            List.getLast_cons tailNonempty]
          exact ih (fun word wordMem => isWords word (by simp [wordMem])) tailNonempty

theorem trim_spaced {words : List Text} (isWords : ∀ word ∈ words, IsWord word) :
    trim (spaced words) = spaced words := by
  cases words with
  | nil => rfl
  | cons first words =>
      have isFirst := isWords first (by simp)
      have leading : (spaced (first :: words)).dropWhile isWhitespace =
          spaced (first :: words) := by
        obtain ⟨rest, shape⟩ := spaced_eq_append first words
        cases first with
        | nil => exact absurd rfl isFirst.nonempty
        | cons ch first =>
            rw [shape, List.cons_append, List.dropWhile_cons_of_neg]
            simp [(isFirst.plain ch (by simp)).1]
      rw [trim, leading, List.rdropWhile_eq_self_iff]
      intro nonempty
      simp [getLast_spaced isWords nonempty]

/-- A text that expansion copies. -/
def Literal (text : Text) : Prop :=
  ∀ ch ∈ text, ch ≠ backslash ∧ ch ≠ singleQuote ∧ ch ≠ doubleQuote ∧ ch ≠ '$'

instance (text : Text) : Decidable (Literal text) :=
  List.decidableBAll _ text

/-- A name of ASCII letters, digits and underscores. -/
structure IsName (name : Text) : Prop where
  nonempty : name ≠ []
  ascii : ∀ ch ∈ name, ch.isAlphanum = true ∨ ch = '_'

theorem isName_of_isIdent {name : Text} (ident : isIdent name = true) : IsName name := by
  cases name with
  | nil => simp [isIdent] at ident
  | cons first chars =>
      simp only [isIdent, Bool.and_eq_true, Bool.or_eq_true, beq_iff_eq, List.all_eq_true]
        at ident
      refine ⟨by simp, ?_⟩
      intro ch chMem
      rcases List.mem_cons.mp chMem with rfl | chMem
      · rcases ident.1 with letter | underscore
        · exact Or.inl (by simp [Char.isAlphanum, letter])
        · exact Or.inr underscore
      · exact ident.2 ch chMem

theorem toNat_bounds_of_ascii {ch : Char} (ascii : ch.isAlphanum = true ∨ ch = '_') :
    48 ≤ ch.toNat ∧ ch.toNat ≤ 122 := by
  rcases ascii with letter | rfl
  · simp only [Char.isAlphanum, Char.isAlpha, Char.isUpper, Char.isLower, Char.isDigit,
      Bool.or_eq_true, Bool.and_eq_true, decide_eq_true_eq, UInt32.le_iff_toNat_le,
      ge_iff_le] at letter
    rcases letter with (⟨lower, upper⟩ | ⟨lower, upper⟩) | ⟨lower, upper⟩
    · exact ⟨Nat.le_trans (by decide) lower, Nat.le_trans upper (by decide)⟩
    · exact ⟨Nat.le_trans (by decide) lower, Nat.le_trans upper (by decide)⟩
    · exact ⟨Nat.le_trans (by decide) lower, Nat.le_trans upper (by decide)⟩
  · decide

theorem plain_of_ascii {ch : Char} (ascii : ch.isAlphanum = true ∨ ch = '_') : Plain ch := by
  have bounds := toNat_bounds_of_ascii ascii
  refine ⟨?_, ?_, ?_, ?_⟩
  · simp only [isWhitespace, Bool.or_eq_false_iff, Bool.and_eq_false_iff, decide_eq_false_iff_not,
      beq_eq_false_iff_ne]
    omega
  · rintro rfl
    exact absurd ascii (by decide)
  · rintro rfl
    exact absurd ascii (by decide)
  · rintro rfl
    exact absurd ascii (by decide)

section Expansion

variable (unicode : Unicode) (env : Environment)

/-- Rounds beyond the length of the input change nothing. -/
theorem expandFrom_add (rounds more : Nat) (inSingle inDouble escape : Bool) (input : Text)
    (enough : input.length ≤ rounds) :
    expandFrom unicode env (rounds + more) inSingle inDouble escape input =
      expandFrom unicode env rounds inSingle inDouble escape input := by
  induction rounds generalizing inSingle inDouble escape input with
  | zero =>
      have empty : input = [] := List.length_eq_zero_iff.mp (by omega)
      subst empty
      cases more <;> simp [expandFrom]
  | succ rounds ih =>
      cases input with
      | nil => simp [expandFrom, Nat.succ_add]
      | cons ch chars =>
          have step (single double escaped : Bool) (rest : Text)
              (shorter : rest.length ≤ chars.length) :
              expandFrom unicode env (rounds + more) single double escaped rest =
                expandFrom unicode env rounds single double escaped rest :=
            ih single double escaped rest (by
              simp only [List.length_cons] at enough
              omega)
          have tail : chars.tail.length ≤ chars.length := by simp
          have brace : (chars.tail.dropWhile (· != '}')).tail.length ≤ chars.length := by
            have dropped := (@List.dropWhile_sublist _ chars.tail (· != '}')).length_le
            simp only [List.length_tail] at dropped ⊢
            omega
          have name : (chars.dropWhile (isNameChar unicode)).length ≤ chars.length :=
            (List.dropWhile_sublist _).length_le
          rw [Nat.succ_add]
          simp only [expandFrom, step _ _ _ chars (Nat.le_refl _), step _ _ _ _ tail,
            step _ _ _ _ brace, step _ _ _ _ name]

theorem expandFrom_literal {word : Text} (literal : Literal word) (rounds : Nat) (rest : Text) :
    expandFrom unicode env (word.length + rounds) false false false (word ++ rest) =
      word ++ expandFrom unicode env rounds false false false rest := by
  induction word with
  | nil => simp
  | cons ch word ih =>
      obtain ⟨notBackslash, notSingle, notDouble, notDollar⟩ := literal ch (by simp)
      have others := ih fun other otherMem => literal other (by simp [otherMem])
      rw [List.length_cons, Nat.add_right_comm]
      simp [expandFrom, notBackslash, notSingle, notDouble, notDollar, others]

theorem expandVariables_literal {text : Text} (literal : Literal text) :
    env.expandVariables unicode text = text := by
  have copied := expandFrom_literal unicode env literal 0 []
  simpa [expandVariables, expandFrom] using copied

theorem isNameChar_of_ascii {ch : Char} (ascii : ch.isAlphanum = true ∨ ch = '_') :
    isNameChar unicode ch = true := by
  have bounds := toNat_bounds_of_ascii ascii
  rcases ascii with letter | rfl
  · simp [isNameChar, unicode.ascii ch (by omega), letter]
  · simp [isNameChar]

/-- A variable is replaced by its value up to the next space or the end. -/
theorem expandFrom_variable {name : Text} (isName : IsName name) (rest : Text)
    (stops : rest = [] ∨ rest.head? = some ' ') :
    expandFrom unicode env (('$' :: name).length + rest.length) false false false
        ('$' :: name ++ rest) =
      (env name).getD [] ++ expandFrom unicode env rest.length false false false rest := by
  have nameChars : ∀ ch ∈ name, isNameChar unicode ch = true :=
    fun ch chMem => isNameChar_of_ascii unicode (isName.ascii ch chMem)
  have spaceStops : isNameChar unicode ' ' = false := by
    have notLetter : unicode.isAlphanumeric ' ' = false := unicode.ascii ' ' (by decide)
    simp [isNameChar, notLetter]
  have tailStops : rest.takeWhile (isNameChar unicode) = [] ∧
      rest.dropWhile (isNameChar unicode) = rest := by
    cases rest with
    | nil => simp
    | cons ch rest =>
        obtain rfl : ch = ' ' := by simpa using stops
        simp [spaceStops]
  have taken : (name ++ rest).takeWhile (isNameChar unicode) = name := by
    rw [List.takeWhile_append_of_pos nameChars, tailStops.1, List.append_nil]
  have dropped : (name ++ rest).dropWhile (isNameChar unicode) = rest := by
    rw [List.dropWhile_append_of_pos nameChars, tailStops.2]
  have headNe (ch : Char) (special : (ch.isAlphanum || ch == '_') = false) :
      (name ++ rest).head? ≠ some ch := by
    cases name with
    | nil => exact absurd rfl isName.nonempty
    | cons first name =>
        intro same
        obtain rfl : first = ch := by simpa using same
        rcases isName.ascii first (by simp) with letter | underscore
        · simp [letter] at special
        · simp [underscore] at special
  have enough := expandFrom_add unicode env rest.length name.length false false false rest
    (Nat.le_refl _)
  rw [List.length_cons, List.cons_append, Nat.add_right_comm, expandFrom]
  rw [if_neg (by decide), if_neg (by decide), if_neg (by decide), if_neg (by decide),
    if_neg (by decide), if_neg (by decide), if_neg (headNe '?' (by decide)),
    if_neg (headNe '!' (by decide)), if_neg (headNe '{' (by decide)), taken,
    if_neg isName.nonempty, dropped, Nat.add_comm name.length, enough]

end Expansion

/-- A word of a statement as it is written. -/
inductive Operand where
  | literal (word : Text)
  | dollar (name : Text)

namespace Operand

def text : Operand → Text
  | literal word => word
  | dollar name => '$' :: name

def value (env : Environment) : Operand → Text
  | literal word => word
  | dollar name => (env name).getD []

/-- A literal word, or a variable by name. -/
def Valid : Operand → Prop
  | literal word => IsWord word ∧ Literal word
  | dollar name => IsName name

end Operand

section Operands

variable (unicode : Unicode) (env : Environment)

theorem expandFrom_operand {operand : Operand} (valid : operand.Valid) (rest : Text)
    (stops : rest = [] ∨ rest.head? = some ' ') :
    expandFrom unicode env (operand.text.length + rest.length) false false false
        (operand.text ++ rest) =
      operand.value env ++ expandFrom unicode env rest.length false false false rest := by
  cases operand with
  | literal word => exact expandFrom_literal unicode env valid.2 _ _
  | dollar name => exact expandFrom_variable unicode env valid rest stops

/-- Expansion acts on each word of a statement. -/
theorem expandVariables_spaced {operands : List Operand}
    (valid : ∀ operand ∈ operands, operand.Valid) :
    env.expandVariables unicode (spaced (operands.map Operand.text)) =
      spaced (operands.map (Operand.value env)) := by
  induction operands with
  | nil => rfl
  | cons first operands ih =>
      have isFirst := valid first (by simp)
      have others := ih fun operand operandMem => valid operand (by simp [operandMem])
      cases operands with
      | nil =>
          have expanded := expandFrom_operand unicode env isFirst [] (Or.inl rfl)
          simpa [expandVariables, expandFrom] using expanded
      | cons second operands =>
          have space : Literal [' '] := by decide
          simp only [List.map_cons] at others ⊢
          rw [spaced_cons_cons, spaced_cons_cons, expandVariables, List.length_append,
            expandFrom_operand unicode env isFirst _ (Or.inr rfl), ← others]
          have copied := expandFrom_literal unicode env space
            (spaced (second.text :: operands.map Operand.text)).length
            (spaced (second.text :: operands.map Operand.text))
          simp only [List.length_singleton, List.singleton_append] at copied
          rw [List.length_cons, Nat.add_comm _ 1, copied, expandVariables]

theorem isWord_text {operand : Operand} (valid : operand.Valid) : IsWord operand.text := by
  cases operand with
  | literal word => exact valid.1
  | dollar name =>
      refine ⟨by simp [Operand.text], ?_⟩
      intro ch chMem
      rcases List.mem_cons.mp chMem with rfl | chMem
      · decide
      · exact plain_of_ascii (valid.ascii ch chMem)

end Operands

end Shell

end OSWorkspace
