import OSWorkspace.ShellTexts

/-!
# Command lines of the shell

A line passes four scanners before it is executed: expansion, the splitting
into sequences, the splitting into commands and the tokenizer.  Only the
expansion keeps the backslashes it meets, so a character that was escaped for
the first splitting is bare for the stages behind it, while single quotes
reach the tokenizer as they were written.
-/

namespace OSWorkspace

namespace Shell

open Environment

/-- A segment is trimmed and dropped when nothing is left. -/
def closeSegment (current : Text) : List Text :=
  if trim current = [] then [] else [trim current]

/-- The segments between separators outside of quotes, the first of them
started by `current`.  An escaping backslash is dropped. -/
def splitSegmentsFrom (separator : Char) (current : Text) (inQuote : Option Char)
    (escape : Bool) : Text → List Text
  | [] => closeSegment current
  | ch :: chars =>
      if escape then splitSegmentsFrom separator (current ++ [ch]) inQuote false chars
      else if ch = backslash then splitSegmentsFrom separator current inQuote true chars
      else if ch = doubleQuote ∨ ch = singleQuote then
        if inQuote = some ch then splitSegmentsFrom separator (current ++ [ch]) none false chars
        else if inQuote = none then
          splitSegmentsFrom separator (current ++ [ch]) (some ch) false chars
        else splitSegmentsFrom separator (current ++ [ch]) inQuote false chars
      else if ch = separator ∧ inQuote = none then
        closeSegment current ++ splitSegmentsFrom separator [] none false chars
      else splitSegmentsFrom separator (current ++ [ch]) inQuote false chars

/-- The sequences of a line. -/
def splitSequences (line : Text) : List Text := splitSegmentsFrom ';' [] none false line

/-- The argument lists of the commands of a pipeline. -/
def parsePipeline (line : Text) : List (List Text) :=
  (splitSegmentsFrom '|' [] none false line).map parseCommand

/-- The pipelines of an expanded line. -/
def parseLine (expanded : Text) : List (List (List Text)) :=
  (splitSequences expanded).map parsePipeline

section Copying

variable (unicode : Unicode) (env : Environment)

/-- Expansion copies the text and is outside of quotes behind it. -/
def Copied (text : Text) : Prop :=
  ∀ rounds rest, expandFrom unicode env (text.length + rounds) false false false (text ++ rest) =
    text ++ expandFrom unicode env rounds false false false rest

/-- Splitting turns a piece into another text and is outside of quotes behind it. -/
def SplitsTo (separator : Char) (piece out : Text) : Prop :=
  ∀ current rest, splitSegmentsFrom separator current none false (piece ++ rest) =
    splitSegmentsFrom separator (current ++ out) none false rest

variable {unicode env}

theorem Copied.append {first second : Text} (copiedFirst : Copied unicode env first)
    (copiedSecond : Copied unicode env second) : Copied unicode env (first ++ second) := by
  intro rounds rest
  rw [List.length_append, Nat.add_assoc, List.append_assoc, copiedFirst, copiedSecond,
    List.append_assoc]

theorem copied_of_literal {text : Text} (literal : Literal text) : Copied unicode env text :=
  expandFrom_literal unicode env literal

theorem copied_spaced {pieces : List Text}
    (copied : ∀ piece ∈ pieces, Copied unicode env piece) :
    Copied unicode env (spaced pieces) := by
  induction pieces with
  | nil =>
      intro rounds rest
      simp [spaced, List.intercalate]
  | cons first pieces ih =>
      have others := ih fun piece pieceMem => copied piece (by simp [pieceMem])
      cases pieces with
      | nil =>
          rw [spaced_singleton]
          exact copied first (by simp)
      | cons second pieces =>
          rw [spaced_cons_cons]
          have space : Copied unicode env [' '] := copied_of_literal (by decide)
          exact (copied first (by simp)).append (space.append others)

theorem Copied.expandVariables_eq {text : Text} (copied : Copied unicode env text) :
    env.expandVariables unicode text = text := by
  have same := copied 0 []
  simpa [expandVariables, expandFrom] using same

theorem SplitsTo.append {separator : Char} {first second out other : Text}
    (splitsFirst : SplitsTo separator first out) (splitsSecond : SplitsTo separator second other) :
    SplitsTo separator (first ++ second) (out ++ other) := by
  intro current rest
  rw [List.append_assoc, splitsFirst, splitsSecond, List.append_assoc]

/-- Characters that are not special to splitting. -/
theorem splitsTo_plain {separator : Char} {text : Text}
    (plain : ∀ ch ∈ text, ch ≠ backslash ∧ ch ≠ singleQuote ∧ ch ≠ doubleQuote ∧ ch ≠ separator) :
    SplitsTo separator text text := by
  induction text with
  | nil =>
      intro current rest
      simp
  | cons ch text ih =>
      intro current rest
      obtain ⟨notBackslash, notSingle, notDouble, notSeparator⟩ := plain ch (by simp)
      have others := ih (fun other otherMem => plain other (by simp [otherMem]))
        (current ++ [ch]) rest
      simp [splitSegmentsFrom, notBackslash, notSingle, notDouble, notSeparator, others]

theorem splitsTo_space {separator : Char} (notSpace : separator ≠ ' ') :
    SplitsTo separator [' '] [' '] := by
  apply splitsTo_plain
  intro ch isSpace
  obtain rfl := List.mem_singleton.mp isSpace
  exact ⟨by decide, by decide, by decide, notSpace.symm⟩

theorem splitsTo_spaced {separator : Char} (notSpace : separator ≠ ' ') {piece : Text → Text}
    {out : Text → Text} {words : List Text}
    (splits : ∀ word ∈ words, SplitsTo separator (piece word) (out word)) :
    SplitsTo separator (spaced (words.map piece)) (spaced (words.map out)) := by
  induction words with
  | nil =>
      intro current rest
      simp [spaced, List.intercalate]
  | cons first words ih =>
      have others := ih fun word wordMem => splits word (by simp [wordMem])
      cases words with
      | nil =>
          simp only [List.map_cons, List.map_nil, spaced_singleton]
          exact splits first (by simp)
      | cons second words =>
          simp only [List.map_cons, spaced_cons_cons] at others ⊢
          exact (splits first (by simp)).append ((splitsTo_space notSpace).append others)

theorem SplitsTo.segments_eq {separator : Char} {piece out : Text}
    (splits : SplitsTo separator piece out) :
    splitSegmentsFrom separator [] none false piece = closeSegment out := by
  have whole := splits [] []
  simpa [splitSegmentsFrom] using whole

end Copying

/-- A text that starts and ends with visible characters. -/
theorem trim_enclosed {first last : Char} (firstVisible : isWhitespace first = false)
    (lastVisible : isWhitespace last = false) (middle : Text) :
    trim (first :: (middle ++ [last])) = first :: (middle ++ [last]) := by
  rw [trim, List.dropWhile_cons_of_neg (by simp [firstVisible]), List.rdropWhile_eq_self_iff]
  intro nonempty
  simp [lastVisible]

def quoteSingle (word : Text) : Text := singleQuote :: (word ++ [singleQuote])

/-- A nonempty word without single quotes and backslashes. -/
structure Quotable (word : Text) : Prop where
  nonempty : word ≠ []
  inner : ∀ ch ∈ word, ch ≠ singleQuote ∧ ch ≠ backslash

instance (word : Text) : Decidable (Quotable word) :=
  letI := List.decidableBAll (fun ch => ch ≠ singleQuote ∧ ch ≠ backslash) word
  decidable_of_iff (word ≠ [] ∧ ∀ ch ∈ word, ch ≠ singleQuote ∧ ch ≠ backslash)
    ⟨fun parts => ⟨parts.1, parts.2⟩, fun quotable => ⟨quotable.nonempty, quotable.inner⟩⟩

section SingleQuotes

variable {word : Text} (inner : ∀ ch ∈ word, ch ≠ singleQuote ∧ ch ≠ backslash)

include inner

theorem expandFrom_inSingle (unicode : Unicode) (env : Environment) (rounds : Nat)
    (rest : Text) :
    expandFrom unicode env (word.length + rounds) true false false (word ++ rest) =
      word ++ expandFrom unicode env rounds true false false rest := by
  induction word with
  | nil => simp
  | cons ch word ih =>
      have notSingle := (inner ch (by simp)).1
      have others := ih fun other otherMem => inner other (by simp [otherMem])
      rw [List.length_cons, Nat.add_right_comm]
      simp [expandFrom, notSingle, others]

theorem splitSegmentsFrom_inSingle (separator : Char) (current rest : Text) :
    splitSegmentsFrom separator current (some singleQuote) false (word ++ rest) =
      splitSegmentsFrom separator (current ++ word) (some singleQuote) false rest := by
  induction word generalizing current with
  | nil => simp
  | cons ch word ih =>
      obtain ⟨notSingle, notBackslash⟩ := inner ch (by simp)
      have others := ih (fun other otherMem => inner other (by simp [otherMem])) (current ++ [ch])
      simp [splitSegmentsFrom, notSingle, notSingle.symm, notBackslash, others]

theorem tokenizeFrom_inSingle (current rest : Text) :
    tokenizeFrom current (some singleQuote) false (word ++ rest) =
      tokenizeFrom (current ++ word) (some singleQuote) false rest := by
  induction word generalizing current with
  | nil => simp
  | cons ch word ih =>
      obtain ⟨notSingle, notBackslash⟩ := inner ch (by simp)
      have others := ih (fun other otherMem => inner other (by simp [otherMem])) (current ++ [ch])
      simp [tokenizeFrom, notSingle, notSingle.symm, notBackslash, others]

theorem copied_quoteSingle (unicode : Unicode) (env : Environment) :
    Copied unicode env (quoteSingle word) := by
  intro rounds rest
  have inside := expandFrom_inSingle inner unicode env (1 + rounds) (singleQuote :: rest)
  have opened : expandFrom unicode env ((quoteSingle word).length + rounds) false false false
      (quoteSingle word ++ rest) = singleQuote ::
        expandFrom unicode env (word.length + (1 + rounds)) true false false
          (word ++ singleQuote :: rest) := by
    have rounds_eq : (quoteSingle word).length + rounds = word.length + (1 + rounds) + 1 := by
      simp only [quoteSingle, List.length_cons, List.length_append, List.length_nil]
      omega
    rw [rounds_eq, quoteSingle, List.cons_append, List.append_assoc, expandFrom]
    simp [show singleQuote ≠ backslash by decide]
  have closed : expandFrom unicode env (1 + rounds) true false false (singleQuote :: rest) =
      singleQuote :: expandFrom unicode env rounds false false false rest := by
    rw [Nat.add_comm, expandFrom]
    simp
  rw [opened, inside, closed]
  simp [quoteSingle]

theorem splitsTo_quoteSingle {separator : Char} :
    SplitsTo separator (quoteSingle word) (quoteSingle word) := by
  intro current rest
  have inside := splitSegmentsFrom_inSingle inner separator (current ++ [singleQuote])
    (singleQuote :: rest)
  have opened : splitSegmentsFrom separator current none false (quoteSingle word ++ rest) =
      splitSegmentsFrom separator (current ++ [singleQuote]) (some singleQuote) false
        (word ++ singleQuote :: rest) := by
    rw [quoteSingle, List.cons_append, List.append_assoc, splitSegmentsFrom]
    simp [show singleQuote ≠ backslash by decide]
  have closed (current : Text) :
      splitSegmentsFrom separator current (some singleQuote) false (singleQuote :: rest) =
        splitSegmentsFrom separator (current ++ [singleQuote]) none false rest := by
    rw [splitSegmentsFrom]
    simp [show singleQuote ≠ backslash by decide]
  rw [opened, inside, closed]
  simp [quoteSingle]

theorem tokenizeFrom_quoteSingle (current rest : Text) :
    tokenizeFrom current none false (quoteSingle word ++ rest) =
      tokenizeFrom (current ++ word) none false rest := by
  have inside := tokenizeFrom_inSingle inner current (singleQuote :: rest)
  have opened : tokenizeFrom current none false (quoteSingle word ++ rest) =
      tokenizeFrom current (some singleQuote) false (word ++ singleQuote :: rest) := by
    rw [quoteSingle, List.cons_append, List.append_assoc, tokenizeFrom]
    simp [show singleQuote ≠ backslash by decide]
  have closed (current : Text) :
      tokenizeFrom current (some singleQuote) false (singleQuote :: rest) =
        tokenizeFrom current none false rest := by
    rw [tokenizeFrom]
    simp [show singleQuote ≠ backslash by decide]
  rw [opened, inside, closed]

end SingleQuotes

theorem parseCommand_quoteSingle {words : List Text}
    (quotable : ∀ word ∈ words, Quotable word) :
    parseCommand (spaced (words.map quoteSingle)) = words := by
  induction words with
  | nil => rfl
  | cons first words ih =>
      obtain ⟨nonempty, inner⟩ := quotable first (by simp)
      have visible : first.isEmpty = false := by simpa using nonempty
      have others := ih fun word wordMem => quotable word (by simp [wordMem])
      cases words with
      | nil =>
          have token := tokenizeFrom_quoteSingle inner [] []
          simp only [List.append_nil, List.nil_append] at token
          rw [List.map_cons, List.map_nil, spaced_singleton, parseCommand, token]
          simp [tokenizeFrom, visible]
      | cons second words =>
          have space : isWhitespace ' ' = true := by decide
          simp only [List.map_cons, spaced_cons_cons] at others ⊢
          rw [parseCommand, tokenizeFrom_quoteSingle inner, List.nil_append, tokenizeFrom]
          simp only [Bool.false_eq_true, if_false, space, visible, and_self, if_true]
          rw [if_neg (by decide), if_neg (by decide)]
          exact congrArg _ others

theorem spaced_quoteSingle (first : Text) (words : List Text) :
    ∃ middle, spaced ((first :: words).map quoteSingle) =
      singleQuote :: (middle ++ [singleQuote]) := by
  induction words generalizing first with
  | nil => exact ⟨first, by simp [quoteSingle]⟩
  | cons second words ih =>
      obtain ⟨middle, others⟩ := ih second
      refine ⟨first ++ singleQuote :: ' ' :: singleQuote :: middle, ?_⟩
      simp only [List.map_cons, spaced_cons_cons] at others ⊢
      rw [others]
      simp [quoteSingle]

/-- A line of single-quoted words is one command with these words. -/
theorem parseLine_quoteSingle (unicode : Unicode) (env : Environment) {words : List Text}
    (nonempty : words ≠ []) (quotable : ∀ word ∈ words, Quotable word) :
    parseLine (env.expandVariables unicode (spaced (words.map quoteSingle))) = [[words]] := by
  have copied : Copied unicode env (spaced (words.map quoteSingle)) := by
    apply copied_spaced
    intro piece pieceMem
    obtain ⟨word, wordMem, rfl⟩ := List.mem_map.mp pieceMem
    exact copied_quoteSingle (quotable word wordMem).inner unicode env
  have trimmed : closeSegment (spaced (words.map quoteSingle)) =
      [spaced (words.map quoteSingle)] := by
    cases words with
    | nil => exact absurd rfl nonempty
    | cons first words =>
        obtain ⟨middle, shape⟩ := spaced_quoteSingle first words
        have same := trim_enclosed (by decide : isWhitespace singleQuote = false)
          (by decide : isWhitespace singleQuote = false) middle
        rw [closeSegment, shape, same, if_neg (List.cons_ne_nil _ _)]
  have segments {separator : Char} (notSpace : separator ≠ ' ') :
      splitSegmentsFrom separator [] none false (spaced (words.map quoteSingle)) =
        [spaced (words.map quoteSingle)] := by
    rw [(splitsTo_spaced notSpace fun word wordMem =>
      splitsTo_quoteSingle (quotable word wordMem).inner).segments_eq, trimmed]
  rw [copied.expandVariables_eq, parseLine, splitSequences, segments (by decide),
    List.map_singleton, parsePipeline, segments (by decide), List.map_singleton,
    parseCommand_quoteSingle quotable]

/-- `'a b' 'c;|$x'` -/
theorem parseLine_quoteSingle_two :
    parseLine (Environment.expandVariables asciiOnly (fun _ => none)
      (spaced (["a b".toList, "c;|$x".toList].map quoteSingle))) =
        [[["a b".toList, "c;|$x".toList]]] :=
  parseLine_quoteSingle asciiOnly _ (by decide) (by decide)

/-- The characters of the pieces that satisfy a test. -/
def total (test : Char → Bool) (pieces : List Text) : Nat :=
  (pieces.map fun piece => piece.countP test).sum

@[simp]
theorem total_nil (test : Char → Bool) : total test [] = 0 :=
  rfl

@[simp]
theorem total_cons (test : Char → Bool) (piece : Text) (pieces : List Text) :
    total test (piece :: pieces) = piece.countP test + total test pieces :=
  rfl

@[simp]
theorem total_append (test : Char → Bool) (first second : List Text) :
    total test (first ++ second) = total test first + total test second := by
  simp [total]

section Counting

variable {test : Char → Bool} (blank : ∀ ch, isWhitespace ch = true → test ch = false)

include blank

theorem countP_dropWhile (text : Text) :
    (text.dropWhile isWhitespace).countP test = text.countP test := by
  induction text with
  | nil => rfl
  | cons ch text ih =>
      by_cases isBlank : isWhitespace ch = true
      · rw [List.dropWhile_cons_of_pos isBlank, ih,
          List.countP_cons_of_neg (by simp [blank ch isBlank])]
      · rw [List.dropWhile_cons_of_neg isBlank]

theorem countP_trim (text : Text) : (trim text).countP test = text.countP test := by
  rw [trim, List.rdropWhile, List.countP_reverse, countP_dropWhile blank, List.countP_reverse,
    countP_dropWhile blank]

theorem total_closeSegment (current : Text) :
    total test (closeSegment current) = current.countP test := by
  rw [closeSegment]
  split
  · next empty => rw [← countP_trim blank, empty, total_nil, List.countP_nil]
  · rw [total_cons, countP_trim blank, total_nil, Nat.add_zero]

theorem total_splitSegmentsFrom_le (separator : Char) (current : Text) (inQuote : Option Char)
    (escape : Bool) (chars : Text) :
    total test (splitSegmentsFrom separator current inQuote escape chars) ≤
      current.countP test + chars.countP test := by
  induction chars generalizing current inQuote escape with
  | nil => simp [splitSegmentsFrom, total_closeSegment blank]
  | cons ch chars ih =>
      have pushed (quote : Option Char) (escaped : Bool) :
          total test (splitSegmentsFrom separator (current ++ [ch]) quote escaped chars) ≤
            current.countP test + (ch :: chars).countP test := by
        have rest := ih (current ++ [ch]) quote escaped
        simp only [List.countP_append, List.countP_cons, List.countP_nil] at rest ⊢
        omega
      have dropped : total test (splitSegmentsFrom separator current inQuote true chars) ≤
          current.countP test + (ch :: chars).countP test := by
        have rest := ih current inQuote true
        rw [List.countP_cons]
        omega
      have closed : total test (closeSegment current ++
          splitSegmentsFrom separator [] none false chars) ≤
            current.countP test + (ch :: chars).countP test := by
        have rest := ih [] none false
        rw [total_append, total_closeSegment blank, List.countP_cons]
        simp only [List.countP_nil] at rest
        omega
      rw [splitSegmentsFrom]
      split_ifs
      · exact pushed _ _
      · exact dropped
      · exact pushed _ _
      · exact pushed _ _
      · exact pushed _ _
      · exact closed
      · exact pushed _ _

/-- Characters other than backslashes and separators are kept. -/
theorem total_splitSegmentsFrom (separator : Char) (notSeparator : test separator = false)
    (notBackslash : test backslash = false) (current : Text) (inQuote : Option Char)
    (escape : Bool) (chars : Text) :
    total test (splitSegmentsFrom separator current inQuote escape chars) =
      current.countP test + chars.countP test := by
  induction chars generalizing current inQuote escape with
  | nil => simp [splitSegmentsFrom, total_closeSegment blank]
  | cons ch chars ih =>
      have pushed : (current ++ [ch]).countP test + chars.countP test =
          current.countP test + (ch :: chars).countP test := by
        simp only [List.countP_append, List.countP_cons, List.countP_nil]
        omega
      rw [splitSegmentsFrom]
      split_ifs with escaped isBackslash isQuote closes opens isSeparator
      · rw [ih, pushed]
      · rw [ih, isBackslash, List.countP_cons_of_neg (by simp [notBackslash])]
      · rw [ih, pushed]
      · rw [ih, pushed]
      · rw [ih, pushed]
      · rw [total_append, total_closeSegment blank, ih, isSeparator.1,
          List.countP_cons_of_neg (by simp [notSeparator]), List.countP_nil, Nat.zero_add]
      · rw [ih, pushed]

/-- A backslash that is met outside of an escape is lost. -/
theorem total_splitSegmentsFrom_lt_of_backslash (separator : Char)
    (isBackslash : test backslash = true) (current : Text) (inQuote : Option Char) {chars : Text}
    (present : backslash ∈ chars) :
    total test (splitSegmentsFrom separator current inQuote false chars) <
      current.countP test + chars.countP test := by
  induction chars generalizing current inQuote with
  | nil => exact absurd present List.not_mem_nil
  | cons ch chars ih =>
      by_cases same : ch = backslash
      · have rest := total_splitSegmentsFrom_le blank separator current inQuote true chars
        rw [same, splitSegmentsFrom, if_neg (by decide), if_pos rfl,
          List.countP_cons_of_pos isBackslash]
        omega
      · have later : backslash ∈ chars := by
          rcases List.mem_cons.mp present with here | later
          · exact absurd here.symm same
          · exact later
        have pushed (quote : Option Char) :
            total test (splitSegmentsFrom separator (current ++ [ch]) quote false chars) <
              current.countP test + (ch :: chars).countP test := by
          have rest := ih (current ++ [ch]) quote later
          simp only [List.countP_append, List.countP_cons, List.countP_nil] at rest ⊢
          omega
        have closed := ih [] none later
        rw [splitSegmentsFrom, if_neg (by decide), if_neg same]
        split_ifs
        · exact pushed _
        · exact pushed _
        · exact pushed _
        · rw [total_append, total_closeSegment blank, List.countP_cons]
          simp only [List.countP_nil] at closed
          omega
        · exact pushed _

/-- A separator outside of quotes is lost. -/
theorem total_splitSegmentsFrom_lt_of_separator {separator : Char}
    (isSeparator : test separator = true) (current : Text) {chars : Text}
    (unquoted : ∀ ch ∈ chars, ch ≠ backslash ∧ ch ≠ singleQuote ∧ ch ≠ doubleQuote)
    (present : separator ∈ chars) :
    total test (splitSegmentsFrom separator current none false chars) <
      current.countP test + chars.countP test := by
  induction chars generalizing current with
  | nil => exact absurd present List.not_mem_nil
  | cons ch chars ih =>
      obtain ⟨notBackslash, notSingle, notDouble⟩ := unquoted ch (by simp)
      rw [splitSegmentsFrom, if_neg (by decide), if_neg notBackslash,
        if_neg (by simp [notSingle, notDouble])]
      by_cases same : ch = separator
      · have rest := total_splitSegmentsFrom_le blank separator [] none false chars
        rw [if_pos ⟨same, rfl⟩, total_append, total_closeSegment blank, same,
          List.countP_cons_of_pos isSeparator]
        simp only [List.countP_nil] at rest
        omega
      · have later : separator ∈ chars := by
          rcases List.mem_cons.mp present with here | later
          · exact absurd here.symm same
          · exact later
        have rest := ih (current ++ [ch]) (fun other otherMem => unquoted other (by simp [otherMem]))
          later
        rw [if_neg (by simp [same])]
        simp only [List.countP_append, List.countP_cons, List.countP_nil] at rest ⊢
        omega

end Counting

def isVisible (ch : Char) : Bool := !isWhitespace ch

theorem isVisible_blank (ch : Char) (isBlank : isWhitespace ch = true) : isVisible ch = false := by
  simp [isVisible, isBlank]

theorem isVisible_unescape {ch : Char} (visible : isVisible (unescape ch) = true) :
    isVisible ch = true := by
  rw [unescape] at visible
  split_ifs at visible with isN isT isR
  · exact absurd visible (by decide)
  · exact absurd visible (by decide)
  · exact absurd visible (by decide)
  · exact visible

theorem countP_unescape_le (current : Text) (ch : Char) (chars : Text) :
    (current ++ [unescape ch]).countP isVisible + chars.countP isVisible ≤
      current.countP isVisible + (ch :: chars).countP isVisible := by
  simp only [List.countP_append, List.countP_cons, List.countP_nil]
  by_cases visible : isVisible (unescape ch) = true
  · rw [if_pos visible, if_pos (isVisible_unescape visible)]
    omega
  · rw [if_neg visible]
    omega

theorem total_tokenizeFrom_le (current : Text) (inQuote : Option Char) (escape : Bool)
    (chars : Text) :
    total isVisible (tokenizeFrom current inQuote escape chars) ≤
      current.countP isVisible + chars.countP isVisible := by
  induction chars generalizing current inQuote escape with
  | nil =>
      rw [tokenizeFrom]
      split_ifs <;> simp
  | cons ch chars ih =>
      have dropped (quote : Option Char) (escaped : Bool) :
          total isVisible (tokenizeFrom current quote escaped chars) ≤
            current.countP isVisible + (ch :: chars).countP isVisible := by
        have rest := ih current quote escaped
        rw [List.countP_cons]
        omega
      have pushed : total isVisible (tokenizeFrom (current ++ [ch]) inQuote false chars) ≤
          current.countP isVisible + (ch :: chars).countP isVisible := by
        have rest := ih (current ++ [ch]) inQuote false
        simp only [List.countP_append, List.countP_cons, List.countP_nil] at rest ⊢
        omega
      have fresh := ih [] none false
      rw [tokenizeFrom]
      split_ifs
      · exact (ih _ _ _).trans (countP_unescape_le current ch chars)
      · exact dropped _ _
      · exact dropped _ _
      · exact dropped _ _
      · exact pushed
      · rw [List.countP_cons]
        simp only [List.countP_nil] at fresh
        omega
      · rw [total_cons, List.countP_cons]
        simp only [List.countP_nil] at fresh
        omega
      · exact pushed

/-- A backslash, and a quote outside of quotes, is lost. -/
theorem total_tokenizeFrom_lt (current : Text) {chars : Text}
    (present : ∃ ch ∈ chars, ch = backslash ∨ ch = doubleQuote ∨ ch = singleQuote) :
    total isVisible (tokenizeFrom current none false chars) <
      current.countP isVisible + chars.countP isVisible := by
  induction chars generalizing current with
  | nil =>
      obtain ⟨ch, chMem, _⟩ := present
      exact absurd chMem List.not_mem_nil
  | cons ch chars ih =>
      rw [tokenizeFrom, if_neg (by decide)]
      by_cases isBackslash : ch = backslash
      · have rest := total_tokenizeFrom_le current none true chars
        rw [if_pos isBackslash, isBackslash, List.countP_cons_of_pos (by decide)]
        omega
      · rw [if_neg isBackslash]
        by_cases isQuote : ch = doubleQuote ∨ ch = singleQuote
        · have rest := total_tokenizeFrom_le current (some ch) false chars
          have visible : isVisible ch = true := by
            rcases isQuote with rfl | rfl <;> decide
          rw [if_pos isQuote, if_neg (by simp), if_pos rfl, List.countP_cons_of_pos visible]
          omega
        · have later : ∃ ch ∈ chars, ch = backslash ∨ ch = doubleQuote ∨ ch = singleQuote := by
            obtain ⟨other, otherMem, special⟩ := present
            rcases List.mem_cons.mp otherMem with rfl | otherMem
            · exact absurd special (by simp [isBackslash, isQuote])
            · exact ⟨other, otherMem, special⟩
          have pushed := ih (current ++ [ch]) later
          have fresh := ih [] later
          simp only [List.countP_append, List.countP_cons, List.countP_nil] at pushed fresh
          rw [if_neg isQuote]
          split_ifs
          · rw [List.countP_cons]
            omega
          · rw [total_cons, List.countP_cons]
            omega
          · rw [List.countP_cons]
            omega

/-- Tokens of a text without backslashes and quotes have no white space. -/
theorem tokenizeFrom_visible {current chars : Text} (visible : ∀ ch ∈ current, isVisible ch = true)
    (unquoted : ∀ ch ∈ chars, ch ≠ backslash ∧ ch ≠ singleQuote ∧ ch ≠ doubleQuote) :
    ∀ token ∈ tokenizeFrom current none false chars, ∀ ch ∈ token, isVisible ch = true := by
  induction chars generalizing current with
  | nil =>
      intro token tokenMem
      rw [tokenizeFrom] at tokenMem
      split_ifs at tokenMem
      · exact absurd tokenMem List.not_mem_nil
      · rw [List.mem_singleton.mp tokenMem]
        exact visible
  | cons ch chars ih =>
      obtain ⟨notBackslash, notSingle, notDouble⟩ := unquoted ch (by simp)
      have rest : ∀ other ∈ chars, other ≠ backslash ∧ other ≠ singleQuote ∧ other ≠ doubleQuote :=
        fun other otherMem => unquoted other (by simp [otherMem])
      rw [tokenizeFrom, if_neg (by decide), if_neg notBackslash,
        if_neg (by simp [notSingle, notDouble])]
      intro token tokenMem
      split_ifs at tokenMem with isBlank empty
      · exact ih (by simp) rest token tokenMem
      · rcases List.mem_cons.mp tokenMem with rfl | tokenMem
        · exact visible
        · exact ih (by simp) rest token tokenMem
      · refine ih ?_ rest token tokenMem
        intro other otherMem
        rcases List.mem_append.mp otherMem with otherMem | otherMem
        · exact visible other otherMem
        · rw [List.mem_singleton.mp otherMem, isVisible]
          simpa using isBlank

/-- The characters that a line writes behind a backslash. -/
def isSpecial (ch : Char) : Bool :=
  isWhitespace ch || ch == singleQuote || ch == doubleQuote || ch == backslash || ch == ';' ||
    ch == '|' || ch == '$'

def escapeWord (word : Text) : Text :=
  word.flatMap fun ch => if isSpecial ch then [backslash, ch] else [ch]

theorem escapeWord_cons (ch : Char) (word : Text) :
    escapeWord (ch :: word) = (if isSpecial ch then [backslash, ch] else [ch]) ++ escapeWord word :=
  List.flatMap_cons

theorem not_special {ch : Char} (ordinary : ¬ isSpecial ch = true) :
    ch ≠ backslash ∧ ch ≠ singleQuote ∧ ch ≠ doubleQuote ∧ ch ≠ ';' ∧ ch ≠ '$' := by
  simp only [isSpecial, Bool.or_eq_true, beq_iff_eq, not_or] at ordinary
  obtain ⟨⟨⟨⟨⟨⟨_, notSingle⟩, notDouble⟩, notBackslash⟩, notSemicolon⟩, _⟩, notDollar⟩ := ordinary
  exact ⟨notBackslash, notSingle, notDouble, notSemicolon, notDollar⟩

theorem copied_escapeWord (unicode : Unicode) (env : Environment) (word : Text) :
    Copied unicode env (escapeWord word) := by
  induction word with
  | nil =>
      intro rounds rest
      simp [escapeWord]
  | cons ch word ih =>
      have copiesFirst : Copied unicode env (if isSpecial ch then [backslash, ch] else [ch]) := by
        split_ifs with special
        · intro rounds rest
          have two : [backslash, ch].length + rounds = (rounds + 1) + 1 := Nat.add_comm _ _
          rw [two, List.cons_append, List.singleton_append, expandFrom, if_neg (by decide),
            if_pos (by decide), expandFrom, if_pos rfl]
          rfl
        · obtain ⟨notBackslash, notSingle, notDouble, _, notDollar⟩ := not_special special
          apply copied_of_literal
          intro other otherMem
          rw [List.mem_singleton.mp otherMem]
          exact ⟨notBackslash, notSingle, notDouble, notDollar⟩
      rw [escapeWord_cons]
      exact copiesFirst.append ih

/-- The splitting into sequences drops the backslashes. -/
theorem splitsTo_escapeWord (word : Text) : SplitsTo ';' (escapeWord word) word := by
  induction word with
  | nil =>
      intro current rest
      simp [escapeWord]
  | cons ch word ih =>
      have splitsFirst : SplitsTo ';' (if isSpecial ch then [backslash, ch] else [ch]) [ch] := by
        split_ifs with special
        · intro current rest
          rw [List.cons_append, List.singleton_append, splitSegmentsFrom, if_neg (by decide),
            if_pos rfl, splitSegmentsFrom, if_pos rfl]
        · obtain ⟨notBackslash, notSingle, notDouble, notSemicolon, _⟩ := not_special special
          apply splitsTo_plain
          intro other otherMem
          rw [List.mem_singleton.mp otherMem]
          exact ⟨notBackslash, notSingle, notDouble, notSemicolon⟩
      rw [escapeWord_cons]
      exact splitsFirst.append ih

theorem splitSequences_escapeWord (words : List Text) :
    splitSequences (spaced (words.map escapeWord)) = closeSegment (spaced words) := by
  have splits : SplitsTo ';' (spaced (words.map escapeWord)) (spaced (words.map id)) :=
    splitsTo_spaced (by decide) fun word _ => splitsTo_escapeWord word
  rw [List.map_id] at splits
  exact splits.segments_eq

theorem expandVariables_escapeWord (unicode : Unicode) (env : Environment) (words : List Text) :
    env.expandVariables unicode (spaced (words.map escapeWord)) =
      spaced (words.map escapeWord) := by
  refine Copied.expandVariables_eq (copied_spaced ?_)
  intro piece pieceMem
  obtain ⟨word, _, rfl⟩ := List.mem_map.mp pieceMem
  exact copied_escapeWord unicode env word

theorem countP_spaced {test : Char → Bool} (notSpace : test ' ' = false) (words : List Text) :
    (spaced words).countP test = total test words := by
  induction words with
  | nil => rfl
  | cons first words ih =>
      cases words with
      | nil => simp
      | cons second words =>
          rw [spaced_cons_cons, List.countP_append,
            List.countP_cons_of_neg (by simp [notSpace]), ih, ← total_cons]

theorem total_pos {test : Char → Bool} {words : List Text} {word : Text} {ch : Char}
    (wordMem : word ∈ words) (chMem : ch ∈ word) (holds : test ch = true) :
    0 < total test words := by
  have inWord : 0 < word.countP test := List.countP_pos_iff.mpr ⟨ch, chMem, holds⟩
  exact lt_of_lt_of_le inWord (List.single_le_sum (by simp) _ (List.mem_map_of_mem wordMem))

/-- A special character that the splitting into commands or the tokenizer would
take for itself. -/
def isStructure (ch : Char) : Bool :=
  ch == backslash || ch == singleQuote || ch == doubleQuote || ch == '|'

section SingleCommand

variable {words : List Text} {segment : Text}
  (isSegment : splitSegmentsFrom '|' [] none false (trim (spaced words)) = [segment])
  (tokens : parseCommand segment = words)

theorem countP_line (words : List Text) :
    (trim (spaced words)).countP isVisible = total isVisible words := by
  rw [countP_trim isVisible_blank, countP_spaced (by decide)]

include isSegment in
theorem countP_segment_le : segment.countP isVisible ≤ total isVisible words := by
  have segmentLe := total_splitSegmentsFrom_le isVisible_blank '|' [] none false
    (trim (spaced words))
  rw [isSegment, total_cons, total_nil, countP_line] at segmentLe
  simpa using segmentLe

include tokens in
theorem le_countP_segment : total isVisible words ≤ segment.countP isVisible := by
  have tokensLe := total_tokenizeFrom_le [] none false segment
  rw [show tokenizeFrom [] none false segment = words from tokens] at tokensLe
  simpa using tokensLe

include isSegment tokens

/-! Nothing visible is lost, so no stage has met a character that it drops. -/

theorem backslash_not_mem_line : backslash ∉ trim (spaced words) := by
  intro present
  have lost := total_splitSegmentsFrom_lt_of_backslash isVisible_blank '|' (by decide) [] none
    present
  rw [isSegment, total_cons, total_nil, countP_line] at lost
  simp only [List.countP_nil, Nat.zero_add, Nat.add_zero] at lost
  have := le_countP_segment tokens
  omega

theorem segment_unquoted :
    ∀ ch ∈ segment, ch ≠ backslash ∧ ch ≠ singleQuote ∧ ch ≠ doubleQuote := by
  by_contra quoted
  have present : ∃ ch ∈ segment, ch = backslash ∨ ch = doubleQuote ∨ ch = singleQuote := by
    by_contra none
    apply quoted
    intro ch chMem
    have differs : ¬ (ch = backslash ∨ ch = doubleQuote ∨ ch = singleQuote) :=
      fun special => none ⟨ch, chMem, special⟩
    simp only [not_or] at differs
    exact ⟨differs.1, differs.2.2, differs.2.1⟩
  have lost := total_tokenizeFrom_lt [] present
  rw [show tokenizeFrom [] none false segment = words from tokens] at lost
  simp only [List.countP_nil, Nat.zero_add] at lost
  have := countP_segment_le isSegment
  omega

/-- The segment keeps every quote of the line, and has none. -/
theorem quote_not_mem_line {quote : Char} (isQuote : quote = singleQuote ∨ quote = doubleQuote) :
    quote ∉ trim (spaced words) := by
  intro present
  have blank : ∀ ch, isWhitespace ch = true → (ch == quote) = false := by
    intro ch isBlank
    rw [beq_eq_false_iff_ne]
    rintro rfl
    rcases isQuote with rfl | rfl
    · exact absurd isBlank (by decide)
    · exact absurd isBlank (by decide)
  have kept := total_splitSegmentsFrom blank '|'
    (by rcases isQuote with rfl | rfl <;> decide) (by rcases isQuote with rfl | rfl <;> decide)
    [] none false (trim (spaced words))
  rw [isSegment, total_cons, total_nil, List.countP_nil, Nat.zero_add, Nat.add_zero] at kept
  have counted : 0 < (trim (spaced words)).countP (· == quote) :=
    List.countP_pos_iff.mpr ⟨quote, present, by simp⟩
  rw [← kept, List.countP_pos_iff] at counted
  obtain ⟨ch, chMem, same⟩ := counted
  obtain ⟨_, notSingle, notDouble⟩ := segment_unquoted isSegment tokens ch chMem
  rcases isQuote with rfl | rfl
  · exact notSingle (by simpa using same)
  · exact notDouble (by simpa using same)

theorem pipe_not_mem_line : '|' ∉ trim (spaced words) := by
  intro present
  have unquoted : ∀ ch ∈ trim (spaced words),
      ch ≠ backslash ∧ ch ≠ singleQuote ∧ ch ≠ doubleQuote := by
    intro ch chMem
    refine ⟨?_, ?_, ?_⟩
    · rintro rfl
      exact backslash_not_mem_line isSegment tokens chMem
    · rintro rfl
      exact quote_not_mem_line isSegment tokens (Or.inl rfl) chMem
    · rintro rfl
      exact quote_not_mem_line isSegment tokens (Or.inr rfl) chMem
  have lost := total_splitSegmentsFrom_lt_of_separator isVisible_blank
    (by decide : isVisible '|' = true) [] unquoted present
  rw [isSegment, total_cons, total_nil, countP_line] at lost
  simp only [List.countP_nil, Nat.zero_add, Nat.add_zero] at lost
  have := le_countP_segment tokens
  omega

theorem total_isStructure_eq_zero : total isStructure words = 0 := by
  rw [← countP_spaced (by decide), ← countP_trim, List.countP_eq_zero]
  · intro ch chMem isStructural
    simp only [isStructure, Bool.or_eq_true, beq_iff_eq] at isStructural
    rcases isStructural with ((rfl | rfl) | rfl) | rfl
    · exact backslash_not_mem_line isSegment tokens chMem
    · exact quote_not_mem_line isSegment tokens (Or.inl rfl) chMem
    · exact quote_not_mem_line isSegment tokens (Or.inr rfl) chMem
    · exact pipe_not_mem_line isSegment tokens chMem
  · intro ch isBlank
    rw [Bool.eq_false_iff]
    intro isStructural
    simp only [isStructure, Bool.or_eq_true, beq_iff_eq] at isStructural
    rcases isStructural with ((rfl | rfl) | rfl) | rfl <;> exact absurd isBlank (by decide)

end SingleCommand

/-- Words that reach the tokenizer of a single command unchanged have no
structural characters and no white space. -/
theorem plain_of_parsePipeline {words : List Text}
    (parsed : parsePipeline (trim (spaced words)) = [words]) :
    ∀ word ∈ words, ∀ ch ∈ word, Plain ch ∧ ch ≠ '|' := by
  obtain ⟨segment, isSegment, tokens⟩ : ∃ segment,
      splitSegmentsFrom '|' [] none false (trim (spaced words)) = [segment] ∧
        parseCommand segment = words := by
    rw [parsePipeline] at parsed
    exact List.map_eq_singleton_iff.mp parsed
  have noStructure := total_isStructure_eq_zero isSegment tokens
  have visible := @tokenizeFrom_visible [] segment (by simp) (segment_unquoted isSegment tokens)
  rw [show tokenizeFrom [] none false segment = words from tokens] at visible
  intro word wordMem ch chMem
  have ordinary : ¬ isStructure ch = true := by
    intro isStructural
    have counted := total_pos wordMem chMem isStructural
    omega
  simp only [isStructure, Bool.or_eq_true, beq_iff_eq, not_or] at ordinary
  obtain ⟨⟨⟨notBackslash, notSingle⟩, notDouble⟩, notPipe⟩ := ordinary
  refine ⟨⟨?_, notBackslash, notSingle, notDouble⟩, notPipe⟩
  simpa [isVisible] using visible word wordMem ch chMem

theorem splitsTo_spaced_plain {words : List Text}
    (plain : ∀ word ∈ words, ∀ ch ∈ word, Plain ch ∧ ch ≠ '|') :
    SplitsTo '|' (spaced words) (spaced words) := by
  have splits : SplitsTo '|' (spaced (words.map id)) (spaced (words.map id)) := by
    apply splitsTo_spaced (by decide)
    intro word wordMem
    apply splitsTo_plain
    intro ch chMem
    obtain ⟨⟨_, notBackslash, notSingle, notDouble⟩, notPipe⟩ := plain word wordMem ch chMem
    exact ⟨notBackslash, notSingle, notDouble, notPipe⟩
  rwa [List.map_id] at splits

/-- A line of escaped words is one command with these words exactly when no
word has white space, quotes, backslashes or bars. -/
theorem parseLine_escapeWord_iff (unicode : Unicode) (env : Environment) {words : List Text}
    (nonempty : words ≠ []) (wordsNonempty : ∀ word ∈ words, word ≠ []) :
    parseLine (env.expandVariables unicode (spaced (words.map escapeWord))) = [[words]] ↔
      ∀ word ∈ words, ∀ ch ∈ word, Plain ch ∧ ch ≠ '|' := by
  rw [expandVariables_escapeWord, parseLine, splitSequences_escapeWord]
  constructor
  · intro parsed
    rw [closeSegment] at parsed
    split at parsed
    · cases parsed
    · exact plain_of_parsePipeline (List.singleton_inj.mp parsed)
  · intro plain
    have isWords : ∀ word ∈ words, IsWord word := fun word wordMem =>
      ⟨wordsNonempty word wordMem, fun ch chMem => (plain word wordMem ch chMem).1⟩
    have closed : closeSegment (spaced words) = [spaced words] := by
      cases words with
      | nil => exact absurd rfl nonempty
      | cons first words =>
          rw [closeSegment, trim_spaced isWords,
            if_neg (spaced_ne_nil (wordsNonempty first (by simp)))]
    rw [closed, List.map_singleton, parsePipeline, (splitsTo_spaced_plain plain).segments_eq,
      closed, List.map_singleton, parseCommand_spaced isWords]

/-- `echo a\;b` -/
theorem parseLine_escapeWord_iff_semicolon :
    parseLine (Environment.expandVariables asciiOnly (fun _ => none)
        (spaced (["echo".toList, "a;b".toList].map escapeWord))) =
          [[["echo".toList, "a;b".toList]]] ↔
      ∀ word ∈ ["echo".toList, "a;b".toList], ∀ ch ∈ word, Plain ch ∧ ch ≠ '|' :=
  parseLine_escapeWord_iff asciiOnly _ (by decide) (by decide)

/-- `echo a\ b` has two arguments. -/
theorem not_parseLine_escapeWord_space :
    parseLine (Environment.expandVariables asciiOnly (fun _ => none)
      (spaced (["echo".toList, "a b".toList].map escapeWord))) ≠
        [[["echo".toList, "a b".toList]]] := by
  rw [expandVariables_escapeWord]
  decide +kernel

end Shell

end OSWorkspace
