import OSWorkspace.ShellCommands
import OSWorkspace.ShellPrograms

/-!
# Commands at the prompt and in scripts

At the prompt a line is expanded, parsed and executed pipeline by pipeline.  A
script expands a statement to find its keyword and hands the expanded text to
the same function, which expands it again.
-/

namespace OSWorkspace

namespace Shell

open Environment

section Executing

variable {σ : Type}

/-- The execution of a pipeline by its argument lists: whether it asks to exit,
the variables behind it and the state of the rest of the system. -/
abbrev ExecPipeline (σ : Type) := List (List Text) → Environment × σ → Bool × Environment × σ

/-- Whether a pipeline has something to execute. -/
def isIdle (pipeline : List (List Text)) : Bool := pipeline == [] || pipeline == [[]]

/-- Execute pipelines until one asks to exit. -/
def execPipelines (exec : ExecPipeline σ) :
    List (List (List Text)) → Environment × σ → Bool × Environment × σ
  | [], state => (false, state)
  | pipeline :: pipelines, state =>
      if isIdle pipeline then execPipelines exec pipelines state
      else
        match exec pipeline state with
        | (true, after) => (true, after)
        | (false, after) => execPipelines exec pipelines after

/-- Expand, parse and execute a line. -/
def evalStmt (unicode : Unicode) (exec : ExecPipeline σ) : EvalStmt σ := fun stmt state =>
  execPipelines exec (parseLine (state.1.expandVariables unicode stmt)) state

/-- The argument lists that an expanded line executes. -/
def commands (expanded : Text) : List (List (List Text)) :=
  (parseLine expanded).filter fun pipeline => !isIdle pipeline

theorem execPipelines_filter (exec : ExecPipeline σ) (pipelines : List (List (List Text)))
    (state : Environment × σ) :
    execPipelines exec (pipelines.filter fun pipeline => !isIdle pipeline) state =
      execPipelines exec pipelines state := by
  induction pipelines generalizing state with
  | nil => rfl
  | cons pipeline pipelines ih =>
      by_cases idle : isIdle pipeline = true
      · rw [List.filter_cons_of_neg (by simp [idle]), ih, execPipelines, if_pos idle]
      · rw [List.filter_cons_of_pos (by simp [idle]), execPipelines, execPipelines,
          if_neg idle, if_neg idle]
        simp only [ih]

theorem evalStmt_eq (unicode : Unicode) (exec : ExecPipeline σ) (stmt : Text)
    (state : Environment × σ) :
    evalStmt unicode exec stmt state =
      execPipelines exec (commands (state.1.expandVariables unicode stmt)) state :=
  (execPipelines_filter exec _ state).symm

/-- An execution that records its argument lists. -/
def recordPipeline : ExecPipeline (List (List (List Text))) := fun pipeline state =>
  (false, state.1, state.2 ++ [pipeline])

theorem execPipelines_record {pipelines : List (List (List Text))}
    (busy : ∀ pipeline ∈ pipelines, isIdle pipeline = false)
    (state : Environment × List (List (List Text))) :
    execPipelines recordPipeline pipelines state = (false, state.1, state.2 ++ pipelines) := by
  induction pipelines generalizing state with
  | nil => simp [execPipelines]
  | cons pipeline pipelines ih =>
      have notIdle := busy pipeline (by simp)
      have others := ih (fun other otherMem => busy other (by simp [otherMem]))
        (state.1, state.2 ++ [pipeline])
      rw [execPipelines, if_neg (by simp [notIdle]), recordPipeline]
      simpa using others

theorem evalStmt_record (unicode : Unicode) (stmt : Text) (env : Environment) :
    evalStmt unicode recordPipeline stmt (env, []) =
      (false, env, commands (env.expandVariables unicode stmt)) := by
  have busy : ∀ pipeline ∈ commands (env.expandVariables unicode stmt),
      isIdle pipeline = false := by
    intro pipeline pipelineMem
    simpa using (List.mem_filter.mp pipelineMem).2
  simpa using (evalStmt_eq unicode recordPipeline stmt (env, [])).trans
    (execPipelines_record busy (env, []))

end Executing

/-- A piece of a text: a character that is copied or a variable by its name. -/
inductive Piece where
  | copied (ch : Char)
  | reference (name : Text)
deriving DecidableEq

namespace Piece

def value (env : Environment) : Piece → Text
  | copied ch => [ch]
  | reference name => (env name).getD []

def name? : Piece → Option Text
  | copied _ => none
  | reference name => some name

end Piece

/-- What is open behind a part of a text. -/
structure Quoting where
  inSingle : Bool
  inDouble : Bool
  escape : Bool
deriving DecidableEq

/-- Nothing is open. -/
def unquoted : Quoting := ⟨false, false, false⟩

section Pieces

variable (unicode : Unicode)

/-- The piece behind a `$` that is read as a reference, and the rest. -/
def readReference (chars : Text) : Piece × Text :=
  if chars.head? = some '?' then (.reference ['?'], chars.tail)
  else if chars.head? = some '!' then (.reference ['!'], chars.tail)
  else if chars.head? = some '{' then
    (.reference (chars.tail.takeWhile (· != '}')), (chars.tail.dropWhile (· != '}')).tail)
  else if chars.takeWhile (isNameChar unicode) = [] then (.copied '$', chars)
  else (.reference (chars.takeWhile (isNameChar unicode)), chars.dropWhile (isNameChar unicode))

/-- The first piece of a text, what is open behind it, and the rest. -/
def readPiece (quoting : Quoting) (ch : Char) (chars : Text) : Piece × Quoting × Text :=
  if quoting.escape then (.copied ch, { quoting with escape := false }, chars)
  else if ch = backslash ∧ quoting.inSingle = false then
    (.copied ch, { quoting with escape := true }, chars)
  else if ch = singleQuote ∧ quoting.inDouble = false then
    (.copied ch, { quoting with inSingle := !quoting.inSingle }, chars)
  else if ch = doubleQuote ∧ quoting.inSingle = false then
    (.copied ch, { quoting with inDouble := !quoting.inDouble }, chars)
  else if ch ≠ '$' then (.copied ch, quoting, chars)
  else if quoting.inSingle then (.copied ch, quoting, chars)
  else ((readReference unicode chars).1, quoting, (readReference unicode chars).2)

/-- The pieces of a text; each round takes one. -/
def piecesFrom : (rounds : Nat) → Quoting → Text → List Piece
  | 0, _, _ => []
  | _ + 1, _, [] => []
  | rounds + 1, quoting, ch :: chars =>
      let (piece, behind, rest) := readPiece unicode quoting ch chars
      piece :: piecesFrom rounds behind rest

def pieces (text : Text) : List Piece := piecesFrom unicode text.length unquoted text

/-- The variables that a text refers to, one for each `$` that is neither
escaped nor in single quotes and has a name behind it. -/
def names (text : Text) : List Text := (pieces unicode text).filterMap Piece.name?

/-- A text with the values of its variables put in. -/
def filled (env : Environment) (text : Text) : Text :=
  (pieces unicode text).flatMap (Piece.value env)

/-- The white space around a statement is not part of a name, and with the
values put in the statement refers to no variable. -/
structure Inert (env : Environment) (stmt : Text) : Prop where
  trimmed : names unicode (trim stmt) = names unicode stmt
  settled : names unicode (filled unicode env (trim stmt)) = []

end Pieces

section Reading

variable (unicode : Unicode)

/-- A character is copied whatever is behind it, or it is a `$` that is read as a
reference. -/
theorem readPiece_cases (quoting : Quoting) (ch : Char) :
    (∃ behind, ∀ chars, readPiece unicode quoting ch chars = (.copied ch, behind, chars)) ∨
      ch = '$' ∧ ∀ chars, readPiece unicode quoting ch chars =
        ((readReference unicode chars).1, quoting, (readReference unicode chars).2) := by
  by_cases escaped : quoting.escape = true
  · exact Or.inl ⟨{ quoting with escape := false }, fun chars => by rw [readPiece, if_pos escaped]⟩
  by_cases isBackslash : ch = backslash ∧ quoting.inSingle = false
  · exact Or.inl ⟨{ quoting with escape := true }, fun chars => by
      rw [readPiece, if_neg escaped, if_pos isBackslash]⟩
  by_cases isSingle : ch = singleQuote ∧ quoting.inDouble = false
  · exact Or.inl ⟨{ quoting with inSingle := !quoting.inSingle }, fun chars => by
      rw [readPiece, if_neg escaped, if_neg isBackslash, if_pos isSingle]⟩
  by_cases isDouble : ch = doubleQuote ∧ quoting.inSingle = false
  · exact Or.inl ⟨{ quoting with inDouble := !quoting.inDouble }, fun chars => by
      rw [readPiece, if_neg escaped, if_neg isBackslash, if_neg isSingle, if_pos isDouble]⟩
  by_cases notDollar : ch ≠ '$'
  · exact Or.inl ⟨quoting, fun chars => by
      rw [readPiece, if_neg escaped, if_neg isBackslash, if_neg isSingle, if_neg isDouble,
        if_pos notDollar]⟩
  by_cases isInner : quoting.inSingle = true
  · exact Or.inl ⟨quoting, fun chars => by
      rw [readPiece, if_neg escaped, if_neg isBackslash, if_neg isSingle, if_neg isDouble,
        if_neg notDollar, if_pos isInner]⟩
  · exact Or.inr ⟨of_not_not notDollar, fun chars => by
      rw [readPiece, if_neg escaped, if_neg isBackslash, if_neg isSingle, if_neg isDouble,
        if_neg notDollar, if_neg isInner]⟩

/-- Expansion puts the values of the pieces together. -/
theorem expandFrom_eq (env : Environment) (rounds : Nat) (quoting : Quoting) (text : Text) :
    expandFrom unicode env rounds quoting.inSingle quoting.inDouble quoting.escape text =
      (piecesFrom unicode rounds quoting text).flatMap (Piece.value env) := by
  induction rounds generalizing quoting text with
  | zero => cases text <;> rfl
  | succ rounds ih =>
      cases text with
      | nil => rfl
      | cons ch chars =>
          obtain ⟨inSingle, inDouble, escape⟩ := quoting
          cases escape with
          | true =>
              rw [expandFrom, piecesFrom, List.flatMap_cons, ← ih]
              rfl
          | false =>
              rw [expandFrom, piecesFrom, List.flatMap_cons, ← ih, readPiece,
                if_neg Bool.false_ne_true, if_neg Bool.false_ne_true]
              by_cases isBackslash : ch = backslash ∧ inSingle = false
              · rw [if_pos isBackslash, if_pos isBackslash]
                rfl
              rw [if_neg isBackslash, if_neg isBackslash]
              by_cases isSingle : ch = singleQuote ∧ inDouble = false
              · rw [if_pos isSingle, if_pos isSingle]
                rfl
              rw [if_neg isSingle, if_neg isSingle]
              by_cases isDouble : ch = doubleQuote ∧ inSingle = false
              · rw [if_pos isDouble, if_pos isDouble]
                rfl
              rw [if_neg isDouble, if_neg isDouble]
              by_cases notDollar : ch ≠ '$'
              · rw [if_pos notDollar, if_pos notDollar]
                rfl
              rw [if_neg notDollar, if_neg notDollar]
              by_cases isInner : inSingle = true
              · rw [if_pos isInner, if_pos isInner]
                rfl
              rw [if_neg isInner, if_neg isInner, readReference]
              by_cases isStatus : chars.head? = some '?'
              · rw [if_pos isStatus, if_pos isStatus]
                rfl
              rw [if_neg isStatus, if_neg isStatus]
              by_cases isLast : chars.head? = some '!'
              · rw [if_pos isLast, if_pos isLast]
                rfl
              rw [if_neg isLast, if_neg isLast]
              by_cases isBrace : chars.head? = some '{'
              · rw [if_pos isBrace, if_pos isBrace]
                rfl
              rw [if_neg isBrace, if_neg isBrace]
              by_cases noName : chars.takeWhile (isNameChar unicode) = []
              · rw [if_pos noName, if_pos noName]
                rfl
              · rw [if_neg noName, if_neg noName]
                rfl

theorem expandVariables_eq_filled (env : Environment) (text : Text) :
    env.expandVariables unicode text = filled unicode env text :=
  expandFrom_eq unicode env text.length unquoted text

theorem readReference_length_le (chars : Text) :
    (readReference unicode chars).2.length ≤ chars.length := by
  have brace := (@List.dropWhile_sublist _ chars.tail (· != '}')).length_le
  have name := (@List.dropWhile_sublist _ chars (isNameChar unicode)).length_le
  rw [List.length_tail] at brace
  rw [readReference]
  split_ifs <;> simp only [List.length_tail] <;> omega

/-- What is copied behind a `$` is the `$` itself. -/
theorem of_readReference_copied {chars : Text} {ch : Char}
    (copied : (readReference unicode chars).1 = .copied ch) :
    ch = '$' ∧ (readReference unicode chars).2 = chars := by
  rw [readReference] at copied ⊢
  split_ifs at copied ⊢
  cases copied
  exact ⟨rfl, rfl⟩

/-- Rounds beyond the length of the text change nothing. -/
theorem piecesFrom_add (rounds more : Nat) (quoting : Quoting) {text : Text}
    (enough : text.length ≤ rounds) :
    piecesFrom unicode (rounds + more) quoting text = piecesFrom unicode rounds quoting text := by
  induction rounds generalizing quoting text with
  | zero =>
      obtain rfl : text = [] := List.length_eq_zero_iff.mp (by omega)
      cases more <;> rfl
  | succ rounds ih =>
      cases text with
      | nil => simp [piecesFrom, Nat.succ_add]
      | cons ch chars =>
          rw [List.length_cons] at enough
          rw [Nat.succ_add]
          rcases readPiece_cases unicode quoting ch with ⟨behind, copied⟩ | ⟨_, reads⟩
          · simp only [piecesFrom, copied]
            rw [ih behind (by omega)]
          · have shorter := readReference_length_le unicode chars
            simp only [piecesFrom, reads]
            rw [ih quoting (by omega)]

/-- A text that refers to no variable is copied. -/
theorem filled_of_names_eq_nil (env : Environment) {rounds : Nat} {quoting : Quoting} {text : Text}
    (enough : text.length ≤ rounds)
    (none : (piecesFrom unicode rounds quoting text).filterMap Piece.name? = []) :
    (piecesFrom unicode rounds quoting text).flatMap (Piece.value env) = text := by
  induction rounds generalizing quoting text with
  | zero =>
      obtain rfl : text = [] := List.length_eq_zero_iff.mp (by omega)
      rfl
  | succ rounds ih =>
      cases text with
      | nil => rfl
      | cons ch chars =>
          rw [List.length_cons] at enough
          rcases readPiece_cases unicode quoting ch with ⟨behind, copied⟩ | ⟨rfl, reads⟩
          · simp only [piecesFrom, copied, List.filterMap_cons, Piece.name?] at none ⊢
            rw [List.flatMap_cons, ih (by omega) none]
            rfl
          · simp only [piecesFrom, reads] at none ⊢
            cases piece : (readReference unicode chars).1 with
            | copied other =>
                obtain ⟨rfl, rest⟩ := of_readReference_copied unicode piece
                rw [piece, rest, List.filterMap_cons] at none
                rw [rest, List.flatMap_cons, ih (by omega) none]
                rfl
            | reference name =>
                rw [piece, List.filterMap_cons] at none
                cases none

theorem filterMap_copied (text : Text) : (text.map Piece.copied).filterMap Piece.name? = [] := by
  rw [List.filterMap_map]
  exact List.filterMap_eq_nil_iff.mpr fun _ _ => rfl

theorem flatMap_copied (env : Environment) (text : Text) :
    (text.map Piece.copied).flatMap (Piece.value env) = text := by
  rw [List.flatMap_map]
  exact List.flatMap_singleton' text

/-- Where the test fails in the first part, the second one does not matter. -/
theorem span_append {test : Char → Bool} {first : Text} (stops : ¬ ∀ ch ∈ first, test ch = true)
    (second : Text) :
    (first ++ second).takeWhile test = first.takeWhile test ∧
      (first ++ second).dropWhile test = first.dropWhile test ++ second ∧
      first.dropWhile test ≠ [] := by
  have behind : first.dropWhile test ≠ [] := by rwa [ne_eq, List.dropWhile_eq_nil_iff]
  refine ⟨?_, ?_, behind⟩
  · rw [List.takeWhile_append, if_neg]
    intro whole
    have parts := congrArg List.length (@List.takeWhile_append_dropWhile _ test first)
    rw [List.length_append, whole] at parts
    exact behind (List.length_eq_zero_iff.mp (by omega))
  · rw [List.dropWhile_append, if_neg (by simpa using behind)]

section Blanks

variable {blank : Text} (isBlank : ∀ ch ∈ blank, isWhitespace ch = true)

include isBlank

theorem head_blank {ch : Char} (visible : isWhitespace ch = false) : blank.head? ≠ some ch := by
  cases blank with
  | nil => exact nofun
  | cons first blank =>
      rintro same
      cases same
      rw [isBlank ch List.mem_cons_self] at visible
      cases visible

/-- White space behind a reference is not part of it, or another name is read. -/
theorem readReference_append (chars : Text) :
    readReference unicode (chars ++ blank) =
        ((readReference unicode chars).1, (readReference unicode chars).2 ++ blank) ∨
      (readReference unicode chars).2 = [] ∧
        ∃ name, (readReference unicode (chars ++ blank)).1 = .reference name ∧
          (readReference unicode chars).1.name? ≠ some name := by
  by_cases nothing : blank = []
  · exact Or.inl (by rw [nothing, List.append_nil, List.append_nil])
  cases chars with
  | nil =>
      have first (ch : Char) (visible : isWhitespace ch = false) := head_blank isBlank visible
      rw [List.nil_append, readReference, if_neg (first '?' (by decide)),
        if_neg (first '!' (by decide)), if_neg (first '{' (by decide))]
      by_cases noName : blank.takeWhile (isNameChar unicode) = []
      · exact Or.inl (by rw [if_pos noName]; rfl)
      · exact Or.inr ⟨rfl, _, by rw [if_neg noName], nofun⟩
  | cons ch chars =>
      have sameHead : ((ch :: chars) ++ blank).head? = (ch :: chars).head? := rfl
      rw [readReference, readReference, sameHead]
      by_cases isStatus : (ch :: chars).head? = some '?'
      · exact Or.inl (by rw [if_pos isStatus, if_pos isStatus]; rfl)
      rw [if_neg isStatus, if_neg isStatus]
      by_cases isLast : (ch :: chars).head? = some '!'
      · exact Or.inl (by rw [if_pos isLast, if_pos isLast]; rfl)
      rw [if_neg isLast, if_neg isLast]
      by_cases isBrace : (ch :: chars).head? = some '{'
      · rw [if_pos isBrace, if_pos isBrace, List.cons_append, List.tail_cons, List.tail_cons]
        by_cases openBrace : ∀ other ∈ chars, (other != '}') = true
        · have inName : ∀ other ∈ blank, (other != '}') = true := by
            intro other isOther
            rw [bne_iff_ne]
            rintro rfl
            exact absurd (isBlank _ isOther) (by decide)
          refine Or.inr ⟨?_, _, rfl, ?_⟩
          · rw [List.dropWhile_eq_nil_iff.mpr openBrace]
            rfl
          · rw [List.takeWhile_append_of_pos openBrace, List.takeWhile_eq_self_iff.mpr inName,
              List.takeWhile_eq_self_iff.mpr openBrace]
            simpa [Piece.name?] using nothing
        · obtain ⟨sameName, rest, behind⟩ := span_append openBrace blank
          rw [sameName, rest, List.tail_append_of_ne_nil behind]
          exact Or.inl rfl
      rw [if_neg isBrace, if_neg isBrace]
      by_cases allName : ∀ other ∈ ch :: chars, isNameChar unicode other = true
      · have whole : (ch :: chars).takeWhile (isNameChar unicode) = ch :: chars :=
          List.takeWhile_eq_self_iff.mpr allName
        rw [List.takeWhile_append_of_pos allName, List.dropWhile_append_of_pos allName, whole,
          List.dropWhile_eq_nil_iff.mpr allName, if_neg (by simp), if_neg (by simp)]
        by_cases noName : blank.takeWhile (isNameChar unicode) = []
        · have rest := @List.takeWhile_append_dropWhile _ (isNameChar unicode) blank
          rw [noName, List.nil_append] at rest
          rw [noName, rest, List.append_nil]
          exact Or.inl rfl
        · exact Or.inr ⟨rfl, _, rfl, by simpa [Piece.name?] using noName⟩
      · obtain ⟨sameName, rest, _⟩ := span_append allName blank
        rw [sameName, rest]
        left
        split <;> rfl

/-- White space is copied. -/
theorem piecesFrom_blank (quoting : Quoting) {rounds : Nat} (enough : blank.length ≤ rounds) :
    piecesFrom unicode rounds quoting blank = blank.map Piece.copied := by
  induction blank generalizing quoting rounds with
  | nil => cases rounds <;> rfl
  | cons ch blank ih =>
      obtain ⟨rounds, rfl⟩ := Nat.exists_eq_add_one.mpr (Nat.lt_of_lt_of_le (Nat.succ_pos _) enough)
      rw [List.length_cons] at enough
      rcases readPiece_cases unicode quoting ch with ⟨behind, copied⟩ | ⟨rfl, _⟩
      · simp only [piecesFrom, copied, List.map_cons]
        rw [ih (fun other isOther => isBlank other (List.mem_cons_of_mem _ isOther)) behind
          (by omega)]
      · exact absurd (isBlank '$' List.mem_cons_self) (by decide)

/-- White space behind a text is copied if it changes no name. -/
theorem piecesFrom_append_blank {rounds : Nat} {quoting : Quoting} {text : Text}
    (enough : (text ++ blank).length ≤ rounds)
    (sameNames : (piecesFrom unicode rounds quoting (text ++ blank)).filterMap Piece.name? =
      (piecesFrom unicode rounds quoting text).filterMap Piece.name?) :
    piecesFrom unicode rounds quoting (text ++ blank) =
      piecesFrom unicode rounds quoting text ++ blank.map Piece.copied := by
  induction rounds generalizing quoting text with
  | zero =>
      have none : text ++ blank = [] := List.length_eq_zero_iff.mp (by omega)
      obtain ⟨rfl, rfl⟩ := List.append_eq_nil_iff.mp none
      rfl
  | succ rounds ih =>
      cases text with
      | nil => exact piecesFrom_blank unicode isBlank quoting enough
      | cons ch chars =>
          rw [List.cons_append, List.length_cons] at enough
          rw [List.cons_append] at sameNames ⊢
          rcases readPiece_cases unicode quoting ch with ⟨behind, copied⟩ | ⟨rfl, reads⟩
          · simp only [piecesFrom, copied, List.filterMap_cons, Piece.name?, List.cons_append]
              at sameNames ⊢
            rw [ih (by omega) sameNames]
          · have shorter := readReference_length_le unicode chars
            simp only [piecesFrom, reads] at sameNames ⊢
            rcases readReference_append unicode isBlank chars with same | ⟨atEnd, name, other, differs⟩
            · rw [same] at sameNames ⊢
              simp only [List.filterMap_cons] at sameNames
              rw [List.length_append] at enough
              rw [List.cons_append, ih (by rw [List.length_append]; omega)]
              split at sameNames
              · exact sameNames
              · exact (List.cons.inj sameNames).2
            · rw [other, atEnd, List.filterMap_cons, List.filterMap_cons] at sameNames
              have nothing : piecesFrom unicode rounds quoting [] = [] := by cases rounds <;> rfl
              rw [nothing] at sameNames
              cases piece : (readReference unicode chars).1 with
              | copied other => simp [piece, Piece.name?] at sameNames
              | reference other =>
                  rw [piece] at sameNames differs
                  exact absurd (congrArg some (List.cons.inj sameNames).1.symm) differs

/-- White space before a text is copied. -/
theorem pieces_blank_append (text : Text) :
    pieces unicode (blank ++ text) = blank.map Piece.copied ++ pieces unicode text := by
  induction blank with
  | nil => rfl
  | cons ch blank ih =>
      have isSpace := isBlank ch List.mem_cons_self
      have others := ih fun other isOther => isBlank other (List.mem_cons_of_mem _ isOther)
      have special (other : Char) (visible : isWhitespace other = false) : ch ≠ other := by
        rintro rfl
        rw [isSpace] at visible
        cases visible
      have copied (chars : Text) :
          readPiece unicode unquoted ch chars = (.copied ch, unquoted, chars) := by
        rw [readPiece, if_neg (by decide), if_neg fun both => special backslash (by decide) both.1,
          if_neg fun both => special singleQuote (by decide) both.1,
          if_neg fun both => special doubleQuote (by decide) both.1,
          if_pos (special '$' (by decide))]
      rw [pieces, List.cons_append, List.length_cons, piecesFrom, copied]
      exact congrArg _ others

end Blanks

/-- A text is its trimmed form between white space. -/
theorem exists_trim (text : Text) : ∃ before after : Text, text = before ++ trim text ++ after ∧
    (∀ ch ∈ before, isWhitespace ch = true) ∧ ∀ ch ∈ after, isWhitespace ch = true := by
  refine ⟨text.takeWhile isWhitespace, (text.dropWhile isWhitespace).rtakeWhile isWhitespace,
    ?_, fun ch isIn => List.mem_takeWhile_imp isIn, fun ch isIn => List.mem_rtakeWhile_imp isIn⟩
  rw [trim, List.append_assoc, List.rdropWhile_append_rtakeWhile,
    List.takeWhile_append_dropWhile]

/-- Trimming a statement trims what is put in for it, unless it changes a name. -/
theorem exists_filled_trim (env : Environment) {text : Text}
    (sameNames : names unicode (trim text) = names unicode text) :
    ∃ before after : Text, filled unicode env text = before ++ filled unicode env (trim text) ++ after ∧
      (∀ ch ∈ before, isWhitespace ch = true) ∧ ∀ ch ∈ after, isWhitespace ch = true := by
  obtain ⟨before, after, whole, blankBefore, blankAfter⟩ := exists_trim text
  refine ⟨before, after, ?_, blankBefore, blankAfter⟩
  generalize trim text = trimmed at whole sameNames
  subst whole
  have leading := pieces_blank_append unicode blankBefore (trimmed ++ after)
  rw [← List.append_assoc] at leading
  rw [names, names, leading, List.filterMap_append, filterMap_copied, List.nil_append, pieces, pieces]
    at sameNames
  rw [← piecesFrom_add unicode trimmed.length after.length unquoted (Nat.le_refl _),
    List.length_append] at sameNames
  have trailing := piecesFrom_append_blank unicode blankAfter (by rw [List.length_append])
    sameNames.symm
  rw [filled, leading, List.flatMap_append, flatMap_copied, pieces, List.length_append, trailing,
    List.flatMap_append, flatMap_copied, piecesFrom_add unicode _ _ _ (Nat.le_refl _), filled,
    pieces, List.append_assoc]

end Reading

section Padding

variable {blank : Text} (isBlank : ∀ ch ∈ blank, isWhitespace ch = true)

include isBlank

theorem closeSegment_blank_append (current : Text) :
    closeSegment (blank ++ current) = closeSegment current := by
  have same : trim (blank ++ current) = trim current := by
    rw [trim, List.dropWhile_append_of_pos isBlank, trim]
  rw [closeSegment, same, closeSegment]

theorem closeSegment_append_blank (current : Text) :
    closeSegment (current ++ blank) = closeSegment current := by
  have same : trim (current ++ blank) = trim current := by
    rw [trim, List.dropWhile_append, trim]
    split
    · next empty =>
        rw [List.isEmpty_iff.mp empty, List.dropWhile_eq_nil_iff.mpr isBlank]
    · rw [List.rdropWhile, List.reverse_append, List.dropWhile_append_of_pos fun ch isIn =>
        isBlank ch (List.mem_reverse.mp isIn), List.rdropWhile]
  rw [closeSegment, same, closeSegment]

/-- White space at the start of a segment is trimmed. -/
theorem splitSegmentsFrom_blank_append (separator : Char) (current : Text)
    (inQuote : Option Char) (escape : Bool) (chars : Text) :
    splitSegmentsFrom separator (blank ++ current) inQuote escape chars =
      splitSegmentsFrom separator current inQuote escape chars := by
  induction chars generalizing current inQuote escape with
  | nil => exact closeSegment_blank_append isBlank current
  | cons ch chars ih =>
      have pushed (quote : Option Char) :
          splitSegmentsFrom separator (blank ++ current ++ [ch]) quote false chars =
            splitSegmentsFrom separator (current ++ [ch]) quote false chars := by
        rw [List.append_assoc]
        exact ih _ _ _
      simp only [splitSegmentsFrom, pushed, ih, closeSegment_blank_append isBlank]

variable {separator : Char} (visible : isWhitespace separator = false)

include visible

/-- White space in a segment is kept until the segment is closed. -/
theorem splitSegmentsFrom_blank (current : Text) (inQuote : Option Char) (escape : Bool)
    (rest : Text) :
    ∃ still, (still = true → escape = true) ∧
      splitSegmentsFrom separator current inQuote escape (blank ++ rest) =
        splitSegmentsFrom separator (current ++ blank) inQuote still rest := by
  induction blank generalizing current escape with
  | nil => exact ⟨escape, id, by rw [List.nil_append, List.append_nil]⟩
  | cons ch blank ih =>
      have isSpace := isBlank ch List.mem_cons_self
      have special (other : Char) (shown : isWhitespace other = false) : ch ≠ other := by
        rintro rfl
        rw [isSpace] at shown
        cases shown
      have pushed : splitSegmentsFrom separator current inQuote escape (ch :: (blank ++ rest)) =
          splitSegmentsFrom separator (current ++ [ch]) inQuote false (blank ++ rest) := by
        rw [splitSegmentsFrom]
        split
        · rfl
        · rw [if_neg (special backslash (by decide)), if_neg (not_or.mpr
            ⟨special doubleQuote (by decide), special singleQuote (by decide)⟩),
            if_neg fun both => special separator visible both.1]
      obtain ⟨still, notEscaped, others⟩ := ih
        (fun other isOther => isBlank other (List.mem_cons_of_mem _ isOther)) (current ++ [ch]) false
      refine ⟨still, fun escaped => absurd (notEscaped escaped) Bool.false_ne_true, ?_⟩
      rw [List.cons_append, pushed, others, List.append_assoc, List.singleton_append]

/-- White space behind a line is trimmed. -/
theorem splitSegmentsFrom_append_blank (current : Text) (inQuote : Option Char) (escape : Bool)
    (chars : Text) :
    splitSegmentsFrom separator current inQuote escape (chars ++ blank) =
      splitSegmentsFrom separator current inQuote escape chars := by
  induction chars generalizing current inQuote escape with
  | nil =>
      obtain ⟨still, _, scanned⟩ :=
        splitSegmentsFrom_blank isBlank visible current inQuote escape []
      rw [List.append_nil] at scanned
      rw [List.nil_append, scanned]
      exact closeSegment_append_blank isBlank current
  | cons ch chars ih => simp only [List.cons_append, splitSegmentsFrom, ih]

end Padding

/-- White space around a line changes nothing. -/
theorem parseLine_padded {before after : Text}
    (blankBefore : ∀ ch ∈ before, isWhitespace ch = true)
    (blankAfter : ∀ ch ∈ after, isWhitespace ch = true) (text : Text) :
    parseLine (before ++ text ++ after) = parseLine text := by
  have visible : isWhitespace ';' = false := by decide
  obtain ⟨still, notEscaped, leading⟩ :=
    splitSegmentsFrom_blank blankBefore visible [] none false text
  obtain rfl : still = false := by
    cases still with
    | false => rfl
    | true => exact absurd (notEscaped rfl) Bool.false_ne_true
  rw [parseLine, splitSequences, splitSegmentsFrom_append_blank blankAfter visible, leading,
    List.nil_append, ← List.append_nil before, splitSegmentsFrom_blank_append blankBefore,
    parseLine, splitSequences]

section Scripts

variable (unicode : Unicode) (env : Environment) (funcs : Text → Option (List Text))

/-- However its pipelines are executed, the statement has the same effect in a
script as at the prompt. -/
def MeansSame (stmt : Text) : Prop :=
  ∀ (σ : Type) (exec : ExecPipeline σ) (world : σ) (fuel : Nat), ∃ idx after,
    runStmts unicode (evalStmt unicode exec) (fuel + 2) [stmt] 0 1 ⟨env, funcs, world, []⟩ =
      some ((evalStmt unicode exec stmt (env, world)).1, idx, after) ∧
    (after.env, after.world) = (evalStmt unicode exec stmt (env, world)).2

variable {unicode env funcs}

/-- A script passes the expanded statement on. -/
theorem runStmts_command {σ : Type} {stmt : Text}
    (isCommand : IsCommand unicode {env} funcs (trim stmt)) (callback : EvalStmt σ) (world : σ)
    (fuel : Nat) :
    ∃ idx after, runStmts unicode callback (fuel + 2) [stmt] 0 1 ⟨env, funcs, world, []⟩ =
        some ((callback (env.expandVariables unicode (trim stmt)) (env, world)).1, idx, after) ∧
      (after.env, after.world) =
        (callback (env.expandVariables unicode (trim stmt)) (env, world)).2 := by
  have among : Among {env} funcs (⟨env, funcs, world, []⟩ : State σ) := ⟨rfl, rfl⟩
  rw [runStmts_succ (by decide) List.getElem?_cons_zero, ← isCommand.trimmed,
    runStmt_command among isCommand, isCommand.trimmed]
  generalize called : (⟨env, funcs, world, []⟩ : State σ).call callback
    (env.expandVariables unicode (trim stmt)) = result
  obtain ⟨exit, after⟩ := result
  have exits : exit = (callback (env.expandVariables unicode (trim stmt)) (env, world)).1 :=
    (congrArg Prod.fst called).symm
  have effect : (after.env, after.world) =
      (callback (env.expandVariables unicode (trim stmt)) (env, world)).2 := by
    obtain rfl : _ = after := congrArg Prod.snd called
    rfl
  rw [← exits]
  cases exit with
  | true => exact ⟨0, after, rfl, effect⟩
  | false => exact ⟨1, after, by rw [afterBlock, runStmts, if_pos (by decide)], effect⟩

/-- A command means the same in a script exactly when a second expansion does
not change its argument lists. -/
theorem meansSame_iff {stmt : Text} (isCommand : IsCommand unicode {env} funcs (trim stmt)) :
    MeansSame unicode env funcs stmt ↔
      commands (env.expandVariables unicode (env.expandVariables unicode (trim stmt))) =
        commands (env.expandVariables unicode stmt) := by
  constructor
  · intro same
    obtain ⟨_, after, ran, agrees⟩ := same _ recordPipeline [] 0
    obtain ⟨_, other, ranScript, recorded⟩ :=
      runStmts_command isCommand (evalStmt unicode recordPipeline) [] 0
    rw [ran] at ranScript
    simp only [Option.some.injEq, Prod.mk.injEq] at ranScript
    obtain ⟨_, _, rfl⟩ := ranScript
    rw [evalStmt_record] at recorded agrees
    have sameRecords := recorded.symm.trans agrees
    exact congrArg Prod.snd sameRecords
  · intro same σ exec world fuel
    obtain ⟨idx, after, ran, effect⟩ :=
      runStmts_command isCommand (evalStmt unicode exec) world fuel
    have sameEffect : evalStmt unicode exec (env.expandVariables unicode (trim stmt)) (env, world) =
        evalStmt unicode exec stmt (env, world) := by
      rw [evalStmt_eq, evalStmt_eq]
      exact congrArg (execPipelines exec · (env, world)) same
    rw [sameEffect] at ran effect
    exact ⟨idx, after, ran, effect⟩

/-- A command means the same in a script if the white space around it is not part
of a name and no variable is left in it once the values are put in. -/
theorem meansSame_of_inert {stmt : Text} (isCommand : IsCommand unicode {env} funcs (trim stmt))
    (inert : Inert unicode env stmt) : MeansSame unicode env funcs stmt := by
  have once : env.expandVariables unicode (env.expandVariables unicode (trim stmt)) =
      env.expandVariables unicode (trim stmt) := by
    rw [expandVariables_eq_filled unicode env (trim stmt),
      expandVariables_eq_filled unicode env (filled unicode env (trim stmt))]
    exact filled_of_names_eq_nil unicode env (Nat.le_refl _) inert.settled
  obtain ⟨before, after, atPrompt, blankBefore, blankAfter⟩ :=
    exists_filled_trim unicode env inert.trimmed
  rw [meansSame_iff isCommand, once, expandVariables_eq_filled, expandVariables_eq_filled, atPrompt,
    commands, commands, parseLine_padded blankBefore blankAfter]

end Scripts

def echoStmt : Text := "echo $x".toList

/-- A plain value of `x`. -/
def plainEnv : Environment := Environment.set (fun _ => none) ['x'] ['1']

/-- The value of `x` refers to `y`. -/
def nestedEnv : Environment :=
  Environment.set (Environment.set (fun _ => none) ['x'] ['$', 'y']) ['y'] ['1']

theorem isCommand_echoStmt {env : Environment} (isOneOf : env = plainEnv ∨ env = nestedEnv) :
    IsCommand asciiOnly {env} (fun _ => none) (trim echoStmt) where
  trimmed := by decide
  nonempty := by decide
  notDefinition := by decide
  notAssignment := by decide
  expanded := by
    rintro _ rfl
    rcases isOneOf with rfl | rfl
    · exact ⟨by decide, by decide, by decide, by decide⟩
    · exact ⟨by decide, by decide, by decide, by decide⟩

theorem meansSame_of_inert_plain : MeansSame asciiOnly plainEnv (fun _ => none) echoStmt :=
  meansSame_of_inert (isCommand_echoStmt (Or.inl rfl)) ⟨by decide, by decide⟩

/-- At the prompt the command prints `$y`, in a script it prints `1`. -/
theorem not_meansSame_nested :
    IsCommand asciiOnly {nestedEnv} (fun _ => none) (trim echoStmt) ∧
      ¬ MeansSame asciiOnly nestedEnv (fun _ => none) echoStmt := by
  refine ⟨isCommand_echoStmt (Or.inr rfl), ?_⟩
  intro same
  obtain ⟨idx, after, ran, effect⟩ := same _ recordPipeline [] 0
  have inScript : (runStmts asciiOnly (evalStmt asciiOnly recordPipeline) 2 [echoStmt] 0 1
      ⟨nestedEnv, fun _ => none, [], []⟩).map (fun result => result.2.2.world) =
        some [[["echo".toList, ['1']]]] := by decide
  have atPrompt : (evalStmt asciiOnly recordPipeline echoStmt (nestedEnv, [])).2.2 =
      [[["echo".toList, ['$', 'y']]]] := by decide
  rw [ran, Option.map_some, Option.some_inj] at inScript
  have sameWorld : after.world =
      (evalStmt asciiOnly recordPipeline echoStmt (nestedEnv, [])).2.2 := congrArg Prod.snd effect
  rw [inScript, atPrompt] at sameWorld
  exact absurd sameWorld (by decide)

end Shell

end OSWorkspace
