import OSWorkspace.ShellCommands
import OSWorkspace.ShellPrograms

/-!
# Script files

A script is read through a buffer of 1024 bytes, every filling of which must be
text, and split into statements at the semicolons and line ends outside of
quotes.  A script that writes the statements of a program, in any layout, is run
as the program, unless a character lies across the end of a filling.
-/

namespace OSWorkspace

namespace Shell

/-- The quote behind a quote character. -/
def toggleQuote (inQuote : Option Char) (ch : Char) : Option Char :=
  if inQuote = some ch then none else if inQuote = none then some ch else inQuote

/-- The statements of a script, the first of them started by `current`. -/
def splitStatementsFrom (current : Text) (inQuote : Option Char) (escape inComment : Bool) :
    Text → List Text
  | [] => closeSegment current
  | ch :: chars =>
      if inComment then
        if ch = '\n' then closeSegment current ++ splitStatementsFrom [] inQuote escape false chars
        else splitStatementsFrom current inQuote escape true chars
      else if escape then splitStatementsFrom (current ++ [ch]) inQuote false false chars
      else if ch = backslash then splitStatementsFrom (current ++ [ch]) inQuote true false chars
      else if ch = doubleQuote ∨ ch = singleQuote then
        splitStatementsFrom (current ++ [ch]) (toggleQuote inQuote ch) false false chars
      else if ch = '#' ∧ inQuote = none then splitStatementsFrom current inQuote false true chars
      else if (ch = '\n' ∨ ch = ';') ∧ inQuote = none then
        closeSegment current ++ splitStatementsFrom [] none false false chars
      else splitStatementsFrom (current ++ [ch]) inQuote false false chars

def splitScriptStatements (script : Text) : List Text :=
  splitStatementsFrom [] none false false script

/-- From a state of the scanner on, a text closes its quotes and escapes and has
no separator or comment outside of them. -/
def closedFrom (inQuote : Option Char) (escape : Bool) : Text → Bool
  | [] => inQuote.isNone && !escape
  | ch :: chars =>
      if escape then closedFrom inQuote false chars
      else if ch = backslash then closedFrom inQuote true chars
      else if ch = doubleQuote ∨ ch = singleQuote then
        closedFrom (toggleQuote inQuote ch) false chars
      else if inQuote = none ∧ (ch = '#' ∨ ch = '\n' ∨ ch = ';') then false
      else closedFrom inQuote false chars

/-- A text of blanks within one line. -/
def Blank (text : Text) : Prop := ∀ ch ∈ text, isWhitespace ch = true ∧ ch ≠ '\n'

/-- The end of a statement: a semicolon, or the line end, behind a comment or not. -/
inductive StatementEnd : Text → Prop
  | semicolon : StatementEnd [';']
  | newline : StatementEnd ['\n']
  | comment {text : Text} (oneLine : '\n' ∉ text) : StatementEnd ('#' :: (text ++ ['\n']))

/-- A statement, or nothing, that the splitting leaves as it is. -/
structure IsStatement (stmt : Text) : Prop where
  trimmed : trim stmt = stmt
  closed : closedFrom none false stmt = true

instance (stmt : Text) : Decidable (IsStatement stmt) :=
  decidable_of_iff (trim stmt = stmt ∧ closedFrom none false stmt = true)
    ⟨fun parts => ⟨parts.1, parts.2⟩, fun isStatement => ⟨isStatement.trimmed, isStatement.closed⟩⟩

/-- A script writes statements in a layout of blanks, empty lines and comments. -/
inductive Writes : List Text → Text → Prop
  | last {stmt before after : Text} (isStatement : IsStatement stmt) (blankBefore : Blank before)
      (blankAfter : Blank after) : Writes (closeSegment stmt) (before ++ stmt ++ after)
  | next {stmts : List Text} {stmt before after stop rest : Text} (isStatement : IsStatement stmt)
      (blankBefore : Blank before) (blankAfter : Blank after) (isEnd : StatementEnd stop)
      (writes : Writes stmts rest) :
      Writes (closeSegment stmt ++ stmts) (before ++ stmt ++ after ++ stop ++ rest)

section Splitting

theorem splitStatementsFrom_closed {stmt : Text} {inQuote : Option Char} {escape : Bool}
    (closed : closedFrom inQuote escape stmt = true) (current rest : Text) :
    splitStatementsFrom current inQuote escape false (stmt ++ rest) =
      splitStatementsFrom (current ++ stmt) none false false rest := by
  induction stmt generalizing inQuote escape current with
  | nil =>
      rw [closedFrom, Bool.and_eq_true, Option.isNone_iff_eq_none, Bool.not_eq_true'] at closed
      obtain ⟨rfl, rfl⟩ := closed
      rw [List.nil_append, List.append_nil]
  | cons ch stmt ih =>
      have moved : current ++ ch :: stmt = current ++ [ch] ++ stmt := by simp
      rw [List.cons_append, splitStatementsFrom, moved, if_neg Bool.false_ne_true]
      rw [closedFrom] at closed
      by_cases escaped : escape = true
      · rw [if_pos escaped] at closed ⊢
        exact ih closed _
      rw [if_neg escaped] at closed ⊢
      by_cases isBackslash : ch = backslash
      · rw [if_pos isBackslash] at closed ⊢
        exact ih closed _
      rw [if_neg isBackslash] at closed ⊢
      by_cases isQuote : ch = doubleQuote ∨ ch = singleQuote
      · rw [if_pos isQuote] at closed ⊢
        exact ih closed _
      rw [if_neg isQuote] at closed ⊢
      by_cases special : inQuote = none ∧ (ch = '#' ∨ ch = '\n' ∨ ch = ';')
      · rw [if_pos special] at closed
        exact absurd closed Bool.false_ne_true
      rw [if_neg special] at closed
      rw [if_neg fun both => special ⟨both.2, Or.inl both.1⟩,
        if_neg fun both => special ⟨both.2, Or.inr both.1⟩]
      exact ih closed _

theorem splitStatementsFrom_blank {blank : Text} (isBlank : Blank blank) (current rest : Text) :
    splitStatementsFrom current none false false (blank ++ rest) =
      splitStatementsFrom (current ++ blank) none false false rest := by
  refine splitStatementsFrom_closed ?_ current rest
  induction blank with
  | nil => rfl
  | cons ch blank ih =>
      obtain ⟨isSpace, notNewline⟩ := isBlank ch List.mem_cons_self
      have notSpecial : ch ≠ backslash ∧ ch ≠ doubleQuote ∧ ch ≠ singleQuote ∧ ch ≠ '#' ∧
          ch ≠ ';' := by
        refine ⟨?_, ?_, ?_, ?_, ?_⟩ <;>
          · rintro rfl
            exact absurd isSpace (by decide)
      obtain ⟨notBackslash, notDouble, notSingle, notComment, notSemicolon⟩ := notSpecial
      rw [closedFrom, if_neg Bool.false_ne_true, if_neg notBackslash,
        if_neg (not_or.mpr ⟨notDouble, notSingle⟩),
        if_neg fun both => both.2.elim notComment fun isStop => isStop.elim notNewline notSemicolon]
      exact ih fun other isOther => isBlank other (List.mem_cons_of_mem _ isOther)

theorem splitStatementsFrom_comment {text : Text} (oneLine : '\n' ∉ text) (current rest : Text) :
    splitStatementsFrom current none false true (text ++ '\n' :: rest) =
      closeSegment current ++ splitStatementsFrom [] none false false rest := by
  induction text with
  | nil => rw [List.nil_append, splitStatementsFrom, if_pos rfl, if_pos rfl]
  | cons ch text ih =>
      rw [List.mem_cons, not_or] at oneLine
      rw [List.cons_append, splitStatementsFrom, if_pos rfl, if_neg (Ne.symm oneLine.1)]
      exact ih oneLine.2

theorem splitStatementsFrom_end {stop : Text} (isEnd : StatementEnd stop) (current rest : Text) :
    splitStatementsFrom current none false false (stop ++ rest) =
      closeSegment current ++ splitStatementsFrom [] none false false rest := by
  cases isEnd with
  | semicolon => rfl
  | newline => rfl
  | comment oneLine =>
      rw [List.cons_append, List.append_assoc, List.singleton_append, splitStatementsFrom]
      exact splitStatementsFrom_comment oneLine current rest

/-- Blanks around a trimmed text are trimmed. -/
theorem trim_blanks {before after stmt : Text} (blankBefore : Blank before)
    (blankAfter : Blank after) (trimmed : trim stmt = stmt) :
    trim (before ++ stmt ++ after) = stmt := by
  have spaceBefore : ∀ ch ∈ before, isWhitespace ch = true := fun ch isIn => (blankBefore ch isIn).1
  have spaceAfter : ∀ ch ∈ after, isWhitespace ch = true := fun ch isIn => (blankAfter ch isIn).1
  rw [trim] at trimmed ⊢
  rw [List.append_assoc, List.dropWhile_append_of_pos spaceBefore]
  by_cases empty : stmt = []
  · rw [empty, List.nil_append, List.dropWhile_eq_nil_iff.mpr spaceAfter]
    rfl
  have shorter : stmt.length ≤ (stmt.dropWhile isWhitespace).length := by
    conv_lhs => rw [← trimmed]
    exact (List.rdropWhile_prefix _ _).length_le
  have sameFront : stmt.dropWhile isWhitespace = stmt :=
    (List.dropWhile_suffix isWhitespace).eq_of_length_le shorter
  have sameBack : stmt.rdropWhile isWhitespace = stmt := by rwa [sameFront] at trimmed
  rw [List.dropWhile_append, sameFront, if_neg (by simpa using empty), List.rdropWhile,
    List.reverse_append, List.dropWhile_append_of_pos fun ch isIn =>
      spaceAfter ch (List.mem_reverse.mp isIn)]
  exact sameBack

/-- The layout of a script does not matter: its statements are those written. -/
theorem Writes.splitScriptStatements_eq {stmts : List Text} {script : Text}
    (writes : Writes stmts script) : splitScriptStatements script = stmts := by
  rw [splitScriptStatements]
  induction writes with
  | @last stmt before after isStatement blankBefore blankAfter =>
      have split : splitStatementsFrom [] none false false (before ++ stmt ++ after) =
          closeSegment (before ++ stmt ++ after) := by
        have scanned := splitStatementsFrom_blank blankAfter (before ++ stmt) []
        rw [List.append_nil] at scanned
        rw [List.append_assoc, splitStatementsFrom_blank blankBefore, List.nil_append,
          splitStatementsFrom_closed isStatement.closed, scanned, splitStatementsFrom,
          ← List.append_assoc]
      rw [split, closeSegment, closeSegment, trim_blanks blankBefore blankAfter isStatement.trimmed,
        isStatement.trimmed]
  | @next stmts stmt before after stop rest isStatement blankBefore blankAfter isEnd _ ih =>
      have split : splitStatementsFrom [] none false false
          (before ++ stmt ++ after ++ stop ++ rest) =
            closeSegment (before ++ stmt ++ after) ++
              splitStatementsFrom [] none false false rest := by
        simp only [List.append_assoc]
        rw [splitStatementsFrom_blank blankBefore, List.nil_append,
          splitStatementsFrom_closed isStatement.closed, splitStatementsFrom_blank blankAfter,
          splitStatementsFrom_end isEnd, ← List.append_assoc before]
      rw [split, ih, closeSegment, closeSegment,
        trim_blanks blankBefore blankAfter isStatement.trimmed, isStatement.trimmed]

end Splitting

/-- The bytes of a text. -/
def encode (text : Text) : List UInt8 := text.flatMap String.utf8EncodeChar

/-- The text of bytes. -/
def decode (bytes : List UInt8) : Option Text := bytes.toByteArray.utf8Decode?.map Array.toList

/-- The calls on files: `open` of a path, and `read` of a file into a buffer, which
returns a number of bytes or an error, the buffer and the file behind it. -/
structure FileCalls (φ : Type) where
  openFile : Text → Option φ
  read : φ → List UInt8 → Int × List UInt8 × φ

section Loop

variable {φ : Type} (calls : FileCalls φ)

/-- The loop of the reads; the outer `none` is a loop that has not ended yet. -/
def readLoop : (rounds : Nat) → φ → List UInt8 → Text → Option (Option Text)
  | 0, _, _, _ => none
  | rounds + 1, file, buf, out =>
      let (n, buf, file) := calls.read file buf
      if n ≤ 0 then some (some out)
      else
        match decode (buf.take n.toNat) with
        | none => some none
        | some text => readLoop rounds file buf (out ++ text)

/-- The text of a file. -/
def readFileToString (rounds : Nat) (path : Text) : Option (Option Text) :=
  match calls.openFile path with
  | none => some none
  | some file => readLoop calls rounds file (List.replicate 1024 0) []

/-- Every read fills the buffer as far as bytes are left in the file. -/
structure ReadsInFull (left : φ → List UInt8) : Prop where
  count (file : φ) (buf : List UInt8) :
    (calls.read file buf).1 = (min buf.length (left file).length : Nat)
  bytes (file : φ) (buf : List UInt8) :
    (calls.read file buf).2.1 = (left file).take buf.length ++ buf.drop (left file).length
  rest (file : φ) (buf : List UInt8) :
    left (calls.read file buf).2.2 = (left file).drop buf.length

end Loop

/-- No character of the text lies across the end of a filling of the buffer. -/
def FillsEvenly (text : Text) : Prop :=
  ∀ count, 1024 * count ≤ (encode text).length →
    ∃ front, front <+: text ∧ (encode front).length = 1024 * count

section Reading

@[simp]
theorem encode_append (first second : Text) :
    encode (first ++ second) = encode first ++ encode second := List.flatMap_append

theorem decode_eq_some {bytes : List UInt8} {text : Text} :
    decode bytes = some text ↔ bytes = encode text := by
  constructor
  · intro decoded
    obtain ⟨chars, isChars, rfl⟩ := Option.map_eq_some_iff.mp decoded
    have encoded := @ByteArray.utf8Encode_get_utf8Decode? bytes.toByteArray (by simp [isChars])
    simp only [isChars, Option.get_some] at encoded
    exact (List.toByteArray_inj.mp encoded).symm
  · rintro rfl
    have decoded : (encode text).toByteArray.utf8Decode? = some text.toArray :=
      List.utf8Decode?_utf8Encode
    rw [decode, decoded, Option.map_some]

theorem encode_eq_nil {text : Text} : encode text = [] ↔ text = [] := by
  cases text with
  | nil => simp [encode]
  | cons ch text => simp [encode]

theorem encode_injective : Function.Injective encode := by
  intro first second same
  have decoded := decode_eq_some.mpr same
  rw [decode_eq_some.mpr rfl] at decoded
  exact Option.some.inj decoded

theorem fillsEvenly_nil : FillsEvenly [] :=
  fun _ inside => ⟨[], List.prefix_rfl, (Nat.le_zero.mp inside).symm⟩

/-- The text behind a full buffer. -/
theorem FillsEvenly.rest {front rest : Text} (fills : FillsEvenly (front ++ rest))
    (full : (encode front).length = 1024) : FillsEvenly rest := by
  intro count inside
  obtain ⟨other, isOther, otherLength⟩ := fills (count + 1) (by
    rw [encode_append, List.length_append, full]
    omega)
  rcases List.prefix_or_prefix_of_prefix isOther (List.prefix_append front rest) with
    ⟨behind, isBehind⟩ | ⟨behind, isBehind⟩
  · have shorter := congrArg (fun text => (encode text).length) isBehind
    simp only [encode_append, List.length_append, otherLength, full] at shorter
    exact ⟨[], List.nil_prefix, by simp [encode]; omega⟩
  · rw [← isBehind, encode_append, List.length_append, full] at otherLength
    rw [← isBehind] at isOther
    exact ⟨behind, (List.prefix_append_right_inj front).mp isOther, by omega⟩

theorem FillsEvenly.append {first rest : Text} (fills : FillsEvenly rest)
    (full : rest ≠ [] → (encode first).length = 1024) (short : (encode first).length ≤ 1024) :
    FillsEvenly (first ++ rest) := by
  intro count inside
  rw [encode_append, List.length_append] at inside
  cases count with
  | zero => exact ⟨[], List.nil_prefix, rfl⟩
  | succ count =>
      by_cases empty : rest = []
      · subst empty
        simp only [encode, List.flatMap_nil, List.length_nil, Nat.add_zero] at inside short
        refine ⟨first ++ [], List.prefix_rfl, ?_⟩
        rw [List.append_nil, encode]
        omega
      · rw [full empty] at inside
        obtain ⟨front, isFront, frontLength⟩ := fills count (by omega)
        refine ⟨first ++ front, (List.prefix_append_right_inj first).mpr isFront, ?_⟩
        rw [encode_append, List.length_append, full empty, frontLength]
        omega

section Looping

variable {φ : Type} {calls : FileCalls φ} {left : φ → List UInt8} (reads : ReadsInFull calls left)

include reads

/-- A round of the loop: at the end it stops, otherwise it decodes a filling. -/
theorem ReadsInFull.readLoop_succ (file : φ) {buf : List UInt8} (size : buf.length = 1024)
    (rounds : Nat) (out : Text) :
    ∃ next other, other.length = 1024 ∧ left next = (left file).drop 1024 ∧
      readLoop calls (rounds + 1) file buf out =
        if left file = [] then some (some out)
        else
          match decode ((left file).take 1024) with
          | none => some none
          | some text => readLoop calls rounds next other (out ++ text) := by
  have count := reads.count file buf
  have bytes := reads.bytes file buf
  have rest := reads.rest file buf
  rw [size] at count bytes rest
  refine ⟨(calls.read file buf).2.2, (calls.read file buf).2.1, ?_, rest, ?_⟩
  · rw [bytes, List.length_append, List.length_take, List.length_drop, size]
    omega
  · rw [readLoop]
    simp only [count]
    by_cases atEnd : left file = []
    · rw [if_pos atEnd, if_pos (by simp [atEnd])]
    · have positive := List.length_pos_iff.mpr atEnd
      have taken : ((calls.read file buf).2.1).take (min 1024 (left file).length) =
          (left file).take 1024 := by
        rw [bytes, ← List.length_take, List.take_left]
      rw [if_neg atEnd, if_neg (by omega), Int.toNat_natCast]
      simp only [taken]

/-- What the loop has read, and that its fillings were texts. -/
theorem ReadsInFull.of_readLoop {rounds : Nat} {file : φ} {buf : List UInt8}
    (size : buf.length = 1024) {out text : Text}
    (read : readLoop calls rounds file buf out = some (some text)) :
    ∃ rest, text = out ++ rest ∧ left file = encode rest ∧ FillsEvenly rest := by
  induction rounds generalizing file buf out with
  | zero => cases read
  | succ rounds ih =>
      obtain ⟨next, other, otherSize, nextLeft, round⟩ := reads.readLoop_succ file size rounds out
      rw [round] at read
      by_cases atEnd : left file = []
      · rw [if_pos atEnd] at read
        cases read
        exact ⟨[], (List.append_nil _).symm, atEnd,
          fillsEvenly_nil⟩
      · rw [if_neg atEnd] at read
        cases isText : decode ((left file).take 1024) with
        | none => simp [isText] at read
        | some first =>
            simp only [isText] at read
            obtain ⟨rest, isWhole, isRest, fills⟩ := ih otherSize read
            have isFirst := decode_eq_some.mp isText
            rw [nextLeft] at isRest
            refine ⟨first ++ rest, by rw [isWhole, List.append_assoc], ?_, fills.append ?_ ?_⟩
            · rw [encode_append, ← isFirst, ← isRest, List.take_append_drop]
            · intro someRest
              have behind : encode rest ≠ [] := fun none => someRest (encode_eq_nil.mp none)
              rw [← isRest, ne_eq, List.drop_eq_nil_iff] at behind
              rw [← isFirst, List.length_take]
              omega
            · rw [← isFirst, List.length_take]
              omega

/-- The loop ends behind the last filling. -/
theorem ReadsInFull.readLoop_ends {rounds : Nat} (file : φ) {buf : List UInt8}
    (size : buf.length = 1024) (enough : (left file).length / 1024 + 2 ≤ rounds) (out : Text) :
    ∃ result, readLoop calls rounds file buf out = some result := by
  induction rounds generalizing file buf out with
  | zero => omega
  | succ rounds ih =>
      obtain ⟨next, other, otherSize, nextLeft, round⟩ := reads.readLoop_succ file size rounds out
      rw [round]
      by_cases atEnd : left file = []
      · exact ⟨_, if_pos atEnd⟩
      rw [if_neg atEnd]
      cases isText : decode ((left file).take 1024) with
      | none => exact ⟨none, rfl⟩
      | some first =>
          simp only
          by_cases last : (left file).length ≤ 1024
          · -- The next round finds nothing.
            obtain ⟨rounds, rfl⟩ := Nat.exists_eq_add_one.mpr (show 0 < rounds by omega)
            obtain ⟨_, _, _, _, final⟩ := reads.readLoop_succ next otherSize rounds
              (out ++ first)
            rw [nextLeft, List.drop_of_length_le last, if_pos rfl] at final
            exact ⟨_, final⟩
          · refine ih next otherSize ?_ _
            rw [nextLeft, List.length_drop]
            omega

theorem ReadsInFull.readLoop_of_fillsEvenly {rounds : Nat} {file : φ} {buf : List UInt8}
    (size : buf.length = 1024) {text : Text} (holds : left file = encode text)
    (fills : FillsEvenly text) (enough : (encode text).length / 1024 + 2 ≤ rounds) (out : Text) :
    readLoop calls rounds file buf out = some (some (out ++ text)) := by
  induction rounds generalizing file buf text out with
  | zero => omega
  | succ rounds ih =>
      obtain ⟨next, other, otherSize, nextLeft, round⟩ := reads.readLoop_succ file size rounds out
      rw [round]
      by_cases empty : text = []
      · subst empty
        rw [if_pos (show left file = [] from holds), List.append_nil]
      have someBytes : left file ≠ [] := by
        rw [holds]
        exact fun none => empty (encode_eq_nil.mp none)
      rw [if_neg someBytes]
      by_cases short : (encode text).length ≤ 1024
      · -- The next round finds nothing.
        obtain ⟨rounds, rfl⟩ := Nat.exists_eq_add_one.mpr (show 0 < rounds by omega)
        obtain ⟨_, _, _, _, final⟩ := reads.readLoop_succ next otherSize rounds (out ++ text)
        rw [nextLeft, holds, List.drop_of_length_le short, if_pos rfl] at final
        rw [holds, List.take_of_length_le short, decode_eq_some.mpr rfl]
        exact final
      · obtain ⟨front, ⟨rest, rfl⟩, full⟩ := fills 1 (by omega)
        rw [encode_append, List.length_append, full] at enough
        have isRest : left next = encode rest := by
          rw [nextLeft, holds, encode_append, List.drop_left' full]
        rw [holds, encode_append, List.take_left' full, decode_eq_some.mpr rfl]
        simp only
        rw [ih otherSize isRest (fills.rest full) (by omega), List.append_assoc]

variable {path : Text} {file : φ} (opened : calls.openFile path = some file) {text : Text}
  (holds : left file = encode text) {rounds : Nat}
  (enough : (encode text).length / 1024 + 2 ≤ rounds)

include opened holds enough

/-- A text file is read if no character lies across the end of a filling. -/
theorem ReadsInFull.readFileToString_of_fillsEvenly (fills : FillsEvenly text) :
    readFileToString calls rounds path = some (some text) := by
  rw [readFileToString, opened]
  exact reads.readLoop_of_fillsEvenly List.length_replicate holds fills enough []

/-- Otherwise nothing is read. -/
theorem ReadsInFull.readFileToString_eq_none (splits : ¬ FillsEvenly text) :
    readFileToString calls rounds path = some none := by
  have size : (List.replicate 1024 (0 : UInt8)).length = 1024 := List.length_replicate
  have enoughLeft : (left file).length / 1024 + 2 ≤ rounds := by
    rw [holds]
    exact enough
  obtain ⟨result, ended⟩ := reads.readLoop_ends file size enoughLeft []
  rw [readFileToString, opened]
  cases result with
  | none => exact ended
  | some other =>
      obtain ⟨rest, rfl, isRest, fills⟩ := reads.of_readLoop size ended
      rw [holds] at isRest
      rw [encode_injective isRest] at splits
      exact absurd fills splits

end Looping

theorem fillsEvenly_of_short {text : Text} (short : text.length < 256) : FillsEvenly text := by
  intro count inside
  have bytesLe : (encode text).length ≤ 4 * text.length := by
    rw [encode, List.length_flatMap, Nat.mul_comm]
    refine (List.sum_le_card_nsmul _ 4 ?_).trans_eq (by simp)
    intro size isSize
    obtain ⟨ch, _, rfl⟩ := List.mem_map.mp isSize
    rw [String.length_utf8EncodeChar]
    exact ch.utf8Size_le_four
  exact ⟨[], List.nil_prefix, by simp [encode]; omega⟩

end Reading

section Scripts

variable {σ : Type} (unicode : Unicode) (evalStmt : EvalStmt σ)

/-- The state in which a script starts, without functions. -/
def scriptStart (env : Environment) (world : σ) : State σ := ⟨env, fun _ => none, world, []⟩

/-- Run the script at a path, with rounds for its reads and fuel for its statements:
the exit value and the state. -/
def runScript {φ : Type} (calls : FileCalls φ) (rounds fuel : Nat) (path : Text)
    (env : Environment) (world : σ) : Option (Int × State σ) :=
  match readFileToString calls rounds path with
  | none => none
  | some none => some (-1, scriptStart env world)
  | some (some content) =>
      let stmts := splitScriptStatements content
      (runStmts unicode evalStmt fuel stmts 0 stmts.length (scriptStart env world)).map
        fun result => (0, result.2.2)

variable {unicode evalStmt}

/-- A script that writes a program is run as the program, in any layout, unless a
character lies across the end of a filling: then nothing is run. -/
theorem runScript_written {program : Program} {script : Text}
    (writes : Writes program.flatten script) {envs : Set Environment}
    (valid : program.Valid unicode envs fun _ => none) (keeps : KeepsEnvs evalStmt envs)
    {env : Environment} {world : σ} (among : env ∈ envs)
    (simpleLoops : program.EntersSimpleLoops unicode evalStmt (scriptStart env world))
    {φ : Type} {calls : FileCalls φ} {left : φ → List UInt8} (reads : ReadsInFull calls left)
    {path : Text} {file : φ} (opened : calls.openFile path = some file)
    (holds : left file = encode script) {rounds fuel : Nat}
    (enoughRounds : (encode script).length / 1024 + 2 ≤ rounds)
    (enough : program.flatten.length < fuel) :
    (FillsEvenly script → runScript unicode evalStmt calls rounds fuel path env world =
        some (0, (program.run unicode evalStmt (scriptStart env world)).2)) ∧
      (¬ FillsEvenly script → runScript unicode evalStmt calls rounds fuel path env world =
        some (-1, scriptStart env world)) := by
  rw [runScript]
  constructor
  · intro fills
    rw [reads.readFileToString_of_fillsEvenly opened holds enoughRounds fills]
    simp only
    have placed : Placed program.flatten 0 program.flatten := ⟨[], by simp⟩
    obtain ⟨reached, ran, _⟩ := runStmts_placed valid keeps placed (Nat.zero_add _).symm enough
      ⟨among, rfl⟩ simpleLoops
    rw [writes.splitScriptStatements_eq, ran, Option.map_some]
  · intro splits
    rw [reads.readFileToString_eq_none opened holds enoughRounds splits]

/-- Statements with semicolons between them. -/
theorem writes_semicolons {stmts : List Text} (nonempty : stmts ≠ [])
    (isStatement : ∀ stmt ∈ stmts, IsStatement stmt ∧ stmt ≠ []) :
    Writes stmts (List.intercalate [';'] stmts) := by
  have noBlank : Blank [] := fun _ none => absurd none List.not_mem_nil
  have closed {stmt : Text} (isStmt : IsStatement stmt ∧ stmt ≠ []) : closeSegment stmt = [stmt] := by
    rw [closeSegment, isStmt.1.trimmed, if_neg isStmt.2]
  induction stmts with
  | nil => exact absurd rfl nonempty
  | cons stmt stmts ih =>
      have isStmt := isStatement stmt List.mem_cons_self
      cases stmts with
      | nil =>
          have last := Writes.last isStmt.1 noBlank noBlank
          rw [closed isStmt, List.nil_append, List.append_nil] at last
          simpa [List.intercalate] using last
      | cons second stmts =>
          have others := ih (List.cons_ne_nil _ _) fun other isOther =>
            isStatement other (List.mem_cons_of_mem _ isOther)
          have next := Writes.next isStmt.1 noBlank noBlank .semicolon others
          rw [closed isStmt, List.nil_append, List.append_nil] at next
          rw [List.intercalate_cons_cons]
          exact next

end Scripts

/-- `if [ $a = z ]; then c; else d; fi` -/
def branch : Program :=
  .ifElse ⟨.dollar ['a'], ['='], .literal ['z']⟩ (.command ['c'] .skip) (.command ['d'] .skip) .skip

/-- A file in memory: its bytes behind the position. -/
def memoryCalls (bytes : List UInt8) : FileCalls (List UInt8) where
  openFile := fun _ => some bytes
  read := fun file buf => ((min buf.length file.length : Nat),
    file.take buf.length ++ buf.drop file.length, file.drop buf.length)

theorem runScript_written_branch :
    runScript asciiOnly quiet (memoryCalls (encode (List.intercalate [';'] branch.flatten))) 3 9
        "a.sh".toList startState.env () =
      some (0, (branch.run asciiOnly quiet (scriptStart startState.env ())).2) := by
  have valid : branch.Valid asciiOnly {env | env ['a'] = some ['z']} fun _ => none := by
    refine ⟨⟨?_, ⟨by decide, by decide⟩, ⟨by decide, by decide⟩, ?_⟩, ⟨?_, trivial⟩, ⟨?_, trivial⟩,
      trivial⟩
    · exact isName_of_isIdent (by decide)
    · intro env value
      simp only [Operand.value, show env ['a'] = some ['z'] from value]
      decide
    · exact isCommand_literal _ (by decide) (by decide) (by decide) (by decide)
    · exact isCommand_literal _ (by decide) (by decide) (by decide) (by decide)
  have reads : ReadsInFull (memoryCalls (encode (List.intercalate [';'] branch.flatten)))
      fun bytes => bytes := by
    exact ⟨fun _ _ => rfl, fun _ _ => rfl, fun _ _ => rfl⟩
  exact (runScript_written (writes_semicolons (by decide) (by decide)) valid
    (fun _ _ _ among => among) (Function.update_self _ _ _)
    ⟨fun _ => Or.inr trivial, fun _ => Or.inr trivial, Or.inr trivial⟩
    reads rfl rfl (by decide) (by decide)).1 (fillsEvenly_of_short (by decide))

end Shell

end OSWorkspace
