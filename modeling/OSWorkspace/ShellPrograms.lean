import OSWorkspace.ShellTexts

/-!
# Structured shell programs

Programs of commands, loops and conditionals, their meaning by structure, and
their statement lists.  The interpreter finds the end of a loop body at the
first `done`, without counting loops, so it follows the structure of a program
as long as it enters no loop that has a loop inside.
-/

namespace OSWorkspace

namespace Shell

open Environment

/-- The condition `[ lhs op rhs ]`. -/
structure Test where
  lhs : Operand
  op : Text
  rhs : Operand

namespace Test

def Holds (test : Test) (env : Environment) : Bool :=
  evalTest [test.lhs.value env, test.op, test.rhs.value env]

/-- The words of `if [ lhs op rhs ]`. -/
def operands (test : Test) : List Operand :=
  [.literal "if".toList, .literal ['['], test.lhs, .literal test.op, test.rhs, .literal [']']]

end Test

/-- A sequence of commands, loops and conditionals. -/
inductive Program where
  | skip
  | command (text : Text) (rest : Program)
  | loop (var : Text) (words : List Text) (body rest : Program)
  | ifThen (test : Test) (yes rest : Program)
  | ifElse (test : Test) (yes no rest : Program)

section Meaning

variable {σ : Type}

/-- Run the second part unless the first asked to exit. -/
def andThen (first : Bool × State σ) (next : State σ → Bool × State σ) : Bool × State σ :=
  if first.1 then first else next first.2

/-- One run of the body for each word. -/
def runWords (body : State σ → Bool × State σ) (var : Text) :
    List Text → State σ → Bool × State σ
  | [], state => (false, state)
  | word :: words, state =>
      andThen (body (state.setVar var word)) (runWords body var words)

variable (unicode : Unicode) (evalStmt : EvalStmt σ)

/-- The meaning of a program: whether a command asked to exit, and the state with
the calls made. -/
def Program.run : Program → State σ → Bool × State σ
  | skip, state => (false, state)
  | command text rest, state =>
      andThen (state.call evalStmt (state.env.expandVariables unicode text)) rest.run
  | loop var words body rest, state => andThen (runWords body.run var words state) rest.run
  | ifThen test yes rest, state =>
      andThen (if test.Holds state.env then yes.run state else (false, state)) rest.run
  | ifElse test yes no rest, state =>
      andThen (if test.Holds state.env then yes.run state else no.run state) rest.run

namespace Program

def forText (var : Text) (words : List Text) : Text :=
  spaced ("for".toList :: var :: "in".toList :: words)

/-- The statements of a program, each keyword a statement of its own. -/
def flatten : Program → List Text
  | skip => []
  | command text rest => text :: rest.flatten
  | loop var words body rest =>
      forText var words :: "do".toList :: (body.flatten ++ "done".toList :: rest.flatten)
  | ifThen test yes rest =>
      spaced (test.operands.map Operand.text) :: "then".toList ::
        (yes.flatten ++ "fi".toList :: rest.flatten)
  | ifElse test yes no rest =>
      spaced (test.operands.map Operand.text) :: "then".toList ::
        (yes.flatten ++ "else".toList :: (no.flatten ++ "fi".toList :: rest.flatten))

def hasLoop : Program → Bool
  | skip => false
  | command _ rest => rest.hasLoop
  | loop _ _ _ _ => true
  | ifThen _ yes rest => yes.hasLoop || rest.hasLoop
  | ifElse _ yes no rest => yes.hasLoop || no.hasLoop || rest.hasLoop

/-- Along the run of a program, every loop that is entered has words and no loop
inside. -/
def EntersSimpleLoops : Program → State σ → Prop
  | skip, _ => True
  | command text rest, state =>
      let first := state.call evalStmt (state.env.expandVariables unicode text)
      first.1 = true ∨ rest.EntersSimpleLoops first.2
  | loop var words body rest, state =>
      let first := runWords (body.run unicode evalStmt) var words state
      words ≠ [] ∧ body.hasLoop = false ∧ (first.1 = true ∨ rest.EntersSimpleLoops first.2)
  | ifThen test yes rest, state =>
      let first := if test.Holds state.env then yes.run unicode evalStmt state
        else (false, state)
      (test.Holds state.env = true → yes.EntersSimpleLoops state) ∧
        (first.1 = true ∨ rest.EntersSimpleLoops first.2)
  | ifElse test yes no rest, state =>
      let first := if test.Holds state.env then yes.run unicode evalStmt state
        else no.run unicode evalStmt state
      (test.Holds state.env = true → yes.EntersSimpleLoops state) ∧
        (test.Holds state.env = false → no.EntersSimpleLoops state) ∧
        (first.1 = true ∨ rest.EntersSimpleLoops first.2)

end Program

end Meaning

/-- A statement that is a command before and after expansion, in all of the given
environments. -/
structure IsCommand (unicode : Unicode) (envs : Set Environment)
    (funcs : Text → Option (List Text)) (text : Text) : Prop where
  trimmed : trim text = text
  nonempty : text ≠ []
  notDefinition : isFuncDef text = none
  notAssignment : parseAssignment text = none
  expanded : ∀ env ∈ envs,
    isStructural (env.expandVariables unicode text) = false ∧
      (parseCommand (env.expandVariables unicode text)).head? ≠ some "for".toList ∧
      startsIf (env.expandVariables unicode text) = false ∧
      (parseCommand (env.expandVariables unicode text)).head?.bind funcs = none

/-- Operands are words in all of the given environments, and none is the closing
bracket. -/
structure Test.Valid (test : Test) (envs : Set Environment) : Prop where
  lhs : test.lhs.Valid
  rhs : test.rhs.Valid
  op : IsWord test.op ∧ Literal test.op
  values : ∀ env ∈ envs, ∀ value ∈ [test.lhs.value env, test.op, test.rhs.value env],
    IsWord value ∧ value ≠ [']']

/-- Commands are commands, loops bind identifiers to literal words, and the
environments are closed under these bindings. -/
def Program.Valid (unicode : Unicode) (envs : Set Environment)
    (funcs : Text → Option (List Text)) : Program → Prop
  | skip => True
  | command text rest => IsCommand unicode envs funcs text ∧ rest.Valid unicode envs funcs
  | loop var words body rest =>
      isIdent var = true ∧ (∀ word ∈ words, IsWord word ∧ Literal word) ∧
        (∀ env ∈ envs, ∀ word ∈ words, env.set var word ∈ envs) ∧
        body.Valid unicode envs funcs ∧ rest.Valid unicode envs funcs
  | ifThen test yes rest =>
      test.Valid envs ∧ yes.Valid unicode envs funcs ∧ rest.Valid unicode envs funcs
  | ifElse test yes no rest =>
      test.Valid envs ∧ yes.Valid unicode envs funcs ∧ no.Valid unicode envs funcs ∧
        rest.Valid unicode envs funcs

/-- The callback keeps the environment among the given ones. -/
def KeepsEnvs {σ : Type} (evalStmt : EvalStmt σ) (envs : Set Environment) : Prop :=
  ∀ text env world, env ∈ envs → (evalStmt text (env, world)).2.1 ∈ envs

section Lines

variable (unicode : Unicode) (env : Environment)

/-- A statement as the interpreter compares it. -/
def line (text : Text) : Text := env.expandVariables unicode (trim text)

theorem line_word {word : Text} (isWord : IsWord word) (literal : Literal word) :
    line unicode env word = word := by
  have trimmed := @trim_spaced [word] (by simpa using isWord)
  rw [spaced_singleton] at trimmed
  rw [line, trimmed, expandVariables_literal unicode env literal]

/-- The words of the first statement of a loop. -/
theorem forWords {var : Text} {words : List Text} (ident : isIdent var = true)
    (literals : ∀ word ∈ words, IsWord word ∧ Literal word) :
    ∀ word ∈ "for".toList :: var :: "in".toList :: words, IsWord word ∧ Literal word := by
  have isName := isName_of_isIdent ident
  have isVar : IsWord var ∧ Literal var := by
    refine ⟨⟨isName.nonempty, fun ch chMem => plain_of_ascii (isName.ascii ch chMem)⟩, ?_⟩
    intro ch chMem
    obtain ⟨-, notBackslash, notSingle, notDouble⟩ := plain_of_ascii (isName.ascii ch chMem)
    refine ⟨notBackslash, notSingle, notDouble, ?_⟩
    rintro rfl
    exact absurd (isName.ascii _ chMem) (by decide)
  intro word wordMem
  simp only [List.mem_cons] at wordMem
  rcases wordMem with rfl | rfl | rfl | wordMem
  · decide
  · exact isVar
  · decide
  · exact literals word wordMem

theorem line_for {var : Text} {words : List Text} (ident : isIdent var = true)
    (literals : ∀ word ∈ words, IsWord word ∧ Literal word) :
    line unicode env (Program.forText var words) = Program.forText var words := by
  have isWords := forWords ident literals
  rw [line, Program.forText, trim_spaced fun word wordMem => (isWords word wordMem).1]
  have expanded := @expandVariables_spaced unicode env
    (("for".toList :: var :: "in".toList :: words).map Operand.literal)
    (by
      intro operand operandMem
      obtain ⟨word, wordMem, rfl⟩ := List.mem_map.mp operandMem
      exact isWords word wordMem)
  simpa only [List.map_map, Function.comp_def, Operand.text, Operand.value, List.map_id_fun',
    id_eq] using expanded

theorem forText_shape (var : Text) (words : List Text) :
    ∃ rest, Program.forText var words = 'f' :: 'o' :: 'r' :: ' ' :: rest := by
  exact ⟨spaced (var :: "in".toList :: words), spaced_cons_cons _ _ _⟩

variable {unicode env}

theorem operands_valid {test : Test} {envs : Set Environment} (valid : test.Valid envs) :
    ∀ operand ∈ test.operands, operand.Valid := by
  intro operand operandMem
  simp only [Test.operands, List.mem_cons, List.not_mem_nil, or_false] at operandMem
  rcases operandMem with rfl | rfl | rfl | rfl | rfl | rfl
  · exact ⟨by decide, by decide⟩
  · exact ⟨by decide, by decide⟩
  · exact valid.lhs
  · exact valid.op
  · exact valid.rhs
  · exact ⟨by decide, by decide⟩

theorem line_if {test : Test} {envs : Set Environment} (valid : test.Valid envs) :
    line unicode env (spaced (test.operands.map Operand.text)) =
      spaced (test.operands.map (Operand.value env)) := by
  have operandsValid := operands_valid valid
  rw [line, trim_spaced, expandVariables_spaced unicode env operandsValid]
  intro word wordMem
  obtain ⟨operand, operandMem, rfl⟩ := List.mem_map.mp wordMem
  exact isWord_text (operandsValid operand operandMem)

theorem ifText_shape (test : Test) :
    ∃ rest, spaced (test.operands.map (Operand.value env)) = 'i' :: 'f' :: ' ' :: rest :=
  ⟨_, spaced_cons_cons _ _ _⟩

theorem parseCommand_if {test : Test} {envs : Set Environment} (valid : test.Valid envs)
    (among : env ∈ envs) :
    parseCommand (spaced (test.operands.map (Operand.value env))) =
      ["if".toList, ['['], test.lhs.value env, test.op, test.rhs.value env, [']']] := by
  have values := valid.values env among
  apply parseCommand_spaced
  intro word wordMem
  simp only [Test.operands, List.map_cons, List.map_nil, List.mem_cons, List.not_mem_nil, or_false,
    Operand.value] at wordMem
  rcases wordMem with rfl | rfl | rfl | rfl | rfl | rfl
  · decide
  · decide
  · exact (values (test.lhs.value env) (by simp)).1
  · exact (values test.op (by simp)).1
  · exact (values (test.rhs.value env) (by simp)).1
  · decide

theorem evalIfCondition_test {test : Test} {envs : Set Environment} (valid : test.Valid envs)
    (among : env ∈ envs) :
    evalIfCondition (spaced (test.operands.map (Operand.value env))) =
      some (test.Holds env) := by
  have values := valid.values env among
  have lhs := (values _ (show test.lhs.value env ∈ _ by simp)).2
  have op := (values _ (show test.op ∈ _ by simp)).2
  have rhs := (values _ (show test.rhs.value env ∈ _ by simp)).2
  rw [evalIfCondition, parseCommand_if valid among]
  simp [Test.Holds, lhs, op, rhs]

end Lines

section Scans

variable {unicode : Unicode} {envs : Set Environment} {funcs : Text → Option (List Text)}
  {env : Environment} (among : env ∈ envs)

theorem line_command {text : Text} (isCommand : IsCommand unicode envs funcs text) :
    line unicode env text = env.expandVariables unicode text := by
  rw [line, isCommand.trimmed]

theorem findDone_skip {text : Text} (other : line unicode env text ≠ "done".toList)
    (stmts : List Text) (index : Nat) :
    findDone (env.expandVariables unicode) (text :: stmts) index =
      findDone (env.expandVariables unicode) stmts (index + 1) := by
  rw [findDone, ← line, if_neg other]

theorem findFi_skip {text : Text} (notIf : startsIf (line unicode env text) = false)
    (notFi : line unicode env text ≠ "fi".toList)
    (notElse : line unicode env text ≠ "else".toList) (stmts : List Text)
    (index depth : Nat) (elseAt : Option Nat) :
    findFi (env.expandVariables unicode) (text :: stmts) index depth elseAt =
      findFi (env.expandVariables unicode) stmts (index + 1) depth elseAt := by
  simp only [findFi]
  rw [← line, if_neg (by simp [notIf]), if_neg notFi, if_neg fun both => notElse both.2]

theorem findFi_enter {test : Test} (valid : test.Valid envs) (stmts : List Text)
    (index depth : Nat) (elseAt : Option Nat) :
    findFi (env.expandVariables unicode) (spaced (test.operands.map Operand.text) :: stmts)
        index depth elseAt =
      findFi (env.expandVariables unicode) stmts (index + 1) (depth + 1) elseAt := by
  obtain ⟨tail, shape⟩ := @ifText_shape env test
  simp only [findFi]
  rw [← line, line_if valid, shape, if_pos (by simp [startsIf])]

/-- The `fi` of an inner conditional. -/
theorem findFi_leave (stmts : List Text) (index : Nat) {depth : Nat} (positive : 1 ≤ depth)
    (elseAt : Option Nat) :
    findFi (env.expandVariables unicode) ("fi".toList :: stmts) index (depth + 1) elseAt =
      findFi (env.expandVariables unicode) stmts (index + 1) depth elseAt := by
  simp only [findFi]
  rw [← line, line_word unicode env (by decide) (by decide), if_neg (by decide), if_pos rfl,
    Nat.add_sub_cancel, if_neg (by omega)]

/-- The `fi` that closes the conditional. -/
theorem findFi_outerFi (stmts : List Text) (index : Nat) (elseAt : Option Nat) :
    findFi (env.expandVariables unicode) ("fi".toList :: stmts) index 1 elseAt =
      some (index, elseAt) := by
  simp only [findFi]
  rw [← line, line_word unicode env (by decide) (by decide), if_neg (by decide), if_pos rfl,
    if_pos trivial]

/-- The `else` of the conditional. -/
theorem findFi_outerElse (stmts : List Text) (index : Nat) (elseAt : Option Nat) :
    findFi (env.expandVariables unicode) ("else".toList :: stmts) index 1 elseAt =
      findFi (env.expandVariables unicode) stmts (index + 1) 1 (some index) := by
  simp only [findFi]
  rw [← line, line_word unicode env (by decide) (by decide), if_neg (by decide),
    if_neg (by decide), if_pos ⟨trivial, rfl⟩]

/-- The `else` of an inner conditional. -/
theorem findFi_innerElse (stmts : List Text) (index : Nat) {depth : Nat} (positive : 1 ≤ depth)
    (elseAt : Option Nat) :
    findFi (env.expandVariables unicode) ("else".toList :: stmts) index (depth + 1) elseAt =
      findFi (env.expandVariables unicode) stmts (index + 1) (depth + 1) elseAt := by
  simp only [findFi]
  rw [← line, line_word unicode env (by decide) (by decide), if_neg (by decide),
    if_neg (by decide), if_neg fun both => by omega]

/-- A keyword other than those of conditionals. -/
theorem findFi_keyword {word : Text} (isWord : IsWord word ∧ Literal word)
    (other : startsIf word = false ∧ word ≠ "fi".toList ∧ word ≠ "else".toList)
    (stmts : List Text) (index depth : Nat) (elseAt : Option Nat) :
    findFi (env.expandVariables unicode) (word :: stmts) index depth elseAt =
      findFi (env.expandVariables unicode) stmts (index + 1) depth elseAt := by
  have same := line_word unicode env isWord.1 isWord.2
  apply findFi_skip
  · rw [same]
    exact other.1
  · rw [same]
    exact other.2.1
  · rw [same]
    exact other.2.2

include among

/-- The body of a loop without a loop inside holds no `done`. -/
theorem findDone_flatten {program : Program} (valid : program.Valid unicode envs funcs)
    (noLoop : program.hasLoop = false) (rest : List Text) (index : Nat) :
    findDone (env.expandVariables unicode) (program.flatten ++ rest) index =
      findDone (env.expandVariables unicode) rest (index + program.flatten.length) := by
  have keyword {word : Text} (isWord : IsWord word ∧ Literal word)
      (other : word ≠ "done".toList) : line unicode env word ≠ "done".toList := by
    rw [line_word unicode env isWord.1 isWord.2]
    exact other
  have conditional {test : Test} (testValid : test.Valid envs) :
      line unicode env (spaced (test.operands.map Operand.text)) ≠ "done".toList := by
    obtain ⟨tail, shape⟩ := @ifText_shape env test
    rw [line_if testValid, shape]
    simp
  induction program generalizing rest index with
  | skip => simp [Program.flatten]
  | command text next ih =>
      have other : line unicode env text ≠ "done".toList := by
        have plain := (valid.1.expanded env among).1
        rw [line_command valid.1]
        intro same
        simp [same, isStructural] at plain
      rw [Program.flatten, List.cons_append, findDone_skip other, ih valid.2 noLoop]
      congr 1
      simp only [List.length_cons]
      omega
  | loop var words body next _ _ => simp [Program.hasLoop] at noLoop
  | ifThen test yes next yesIH nextIH =>
      simp only [Program.hasLoop, Bool.or_eq_false_iff] at noLoop
      obtain ⟨testValid, yesValid, nextValid⟩ := valid
      simp only [Program.flatten, List.cons_append, List.append_assoc]
      rw [findDone_skip (conditional testValid), findDone_skip (keyword (by decide) (by decide)),
        yesIH yesValid noLoop.1, findDone_skip (keyword (by decide) (by decide)),
        nextIH nextValid noLoop.2]
      congr 1
      simp only [List.length_cons, List.length_append]
      omega
  | ifElse test yes no next yesIH noIH nextIH =>
      simp only [Program.hasLoop, Bool.or_eq_false_iff] at noLoop
      obtain ⟨testValid, yesValid, noValid, nextValid⟩ := valid
      simp only [Program.flatten, List.cons_append, List.append_assoc]
      rw [findDone_skip (conditional testValid), findDone_skip (keyword (by decide) (by decide)),
        yesIH yesValid noLoop.1.1, findDone_skip (keyword (by decide) (by decide)),
        noIH noValid noLoop.1.2, findDone_skip (keyword (by decide) (by decide)),
        nextIH nextValid noLoop.2]
      congr 1
      simp only [List.length_cons, List.length_append]
      omega

/-- Conditionals are counted, so the scan for `fi` passes over whole programs. -/
theorem findFi_flatten {program : Program} (valid : program.Valid unicode envs funcs)
    (rest : List Text) (index : Nat) {depth : Nat} (positive : 1 ≤ depth)
    (elseAt : Option Nat) :
    findFi (env.expandVariables unicode) (program.flatten ++ rest) index depth elseAt =
      findFi (env.expandVariables unicode) rest (index + program.flatten.length) depth
        elseAt := by
  induction program generalizing rest index depth with
  | skip => simp [Program.flatten]
  | command text next ih =>
      have plain := valid.1.expanded env among
      rw [← line_command valid.1] at plain
      have notFi : line unicode env text ≠ "fi".toList := by
        intro same
        simp [same, isStructural] at plain
      have notElse : line unicode env text ≠ "else".toList := by
        intro same
        simp [same, isStructural] at plain
      rw [Program.flatten, List.cons_append, findFi_skip plain.2.2.1 notFi notElse,
        ih valid.2 _ _ positive]
      congr 1
      simp only [List.length_cons]
      omega
  | loop var words body next bodyIH nextIH =>
      obtain ⟨ident, literals, -, bodyValid, nextValid⟩ := valid
      obtain ⟨tail, shape⟩ := forText_shape var words
      have header := line_for unicode env ident literals
      rw [shape] at header
      simp only [Program.flatten, List.cons_append, List.append_assoc]
      rw [shape, findFi_skip (by rw [header]; simp [startsIf, List.isPrefixOf]) (by rw [header]; simp)
          (by rw [header]; simp), findFi_keyword (by decide) (by decide),
        bodyIH bodyValid _ _ positive, findFi_keyword (by decide) (by decide),
        nextIH nextValid _ _ positive]
      congr 1
      simp only [List.length_cons, List.length_append]
      omega
  | ifThen test yes next yesIH nextIH =>
      obtain ⟨testValid, yesValid, nextValid⟩ := valid
      simp only [Program.flatten, List.cons_append, List.append_assoc]
      rw [findFi_enter testValid, findFi_keyword (by decide) (by decide),
        yesIH yesValid _ _ (by omega), findFi_leave _ _ positive,
        nextIH nextValid _ _ positive]
      congr 1
      simp only [List.length_cons, List.length_append]
      omega
  | ifElse test yes no next yesIH noIH nextIH =>
      obtain ⟨testValid, yesValid, noValid, nextValid⟩ := valid
      simp only [Program.flatten, List.cons_append, List.append_assoc]
      rw [findFi_enter testValid, findFi_keyword (by decide) (by decide),
        yesIH yesValid _ _ (by omega), findFi_innerElse _ _ positive,
        noIH noValid _ _ (by omega), findFi_leave _ _ positive,
        nextIH nextValid _ _ positive]
      congr 1
      simp only [List.length_cons, List.length_append]
      omega

end Scans

/-- The segment stands in the list from an index on. -/
def Placed (stmts : List Text) (index : Nat) (segment : List Text) : Prop :=
  segment <+: stmts.drop index

namespace Placed

variable {stmts : List Text} {index : Nat}

theorem head {text : Text} {segment : List Text} (placed : Placed stmts index (text :: segment)) :
    stmts[index]? = some text := by
  obtain ⟨rest, shape⟩ := placed
  have first := congrArg (fun list => list[0]?) shape
  simpa using first.symm

theorem append {first second : List Text} (placed : Placed stmts index (first ++ second)) :
    Placed stmts index first ∧ Placed stmts (index + first.length) second := by
  obtain ⟨rest, shape⟩ := placed
  refine ⟨⟨second ++ rest, by rw [← shape, List.append_assoc]⟩, rest, ?_⟩
  rw [← List.drop_drop, ← shape, List.append_assoc, List.drop_left]

theorem tail {text : Text} {segment : List Text} (placed : Placed stmts index (text :: segment)) :
    Placed stmts (index + 1) segment :=
  (append (show Placed stmts index ([text] ++ segment) from placed)).2

theorem slice_eq {segment : List Text} {stop : Nat} (placed : Placed stmts index segment)
    (ends : stop = index + segment.length) : slice stmts index stop = segment := by
  obtain ⟨rest, shape⟩ := placed
  rw [slice, ends, List.drop_take, Nat.add_sub_cancel_left, ← shape, List.take_left]

end Placed

section Runs

variable {σ : Type} {unicode : Unicode} {evalStmt : EvalStmt σ} {envs : Set Environment}
  {funcs : Text → Option (List Text)}

/-- The states of a run. -/
def Among (envs : Set Environment) (funcs : Text → Option (List Text)) (state : State σ) : Prop :=
  state.env ∈ envs ∧ state.funcs = funcs

theorem Among.andThen {first : Bool × State σ} {next : State σ → Bool × State σ}
    (firstAmong : Among envs funcs first.2)
    (nextAmong : ∀ state, Among envs funcs state → Among envs funcs (next state).2) :
    Among envs funcs (andThen first next).2 := by
  rw [Shell.andThen]
  split
  · exact firstAmong
  · exact nextAmong _ firstAmong

theorem Among.runWords {body : State σ → Bool × State σ} {var : Text} {words : List Text}
    (binds : ∀ env ∈ envs, ∀ word ∈ words, env.set var word ∈ envs)
    (bodyAmong : ∀ state, Among envs funcs state → Among envs funcs (body state).2)
    {state : State σ} (among : Among envs funcs state) :
    Among envs funcs (runWords body var words state).2 := by
  induction words generalizing state with
  | nil => exact among
  | cons word words ih =>
      apply Among.andThen
      · exact bodyAmong _ ⟨binds _ among.1 word (by simp), among.2⟩
      · intro next nextAmong
        exact ih (fun env envMem other otherMem => binds env envMem other (by simp [otherMem]))
          nextAmong

theorem Among.run {program : Program} (valid : program.Valid unicode envs funcs)
    (keeps : KeepsEnvs evalStmt envs) {state : State σ} (among : Among envs funcs state) :
    Among envs funcs (program.run unicode evalStmt state).2 := by
  induction program generalizing state with
  | skip => exact among
  | command text rest ih =>
      apply Among.andThen
      · exact ⟨keeps _ _ _ among.1, among.2⟩
      · exact fun next nextAmong => ih valid.2 nextAmong
  | loop var words body rest bodyIH restIH =>
      obtain ⟨-, -, binds, bodyValid, restValid⟩ := valid
      apply Among.andThen
      · exact Among.runWords binds (fun next nextAmong => bodyIH bodyValid nextAmong) among
      · exact fun next nextAmong => restIH restValid nextAmong
  | ifThen test yes rest yesIH restIH =>
      obtain ⟨-, yesValid, restValid⟩ := valid
      apply Among.andThen
      · split
        · exact yesIH yesValid among
        · exact among
      · exact fun next nextAmong => restIH restValid nextAmong
  | ifElse test yes no rest yesIH noIH restIH =>
      obtain ⟨-, yesValid, noValid, restValid⟩ := valid
      apply Among.andThen
      · split
        · exact yesIH yesValid among
        · exact noIH noValid among
      · exact fun next nextAmong => restIH restValid nextAmong

theorem entersSimpleLoops_of_noLoop {program : Program} (noLoop : program.hasLoop = false)
    (state : State σ) : program.EntersSimpleLoops unicode evalStmt state := by
  induction program generalizing state with
  | skip => trivial
  | command text rest ih => exact Or.inr (ih noLoop _)
  | loop var words body rest _ _ => simp [Program.hasLoop] at noLoop
  | ifThen test yes rest yesIH restIH =>
      simp only [Program.hasLoop, Bool.or_eq_false_iff] at noLoop
      exact ⟨fun _ => yesIH noLoop.1 _, Or.inr (restIH noLoop.2 _)⟩
  | ifElse test yes no rest yesIH noIH restIH =>
      simp only [Program.hasLoop, Bool.or_eq_false_iff] at noLoop
      exact ⟨fun _ => yesIH noLoop.1.1 _, fun _ => noIH noLoop.1.2 _,
        Or.inr (restIH noLoop.2 _)⟩

/-- The item loop follows the meaning of a loop if the runs of the body do. -/
theorem runItems_eq {run : State σ → Option (Bool × State σ)} {body : State σ → Bool × State σ}
    {var : Text} {words : List Text}
    (binds : ∀ env ∈ envs, ∀ word ∈ words, env.set var word ∈ envs)
    (agree : ∀ state, Among envs funcs state → run state = some (body state))
    (bodyAmong : ∀ state, Among envs funcs state → Among envs funcs (body state).2)
    {state : State σ} (among : Among envs funcs state) :
    runItems run var words state = some (runWords body var words state) := by
  induction words generalizing state with
  | nil => rfl
  | cons word words ih =>
      have bound : Among envs funcs (state.setVar var word) :=
        ⟨binds _ among.1 word (by simp), among.2⟩
      rw [runItems, agree _ bound, runWords, andThen]
      rcases shape : body (state.setVar var word) with ⟨exit, after⟩
      have afterAmong := bodyAmong _ bound
      rw [shape] at afterAmong
      cases exit with
      | true => rfl
      | false =>
          exact ih (fun env envMem other otherMem => binds env envMem other (by simp [otherMem]))
            afterAmong

theorem runStmts_succ {fuel : Nat} {stmts : List Text} {idx stop : Nat} {state : State σ}
    {stmt : Text} (inside : idx < stop) (found : stmts[idx]? = some stmt) :
    runStmts unicode evalStmt (fuel + 1) stmts idx stop state =
      runStmt unicode evalStmt (runStmts unicode evalStmt fuel) stmts idx stop state
        (trim stmt) := by
  rw [runStmts, if_neg (by omega), found]

section Statements

variable {run : RunRange σ} {stmts : List Text} {idx stop : Nat} {state : State σ}
  (among : Among envs funcs state)

include among

theorem runStmt_command {text : Text} (isCommand : IsCommand unicode envs funcs text) :
    runStmt unicode evalStmt run stmts idx stop state (trim text) =
      afterBlock run stmts idx stop (idx + 1)
        (some (state.call evalStmt (state.env.expandVariables unicode text))) := by
  obtain ⟨notStructural, notFor, notIf, notFunc⟩ := isCommand.expanded _ among.1
  simp only [runStmt, isCommand.trimmed, if_neg isCommand.nonempty, isCommand.notDefinition,
    isCommand.notAssignment, notStructural, Bool.false_eq_true, if_false, if_neg notFor, notIf,
    runCommand, among.2, notFunc]

omit among in
/-- The keyword that opens a block follows its first statement. -/
theorem skipEmpty_keyword {word : Text} (isWord : IsWord word) {segment : List Text}
    (placed : Placed stmts (idx + 1) (word :: segment))
    (ends : stop = idx + 1 + (word :: segment).length) :
    skipEmpty (slice stmts (idx + 1) stop) (idx + 1) = idx + 1 := by
  have trimmed := @trim_spaced [word] (by simpa using isWord)
  rw [spaced_singleton] at trimmed
  rw [placed.slice_eq ends, skipEmpty, trimmed, if_neg isWord.nonempty]

theorem runStmt_for {var : Text} {words : List Text} {body : Program} {rest : List Text}
    (ident : isIdent var = true) (literals : ∀ word ∈ words, IsWord word ∧ Literal word)
    (nonempty : words ≠ []) (bodyValid : body.Valid unicode envs funcs)
    (noLoop : body.hasLoop = false)
    (placed : Placed stmts (idx + 1) ("do".toList :: (body.flatten ++ "done".toList :: rest)))
    (ends : stop = idx + 1 + ("do".toList :: (body.flatten ++ "done".toList :: rest)).length) :
    runStmt unicode evalStmt run stmts idx stop state (trim (Program.forText var words)) =
      afterBlock run stmts idx stop (idx + 2 + body.flatten.length + 1)
        (runItems (fun state =>
          blockResult (run stmts (idx + 2) (idx + 2 + body.flatten.length) state))
          var words state) := by
  have isWords := forWords ident literals
  have onlyWords : ∀ word ∈ "for".toList :: var :: "in".toList :: words, IsWord word :=
    fun word wordMem => (isWords word wordMem).1
  have trimmed : trim (Program.forText var words) = Program.forText var words :=
    trim_spaced onlyWords
  have expanded := line_for unicode state.env ident literals
  rw [line, trimmed] at expanded
  have tokens : parseCommand (Program.forText var words) =
      "for".toList :: var :: "in".toList :: words := parseCommand_spaced onlyWords
  obtain ⟨tail, shape⟩ := forText_shape var words
  have notDefinition : isFuncDef (Program.forText var words) = none := by
    have notBrace : var ≠ ['{'] := by
      rintro rfl
      simp [isIdent] at ident
    simp [isFuncDef, tokens, notBrace]
  have notAssignment : parseAssignment (Program.forText var words) = none := by
    simp [parseAssignment, tokens]
  have notStructural : isStructural (Program.forText var words) = false := by
    rw [shape]
    simp [isStructural]
  have items : splitWhitespace (state.env.expandVariables unicode (spaced words)) = words := by
    have copied := @expandVariables_spaced unicode state.env (words.map Operand.literal)
      (by
        intro operand operandMem
        obtain ⟨word, wordMem, rfl⟩ := List.mem_map.mp operandMem
        exact literals word wordMem)
    simp only [List.map_map, Function.comp_def, Operand.text, Operand.value, List.map_id_fun',
      id_eq] at copied
    rw [copied, splitWhitespace_spaced fun word wordMem => (literals word wordMem).1]
  have header : forHeader ("for".toList :: var :: "in".toList :: words) =
      some (var, spaced words) := by
    cases words with
    | nil => exact absurd rfl nonempty
    | cons word words => simp [forHeader, ident, spaced]
  have keyword : state.env.expandVariables unicode (trim (stmts.getD (idx + 1) [])) =
      "do".toList := by
    rw [List.getD, placed.head, Option.getD_some, ← line]
    exact line_word unicode state.env (by decide) (by decide)
  have done : findDone (state.env.expandVariables unicode) (slice stmts (idx + 2) stop)
      (idx + 2) = some (idx + 2 + body.flatten.length) := by
    rw [placed.tail.slice_eq (by rw [ends]; simp only [List.length_cons]; omega),
      findDone_flatten among.1 bodyValid noLoop, findDone, ← line,
      line_word unicode state.env (by decide) (by decide), if_pos rfl]
  rw [runStmt, trimmed, if_neg (by rw [shape]; simp), notDefinition, notAssignment]
  simp only [expanded, notStructural, Bool.false_eq_true, if_false, tokens, List.head?_cons,
    if_true]
  simp only [runFor, header, items, skipEmpty_keyword (by decide) placed ends, keyword, done]
  rw [if_neg]
  rintro (outside | other)
  · rw [ends] at outside
    simp only [List.length_cons] at outside
    omega
  · exact other rfl

/-- A conditional runs its branch; `elseAt` and `fiAt` are the ends of the branches. -/
theorem runStmt_if {test : Test} {segment : List Text} {fiAt : Nat} {elseAt : Option Nat}
    (valid : test.Valid envs) (placed : Placed stmts (idx + 1) ("then".toList :: segment))
    (ends : stop = idx + 1 + ("then".toList :: segment).length)
    (found : findFi (state.env.expandVariables unicode) segment (idx + 2) 1 none =
      some (fiAt, elseAt)) :
    runStmt unicode evalStmt run stmts idx stop state
        (trim (spaced (test.operands.map Operand.text))) =
      afterBlock run stmts idx stop (fiAt + 1)
        (runBranch run stmts state (test.Holds state.env) (idx + 2) fiAt elseAt) := by
  have operandsValid := operands_valid valid
  have isWords : ∀ word ∈ test.operands.map Operand.text, IsWord word := by
    intro word wordMem
    obtain ⟨operand, operandMem, rfl⟩ := List.mem_map.mp wordMem
    exact isWord_text (operandsValid operand operandMem)
  have trimmed := trim_spaced isWords
  have expanded := @line_if unicode state.env _ _ valid
  rw [line, trimmed] at expanded
  have tokens := parseCommand_spaced isWords
  have notDefinition : isFuncDef (spaced (test.operands.map Operand.text)) = none := by
    rw [isFuncDef, tokens]
    simp [Test.operands, Operand.text]
  have notAssignment : parseAssignment (spaced (test.operands.map Operand.text)) = none := by
    rw [parseAssignment, tokens]
    simp [Test.operands]
  have nonempty : spaced (test.operands.map Operand.text) ≠ [] :=
    spaced_ne_nil (show Operand.text (.literal "if".toList) ≠ [] by decide)
  obtain ⟨tail, shape⟩ := @ifText_shape state.env test
  have notStructural : isStructural (spaced (test.operands.map (Operand.value state.env))) =
      false := by
    rw [shape]
    simp [isStructural]
  have startsWithIf : startsIf (spaced (test.operands.map (Operand.value state.env))) = true := by
    rw [shape]
    simp [startsIf]
  have notFor : (parseCommand (spaced (test.operands.map (Operand.value state.env)))).head? ≠
      some "for".toList := by
    rw [parseCommand_if valid among.1]
    simp
  have keyword : state.env.expandVariables unicode (trim (stmts.getD (idx + 1) [])) =
      "then".toList := by
    rw [List.getD, placed.head, Option.getD_some, ← line]
    exact line_word unicode state.env (by decide) (by decide)
  have scanned : findFi (state.env.expandVariables unicode) (slice stmts (idx + 2) stop)
      (idx + 2) 1 none = some (fiAt, elseAt) := by
    rw [placed.tail.slice_eq (by rw [ends]; simp only [List.length_cons]; omega), found]
  rw [runStmt, trimmed, if_neg nonempty, notDefinition, notAssignment]
  simp only [expanded, notStructural, Bool.false_eq_true, if_false, if_neg notFor, startsWithIf,
    if_true]
  simp only [runIf, evalIfCondition_test valid among.1, Option.getD_some,
    skipEmpty_keyword (by decide) placed ends, keyword, scanned]
  rw [if_neg]
  rintro (outside | other)
  · rw [ends] at outside
    simp only [List.length_cons] at outside
    omega
  · exact other rfl

end Statements

/-- A range is run as a program: the same exit, state and calls, up to the end
of the range unless a command asked to exit. -/
def RunsAs (result : Option (Bool × Nat × State σ)) (meaning : Bool × State σ) (stop : Nat) :
    Prop :=
  ∃ reached, result = some (meaning.1, reached, meaning.2) ∧
    (meaning.1 = false → reached = stop)

theorem RunsAs.blockResult {result : Option (Bool × Nat × State σ)} {meaning : Bool × State σ}
    {stop : Nat} (runs : RunsAs result meaning stop) : blockResult result = some meaning := by
  obtain ⟨reached, rfl, -⟩ := runs
  rfl

/-- A block followed by the rest of its range. -/
theorem RunsAs.afterBlock {run : RunRange σ} {stmts : List Text} {idx stop next : Nat}
    {block : Option (Bool × State σ)} {meaning : Bool × State σ}
    {rest : State σ → Bool × State σ} (ran : block = some meaning)
    (goesOn : meaning.1 = false →
      RunsAs (run stmts next stop meaning.2) (rest meaning.2) stop) :
    RunsAs (afterBlock run stmts idx stop next block) (andThen meaning rest) stop := by
  subst ran
  rcases meaning with ⟨exit, after⟩
  cases exit with
  | true => exact ⟨idx, rfl, fun going => absurd going (by simp [andThen])⟩
  | false => exact goesOn rfl

theorem runStmts_placed {program : Program} (valid : program.Valid unicode envs funcs)
    (keeps : KeepsEnvs evalStmt envs) {stmts : List Text} {idx stop fuel : Nat}
    {state : State σ} (placed : Placed stmts idx program.flatten)
    (ends : stop = idx + program.flatten.length) (enough : program.flatten.length < fuel)
    (among : Among envs funcs state)
    (simpleLoops : program.EntersSimpleLoops unicode evalStmt state) :
    RunsAs (runStmts unicode evalStmt fuel stmts idx stop state)
      (program.run unicode evalStmt state) stop := by
  -- Every round leaves one unit of fuel less for a range with fewer statements.
  induction program generalizing idx stop fuel state with
  | skip =>
      obtain ⟨fuel, rfl⟩ : ∃ less, fuel = less + 1 := ⟨fuel - 1, by omega⟩
      simp only [Program.flatten, List.length_nil, Nat.add_zero] at ends
      subst ends
      exact ⟨stop, by rw [runStmts, if_pos (Nat.le_refl _)]; rfl, fun _ => rfl⟩
  | command text rest ih =>
      obtain ⟨fuel, rfl⟩ : ∃ less, fuel = less + 1 := ⟨fuel - 1, by omega⟩
      simp only [Program.flatten, List.length_cons] at ends enough placed
      rw [runStmts_succ (by omega) placed.head, runStmt_command among valid.1]
      rw [Program.run]
      apply RunsAs.afterBlock rfl
      intro going
      exact ih valid.2 placed.tail (by omega) (by omega) ⟨keeps _ _ _ among.1, among.2⟩
        (simpleLoops.resolve_left (by simp [going]))
  | loop var words body rest bodyIH restIH =>
      obtain ⟨fuel, rfl⟩ : ∃ less, fuel = less + 1 := ⟨fuel - 1, by omega⟩
      obtain ⟨ident, literals, binds, bodyValid, restValid⟩ := valid
      obtain ⟨nonempty, noLoop, goesOn⟩ := simpleLoops
      simp only [Program.flatten] at ends enough placed
      have lengths := ends
      simp only [List.length_cons, List.length_append] at lengths enough
      obtain ⟨bodyPlaced, restPlaced⟩ := placed.tail.tail.append
      rw [runStmts_succ (by omega) placed.head,
        runStmt_for among ident literals nonempty bodyValid noLoop placed.tail
          (by rw [ends, List.length_cons]; omega), Program.run]
      have bodyRuns (inner : State σ) (innerAmong : Among envs funcs inner) :=
        (@bodyIH bodyValid _ _ fuel _ bodyPlaced rfl (by omega) innerAmong
          (entersSimpleLoops_of_noLoop noLoop inner)).blockResult
      have bodyAmong (inner : State σ) (innerAmong : Among envs funcs inner) :=
        Among.run bodyValid keeps innerAmong
      apply RunsAs.afterBlock (runItems_eq binds bodyRuns bodyAmong among)
      intro going
      exact restIH restValid restPlaced.tail (by omega) (by omega)
        (Among.runWords binds bodyAmong among) (goesOn.resolve_left (by simp [going]))
  | ifThen test yes rest yesIH restIH =>
      obtain ⟨fuel, rfl⟩ : ∃ less, fuel = less + 1 := ⟨fuel - 1, by omega⟩
      obtain ⟨testValid, yesValid, restValid⟩ := valid
      obtain ⟨yesSimple, goesOn⟩ := simpleLoops
      simp only [Program.flatten] at ends enough placed
      have lengths := ends
      simp only [List.length_cons, List.length_append] at lengths enough
      obtain ⟨yesPlaced, restPlaced⟩ := placed.tail.tail.append
      have found : findFi (state.env.expandVariables unicode)
          (yes.flatten ++ "fi".toList :: rest.flatten) (idx + 2) 1 none =
            some (idx + 2 + yes.flatten.length, none) := by
        rw [findFi_flatten among.1 yesValid _ _ (Nat.le_refl _), findFi_outerFi]
      rw [runStmts_succ (by omega) placed.head,
        runStmt_if among testValid placed.tail (by rw [ends, List.length_cons]; omega) found,
        Program.run]
      have branch : runBranch (runStmts unicode evalStmt fuel) stmts state
          (test.Holds state.env) (idx + 2) (idx + 2 + yes.flatten.length) none =
            some (if test.Holds state.env then yes.run unicode evalStmt state
              else (false, state)) := by
        cases holds : test.Holds state.env with
        | true =>
            exact (yesIH yesValid yesPlaced rfl (by omega) among (yesSimple holds)).blockResult
        | false => rfl
      have branchAmong : Among envs funcs (if test.Holds state.env then
          yes.run unicode evalStmt state else (false, state)).2 := by
        split
        · exact Among.run yesValid keeps among
        · exact among
      apply RunsAs.afterBlock branch
      intro going
      exact restIH restValid restPlaced.tail (by omega) (by omega) branchAmong
        (goesOn.resolve_left (by simp [going]))
  | ifElse test yes no rest yesIH noIH restIH =>
      obtain ⟨fuel, rfl⟩ : ∃ less, fuel = less + 1 := ⟨fuel - 1, by omega⟩
      obtain ⟨testValid, yesValid, noValid, restValid⟩ := valid
      obtain ⟨yesSimple, noSimple, goesOn⟩ := simpleLoops
      simp only [Program.flatten] at ends enough placed
      have lengths := ends
      simp only [List.length_cons, List.length_append] at lengths enough
      obtain ⟨yesPlaced, elsePlaced⟩ := placed.tail.tail.append
      obtain ⟨noPlaced, restPlaced⟩ := elsePlaced.tail.append
      have found : findFi (state.env.expandVariables unicode)
          (yes.flatten ++ "else".toList :: (no.flatten ++ "fi".toList :: rest.flatten))
            (idx + 2) 1 none =
          some (idx + 2 + yes.flatten.length + 1 + no.flatten.length,
            some (idx + 2 + yes.flatten.length)) := by
        rw [findFi_flatten among.1 yesValid _ _ (Nat.le_refl _), findFi_outerElse,
          findFi_flatten among.1 noValid _ _ (Nat.le_refl _), findFi_outerFi]
      rw [runStmts_succ (by omega) placed.head,
        runStmt_if among testValid placed.tail (by rw [ends, List.length_cons]; omega) found,
        Program.run]
      have branch : runBranch (runStmts unicode evalStmt fuel) stmts state
          (test.Holds state.env) (idx + 2) (idx + 2 + yes.flatten.length + 1 + no.flatten.length)
            (some (idx + 2 + yes.flatten.length)) =
          some (if test.Holds state.env then yes.run unicode evalStmt state
            else no.run unicode evalStmt state) := by
        cases holds : test.Holds state.env with
        | true =>
            exact (yesIH yesValid yesPlaced rfl (by omega) among (yesSimple holds)).blockResult
        | false =>
            exact (noIH noValid noPlaced rfl (by omega) among (noSimple holds)).blockResult
      have branchAmong : Among envs funcs (if test.Holds state.env then
          yes.run unicode evalStmt state else no.run unicode evalStmt state).2 := by
        split
        · exact Among.run yesValid keeps among
        · exact Among.run noValid keeps among
      apply RunsAs.afterBlock branch
      intro going
      exact restIH restValid restPlaced.tail (by omega) (by omega) branchAmong
        (goesOn.resolve_left (by simp [going]))

end Runs

section Samples

/-- A callback that never exits and changes nothing. -/
def quiet : EvalStmt Unit := fun _ before => (false, before)

/-- A state with the variable `a` set. -/
def startState : State Unit :=
  ⟨Environment.set (fun _ => none) ['a'] ['z'], fun _ => none, (), []⟩

theorem isCommand_literal {text : Text} (envs : Set Environment) (isWord : IsWord text)
    (literal : Literal text) (tokens : isFuncDef text = none ∧ parseAssignment text = none)
    (plain : isStructural text = false ∧ (parseCommand text).head? ≠ some "for".toList ∧
      startsIf text = false) :
    IsCommand asciiOnly envs (fun _ => none) text where
  trimmed := by
    have trimmed := @trim_spaced [text] (by simpa using isWord)
    rwa [spaced_singleton] at trimmed
  nonempty := isWord.nonempty
  notDefinition := tokens.1
  notAssignment := tokens.2
  expanded := by
    intro env _
    rw [expandVariables_literal asciiOnly env literal]
    refine ⟨plain.1, plain.2.1, plain.2.2, ?_⟩
    cases (parseCommand text).head? <;> rfl

end Samples

end Shell

end OSWorkspace
