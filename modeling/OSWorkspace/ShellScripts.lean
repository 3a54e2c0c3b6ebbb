import Mathlib

/-!
# Shell scripts

The statement interpreter of the user shell: variable expansion of
`environment.rs`, tokens of `command.rs`, and `run_stmts` of `script.rs`, which
runs a flat list of statements by index ranges.  Texts are lists of characters.
The callback that executes a command is a parameter; every call of it is
recorded together with the environment it was given.
-/

namespace OSWorkspace

namespace Shell

abbrev Text := List Char

def singleQuote : Char := Char.ofNat 39

def doubleQuote : Char := Char.ofNat 34

def backslash : Char := Char.ofNat 92

/-- The characters with the Unicode property White_Space. -/
def isWhitespace (ch : Char) : Bool :=
  let code := ch.toNat
  (0x09 ≤ code && code ≤ 0x0D) || code == 0x20 || code == 0x85 || code == 0xA0 ||
    code == 0x1680 || (0x2000 ≤ code && code ≤ 0x200A) || code == 0x2028 || code == 0x2029 ||
    code == 0x202F || code == 0x205F || code == 0x3000

/-- The Unicode properties Alphabetic and Numeric, which agree with letters and
digits on ASCII. -/
structure Unicode where
  isAlphanumeric : Char → Bool
  ascii : ∀ ch : Char, ch.toNat < 128 → isAlphanumeric ch = ch.isAlphanum

/-- Letters and digits of ASCII only. -/
def asciiOnly : Unicode := ⟨Char.isAlphanum, fun _ _ => rfl⟩

def trim (text : Text) : Text := (text.dropWhile isWhitespace).rdropWhile isWhitespace

/-- The maximal pieces without whitespace, the first of them started by `current`. -/
def splitWhitespaceFrom (current : Text) : Text → List Text
  | [] => if current.isEmpty then [] else [current]
  | ch :: chars =>
      if isWhitespace ch then
        if current.isEmpty then splitWhitespaceFrom [] chars
        else current :: splitWhitespaceFrom [] chars
      else splitWhitespaceFrom (current ++ [ch]) chars

def splitWhitespace (text : Text) : List Text := splitWhitespaceFrom [] text

/-- The variables of a shell. -/
abbrev Environment := Text → Option Text

namespace Environment

def set (env : Environment) (key value : Text) : Environment :=
  Function.update env key (some value)

def unset (env : Environment) (key : Text) : Environment :=
  Function.update env key none

variable (unicode : Unicode)

def isNameChar (ch : Char) : Bool := unicode.isAlphanumeric ch || ch == '_'

/-- The loop of the expansion; each round takes at least one character. -/
def expandFrom (env : Environment) : (rounds : Nat) → (inSingle inDouble escape : Bool) →
    Text → Text
  | 0, _, _, _, _ => []
  | _ + 1, _, _, _, [] => []
  | rounds + 1, inSingle, inDouble, escape, ch :: chars =>
      if escape then ch :: expandFrom env rounds inSingle inDouble false chars
      else if ch = backslash ∧ inSingle = false then
        ch :: expandFrom env rounds inSingle inDouble true chars
      else if ch = singleQuote ∧ inDouble = false then
        ch :: expandFrom env rounds (!inSingle) inDouble false chars
      else if ch = doubleQuote ∧ inSingle = false then
        ch :: expandFrom env rounds inSingle (!inDouble) false chars
      else if ch ≠ '$' then ch :: expandFrom env rounds inSingle inDouble false chars
      else if inSingle then ch :: expandFrom env rounds inSingle inDouble false chars
      else if chars.head? = some '?' then
        (env ['?']).getD [] ++ expandFrom env rounds inSingle inDouble false chars.tail
      else if chars.head? = some '!' then
        (env ['!']).getD [] ++ expandFrom env rounds inSingle inDouble false chars.tail
      else if chars.head? = some '{' then
        (env (chars.tail.takeWhile (· != '}'))).getD [] ++
          expandFrom env rounds inSingle inDouble false (chars.tail.dropWhile (· != '}')).tail
      else if chars.takeWhile (isNameChar unicode) = [] then
        '$' :: expandFrom env rounds inSingle inDouble false chars
      else
        (env (chars.takeWhile (isNameChar unicode))).getD [] ++
          expandFrom env rounds inSingle inDouble false (chars.dropWhile (isNameChar unicode))

/-- Expand variables in the input string. -/
def expandVariables (env : Environment) (input : Text) : Text :=
  expandFrom unicode env input.length false false false input

end Environment

/-- The character that an escaped character stands for. -/
def unescape (ch : Char) : Char :=
  if ch = 'n' then '\n' else if ch = 't' then '\t' else if ch = 'r' then '\r' else ch

/-- The tokens of a segment, the first of them started by `current`. -/
def tokenizeFrom (current : Text) (inQuote : Option Char) (escape : Bool) : Text → List Text
  | [] => if current.isEmpty then [] else [current]
  | ch :: chars =>
      if escape then tokenizeFrom (current ++ [unescape ch]) inQuote false chars
      else if ch = backslash then tokenizeFrom current inQuote true chars
      else if ch = doubleQuote ∨ ch = singleQuote then
        if inQuote = some ch then tokenizeFrom current none false chars
        else if inQuote = none then tokenizeFrom current (some ch) false chars
        else tokenizeFrom (current ++ [ch]) inQuote false chars
      else if isWhitespace ch ∧ inQuote = none then
        if current.isEmpty then tokenizeFrom [] none false chars
        else current :: tokenizeFrom [] none false chars
      else tokenizeFrom (current ++ [ch]) inQuote false chars

/-- The argument list of a segment. -/
def parseCommand (segment : Text) : List Text := tokenizeFrom [] none false segment

def isIdent : Text → Bool
  | [] => false
  | first :: chars =>
      (first.isAlpha || first == '_') && chars.all fun ch => ch.isAlphanum || ch == '_'

/-- `name=value` as a statement of one token. -/
def parseAssignment (stmt : Text) : Option (Text × Text) :=
  match parseCommand stmt with
  | [token] =>
      if '=' ∈ token ∧ isIdent (token.takeWhile (· != '=')) then
        some (token.takeWhile (· != '='), (token.dropWhile (· != '=')).tail)
      else none
  | _ => none

/-- `name() {` as the first two tokens of a statement. -/
def isFuncDef (stmt : Text) : Option Text :=
  match parseCommand stmt with
  | nameToken :: brace :: _ =>
      if brace = ['{'] ∧ ['(', ')'] <:+ nameToken ∧
          isIdent (nameToken.take (nameToken.length - 2)) then
        some (nameToken.take (nameToken.length - 2))
      else none
  | _ => none

/-- The value of a decimal numeral in the range of a 64-bit signed integer. -/
def parseIsize (text : Text) : Option Int :=
  let magnitude (digits : Text) : Option Nat :=
    if digits ≠ [] ∧ digits.all Char.isDigit then
      some (digits.foldl (fun value digit => 10 * value + (digit.toNat - 48)) 0)
    else none
  match text with
  | '-' :: digits => (magnitude digits).bind fun value =>
      if value ≤ 2 ^ 63 then some (-(value : Int)) else none
  | '+' :: digits => (magnitude digits).bind fun value =>
      if value < 2 ^ 63 then some (value : Int) else none
  | digits => (magnitude digits).bind fun value =>
      if value < 2 ^ 63 then some (value : Int) else none

/-- The order of optional numbers, with `none` first. -/
def optionLt : Option Int → Option Int → Bool
  | none, some _ => true
  | some first, some second => first < second
  | _, none => false

def evalTest : List Text → Bool
  | lhs :: op :: rhs :: _ =>
      if op = ['=', '='] ∨ op = ['='] then lhs == rhs
      else if op = ['!', '='] then lhs != rhs
      else if op = "-eq".toList then parseIsize lhs == parseIsize rhs
      else if op = "-ne".toList then parseIsize lhs != parseIsize rhs
      else if op = "-lt".toList then optionLt (parseIsize lhs) (parseIsize rhs)
      else if op = "-le".toList then !optionLt (parseIsize rhs) (parseIsize lhs)
      else if op = "-gt".toList then optionLt (parseIsize rhs) (parseIsize lhs)
      else if op = "-ge".toList then !optionLt (parseIsize lhs) (parseIsize rhs)
      else false
  | _ => false

def evalIfCondition (stmt : Text) : Option Bool :=
  match parseCommand stmt with
  | first :: bracket :: tokens =>
      if first = "if".toList ∧ bracket = ['['] ∧ [']'] ∈ tokens then
        some (evalTest (tokens.takeWhile (· != [']'])))
      else none
  | _ => none

/-- The callback that executes a command, with a state of its own. -/
abbrev EvalStmt (σ : Type) := Text → Environment × σ → Bool × Environment × σ

/-- The state of a run: variables, defined functions, the state of the callback
and the calls made of it. -/
structure State (σ : Type) where
  env : Environment
  funcs : Text → Option (List Text)
  world : σ
  calls : List (Text × Environment)

namespace State

variable {σ : Type}

def setVar (state : State σ) (key value : Text) : State σ :=
  { state with env := state.env.set key value }

def unsetVar (state : State σ) (key : Text) : State σ :=
  { state with env := state.env.unset key }

/-- Call the callback. -/
def call (evalStmt : EvalStmt σ) (text : Text) (state : State σ) : Bool × State σ :=
  let result := evalStmt text (state.env, state.world)
  (result.1, { state with
    env := result.2.1
    world := result.2.2
    calls := state.calls ++ [(text, state.env)] })

end State

/-- The statements from index `start` to `stop`. -/
def slice (stmts : List Text) (start stop : Nat) : List Text :=
  (stmts.take stop).drop start

/-- The statements up to a closing brace, and the index behind it. -/
def collectBody : List Text → Nat → List Text × Nat
  | [], index => ([], index)
  | stmt :: stmts, index =>
      if trim stmt = ['}'] then ([], index + 1)
      else
        let (body, next) := collectBody stmts (index + 1)
        (stmt :: body, next)

/-- The index of the next statement that is not empty. -/
def skipEmpty : List Text → Nat → Nat
  | [], index => index
  | stmt :: stmts, index => if trim stmt = [] then skipEmpty stmts (index + 1) else index

section Scanning

variable (expand : Text → Text)

/-- The index of the first `done`. -/
def findDone : List Text → Nat → Option Nat
  | [], _ => none
  | stmt :: stmts, index =>
      if expand (trim stmt) = "done".toList then some index else findDone stmts (index + 1)

def startsIf (text : Text) : Bool := "if ".toList.isPrefixOf text || text == "if".toList

/-- The indexes of the `fi` that closes the conditional and of its `else`. -/
def findFi : List Text → (index depth : Nat) → (elseAt : Option Nat) →
    Option (Nat × Option Nat)
  | [], _, _, _ => none
  | stmt :: stmts, index, depth, elseAt =>
      let text := expand (trim stmt)
      if startsIf text then findFi stmts (index + 1) (depth + 1) elseAt
      else if text = "fi".toList then
        if depth - 1 = 0 then some (index, elseAt)
        else findFi stmts (index + 1) (depth - 1) elseAt
      else if depth = 1 ∧ text = "else".toList then findFi stmts (index + 1) depth (some index)
      else findFi stmts (index + 1) depth elseAt

end Scanning

def isStructural (text : Text) : Bool :=
  text == "do".toList || text == "done".toList || text == "then".toList ||
    text == "else".toList || text == "fi".toList || text == ['{'] || text == ['}']

/-- The variable and the word list of `for var in LIST`. -/
def forHeader (argv : List Text) : Option (Text × Text) :=
  match argv with
  | _ :: var :: keyword :: word :: words =>
      if keyword = "in".toList ∧ isIdent var then
        some (var, List.intercalate [' '] (word :: words))
      else none
  | _ => none

section Running

variable {σ : Type}

/-- The loop over the items of a `for`, each run of the body by `run`. -/
def runItems (run : State σ → Option (Bool × State σ)) (var : Text) :
    List Text → State σ → Option (Bool × State σ)
  | [], state => some (false, state)
  | item :: items, state =>
      match run (state.setVar var item) with
      | none => none
      | some (true, after) => some (true, after)
      | some (false, after) => runItems run var items after

/-- Bind the positional parameters of a call: the new state, and the old values. -/
def bindArgs : List Text → (position : Nat) → State σ →
    State σ × List (Text × Option Text)
  | [], _, state => (state, [])
  | arg :: args, position, state =>
      let key := (Nat.toDigits 10 position)
      let (after, old) := bindArgs args (position + 1) (state.setVar key arg)
      (after, (key, state.env key) :: old)

def restoreArgs (old : List (Text × Option Text)) (state : State σ) : State σ :=
  old.foldl (fun state saved =>
    match saved.2 with
    | some value => state.setVar saved.1 value
    | none => state.unsetVar saved.1) state

/-- Enter a function: the parameters are bound and `3` is emptied for calls of
at most two arguments. -/
def enterFunction (argv : List Text) (state : State σ) : State σ × List (Text × Option Text) :=
  let (bound, old) := bindArgs argv.tail 1 state
  if argv.length ≤ 3 then
    (bound.setVar ['3'] [], old ++ [(['3'], bound.env ['3'])])
  else (bound, old)

/-- A run of statements from one index to another: whether a command asked to
exit, the index reached and the state. -/
abbrev RunRange (σ : Type) :=
  List Text → (idx stop : Nat) → State σ → Option (Bool × Nat × State σ)

section Statements

variable (unicode : Unicode) (evalStmt : EvalStmt σ) (run : RunRange σ) (stmts : List Text)
  (idx stop : Nat) (state : State σ)

/-- The result of a block, without the index reached in it. -/
def blockResult (result : Option (Bool × Nat × State σ)) : Option (Bool × State σ) :=
  result.map fun (exit, _, after) => (exit, after)

/-- Go on at `next` behind a block, unless it asked to exit. -/
def afterBlock (next : Nat) : Option (Bool × State σ) → Option (Bool × Nat × State σ)
  | none => none
  | some (true, after) => some (true, idx, after)
  | some (false, after) => run stmts next stop after

/-- `for var in LIST ; do ... ; done`, with the tokens of its first statement. -/
def runFor (argv : List Text) : Option (Bool × Nat × State σ) :=
  let expand := state.env.expandVariables unicode
  match forHeader argv with
  | none => run stmts (idx + 1) stop state
  | some (var, listExpr) =>
      let items := splitWhitespace (expand listExpr)
      let j := skipEmpty (slice stmts (idx + 1) stop) (idx + 1)
      if stop ≤ j ∨ expand (trim (stmts.getD j [])) ≠ "do".toList then
        run stmts (idx + 1) stop state
      else
        match findDone expand (slice stmts (j + 1) stop) (j + 1) with
        | none => some (false, stop, state)
        | some k =>
            afterBlock run stmts idx stop (k + 1)
              (runItems (fun state => blockResult (run stmts (j + 1) k state)) var items state)

/-- The branch of a conditional that is run. -/
def runBranch (holds : Bool) (thenStart fiAt : Nat) (elseAt : Option Nat) :
    Option (Bool × State σ) :=
  if holds then blockResult (run stmts thenStart (elseAt.getD fiAt) state)
  else
    match elseAt with
    | some position => blockResult (run stmts (position + 1) fiAt state)
    | none => some (false, state)

/-- `if [ ... ] ; then ... ; else ... ; fi`, with its expanded first statement. -/
def runIf (expanded : Text) : Option (Bool × Nat × State σ) :=
  let expand := state.env.expandVariables unicode
  let holds := (evalIfCondition expanded).getD false
  let j := skipEmpty (slice stmts (idx + 1) stop) (idx + 1)
  if stop ≤ j ∨ expand (trim (stmts.getD j [])) ≠ "then".toList then
    run stmts (idx + 1) stop state
  else
    match findFi expand (slice stmts (j + 1) stop) (j + 1) 1 none with
    | none => some (false, stop, state)
    | some (fiAt, elseAt) =>
        afterBlock run stmts idx stop (fiAt + 1)
          (runBranch run stmts state holds (j + 1) fiAt elseAt)

/-- A call of a defined function, or of the callback. -/
def runCommand (expanded : Text) : Option (Bool × Nat × State σ) :=
  match (parseCommand expanded).head?.bind state.funcs with
  | some body =>
      let (entered, old) := enterFunction (parseCommand expanded) state
      match run body 0 body.length entered with
      | none => none
      | some (exit, _, after) =>
          if exit then some (true, idx + 1, restoreArgs old after)
          else run stmts (idx + 1) stop (restoreArgs old after)
  | none => afterBlock run stmts idx stop (idx + 1) (some (state.call evalStmt expanded))

/-- One round of the loop, with the trimmed statement at the index. -/
def runStmt (raw : Text) : Option (Bool × Nat × State σ) :=
  if raw = [] then run stmts (idx + 1) stop state
  else
    match isFuncDef raw with
    | some name =>
        let (body, next) := collectBody (slice stmts (idx + 1) stop) (idx + 1)
        run stmts next stop
          { state with funcs := Function.update state.funcs name (some body) }
    | none =>
        match parseAssignment raw with
        | some (key, value) =>
            run stmts (idx + 1) stop
              (state.setVar key (state.env.expandVariables unicode value))
        | none =>
            let expanded := state.env.expandVariables unicode raw
            if isStructural expanded then run stmts (idx + 1) stop state
            else if (parseCommand expanded).head? = some "for".toList then
              runFor unicode run stmts idx stop state (parseCommand expanded)
            else if startsIf expanded then runIf unicode run stmts idx stop state expanded
            else runCommand evalStmt run stmts idx stop state expanded

end Statements

/-- Run the statements from `idx` to `stop`.  `none` is an index past the list
or too little fuel for the loops and calls made. -/
def runStmts (unicode : Unicode) (evalStmt : EvalStmt σ) : (fuel : Nat) → RunRange σ
  | 0, _, _, _, _ => none
  | fuel + 1, stmts, idx, stop, state =>
      if stop ≤ idx then some (false, idx, state)
      else
        match stmts[idx]? with
        | none => none
        | some stmt =>
            runStmt unicode evalStmt (runStmts unicode evalStmt fuel) stmts idx stop state
              (trim stmt)

end Running

end Shell

end OSWorkspace
