import OSWorkspace.ShellPrograms

/-!
# Functions of shell scripts

A call binds the positional parameters in the map of all variables and puts the
old values back behind the body.  This file says which states the frame of a
call can reach, and when the body sees its own arguments and nothing else.
-/

namespace OSWorkspace

namespace Shell

open Environment

/-- The name of a positional parameter. -/
def positional (position : Nat) : Text := Nat.toDigits 10 position

theorem positional_injective : Function.Injective positional :=
  Function.LeftInverse.injective fun _ => Nat.ofDigitChars_ten_toDigits

theorem isDigit_positional {position : Nat} {ch : Char} (chMem : ch ∈ positional position) :
    ch.isDigit = true :=
  Nat.isDigit_of_mem_toDigits (by decide) (by decide) chMem

theorem isName_positional (position : Nat) : IsName (positional position) where
  nonempty := Nat.toDigits_ne_nil
  ascii := fun _ chMem => Or.inl (by simp [Char.isAlphanum, isDigit_positional chMem])

theorem positional_ne {key : Text} (ident : isIdent key = true) (position : Nat) :
    positional position ≠ key := by
  rintro rfl
  cases shape : positional position with
  | nil => exact (isName_positional position).nonempty shape
  | cons first chars =>
      have digit : first.isDigit = true := isDigit_positional (by rw [shape]; simp)
      rw [shape, isIdent, Bool.and_eq_true, Bool.or_eq_true] at ident
      simp only [Char.isDigit, Bool.and_eq_true, decide_eq_true_eq, UInt32.le_iff_toNat_le,
        ge_iff_le] at digit
      rcases ident.1 with letter | underscore
      · simp only [Char.isAlpha, Char.isUpper, Char.isLower, Bool.or_eq_true, Bool.and_eq_true,
          decide_eq_true_eq, UInt32.le_iff_toNat_le, ge_iff_le] at letter
        rcases letter with ⟨lower, upper⟩ | ⟨lower, upper⟩
        · exact absurd (lower.trans digit.2) (by decide)
        · exact absurd (lower.trans digit.2) (by decide)
      · rw [beq_iff_eq.mp underscore] at digit
        exact absurd digit.2 (by decide)

theorem expandVariables_positional (unicode : Unicode) (env : Environment) (position : Nat) :
    env.expandVariables unicode ('$' :: positional position) =
      (env (positional position)).getD [] := by
  have expanded := expandFrom_variable unicode env (isName_positional position) []
    (Or.inl rfl)
  simpa [expandVariables, expandFrom] using expanded

theorem isIdent_of_parseAssignment {stmt key value : Text}
    (parsed : parseAssignment stmt = some (key, value)) : isIdent key = true := by
  rw [parseAssignment] at parsed
  split at parsed
  · split_ifs at parsed with assigns
    cases parsed
    exact assigns.2
  · cases parsed

theorem isIdent_of_forHeader {argv : List Text} {var listExpr : Text}
    (header : forHeader argv = some (var, listExpr)) : isIdent var = true := by
  rw [forHeader.eq_def] at header
  split at header
  · split_ifs at header with valid
    cases header
    exact valid.2
  · cases header

section Frames

variable {σ : Type} (unicode : Unicode) (evalStmt : EvalStmt σ)

/-- The states that a frame can reach: by definitions, by assignments to
identifiers, by commands, and by calls that have returned. -/
inductive Within : State σ → State σ → Prop
  | refl (state : State σ) : Within state state
  | define {start state : State σ} (name : Text) (body : List Text) : Within start state →
      Within start { state with funcs := Function.update state.funcs name (some body) }
  | assign {start state : State σ} {key : Text} (value : Text) : Within start state →
      isIdent key = true → Within start (state.setVar key value)
  | command {start state : State σ} (text : Text) : Within start state →
      Within start (state.call evalStmt text).2
  | invoke {start state after : State σ} {argv body : List Text} {fuel idx : Nat} {exit : Bool} :
      Within start state →
      runStmts unicode evalStmt fuel body 0 body.length (enterFunction argv state).1 =
        some (exit, idx, after) →
      Within start (restoreArgs (enterFunction argv state).2 after)

/-- A relation between states that contains the steps of a frame. -/
structure FrameClosed (related : State σ → State σ → Prop) : Prop where
  refl : ∀ state, related state state
  trans : ∀ first second third, related first second → related second third → related first third
  define : ∀ state name body,
    related state { state with funcs := Function.update state.funcs name (some body) }
  assign : ∀ state key value, isIdent key = true → related state (state.setVar key value)
  command : ∀ state text, related state (state.call evalStmt text).2
  invoke : ∀ state after argv body fuel exit idx,
    runStmts unicode evalStmt fuel body 0 body.length (enterFunction argv state).1 =
      some (exit, idx, after) →
    related (enterFunction argv state).1 after →
    related state (restoreArgs (enterFunction argv state).2 after)

variable {unicode evalStmt} {related : State σ → State σ → Prop}

/-- The rule of induction over the states of a frame. -/
theorem related_of_within (closed : FrameClosed unicode evalStmt related)
    (runs : ∀ fuel stmts idx stop state exit last after,
      runStmts unicode evalStmt fuel stmts idx stop state = some (exit, last, after) →
        related state after)
    {start reached : State σ} (within : Within unicode evalStmt start reached) :
    related start reached := by
  induction within with
  | refl => exact closed.refl _
  | define name body _ ih => exact closed.trans _ _ _ ih (closed.define _ name body)
  | assign value _ ident ih => exact closed.trans _ _ _ ih (closed.assign _ _ value ident)
  | command text _ ih => exact closed.trans _ _ _ ih (closed.command _ text)
  | invoke _ ran ih =>
      exact closed.trans _ _ _ ih (closed.invoke _ _ _ _ _ _ _ ran (runs _ _ _ _ _ _ _ _ ran))

theorem of_afterBlock (closed : FrameClosed unicode evalStmt related) {run : RunRange σ}
    (runs : ∀ stmts idx stop state exit last after,
      run stmts idx stop state = some (exit, last, after) → related state after)
    {stmts : List Text} {idx stop next last : Nat} {state after : State σ} {exit : Bool}
    {block : Option (Bool × State σ)}
    (blockRelated : ∀ flag middle, block = some (flag, middle) → related state middle)
    (ran : afterBlock run stmts idx stop next block = some (exit, last, after)) :
    related state after := by
  rcases block with _ | ⟨flag, middle⟩
  · cases ran
  · have reached := blockRelated flag middle rfl
    cases flag with
    | true =>
        cases ran
        exact reached
    | false => exact closed.trans _ _ _ reached (runs _ _ _ _ _ _ _ ran)

theorem of_blockResult {run : RunRange σ}
    (runs : ∀ stmts idx stop state exit last after,
      run stmts idx stop state = some (exit, last, after) → related state after)
    {stmts : List Text} {idx stop : Nat} {state after : State σ} {exit : Bool}
    (ran : blockResult (run stmts idx stop state) = some (exit, after)) : related state after := by
  rw [blockResult, Option.map_eq_some_iff] at ran
  obtain ⟨⟨flag, last, final⟩, found, same⟩ := ran
  cases same
  exact runs _ _ _ _ _ _ _ found

theorem of_runItems (closed : FrameClosed unicode evalStmt related)
    {run : State σ → Option (Bool × State σ)}
    (runs : ∀ before exit after, run before = some (exit, after) → related before after)
    {var : Text} (ident : isIdent var = true) {items : List Text} {state after : State σ}
    {exit : Bool} (ran : runItems run var items state = some (exit, after)) :
    related state after := by
  induction items generalizing state with
  | nil =>
      cases ran
      exact closed.refl _
  | cons item items ih =>
      rw [runItems] at ran
      have assigned := closed.assign state var item ident
      rcases body : run (state.setVar var item) with _ | ⟨flag, middle⟩
      · rw [body] at ran
        cases ran
      · rw [body] at ran
        have reached := closed.trans _ _ _ assigned (runs _ _ _ body)
        cases flag with
        | true =>
            cases ran
            exact reached
        | false => exact closed.trans _ _ _ reached (ih ran)

section Statements

variable (closed : FrameClosed unicode evalStmt related) {fuel : Nat}
  (ih : ∀ stmts idx stop state exit last after,
    runStmts unicode evalStmt fuel stmts idx stop state = some (exit, last, after) →
      related state after)
  {stmts : List Text} {idx stop last : Nat} {state after : State σ} {exit : Bool}

include closed ih

theorem of_runFor {argv : List Text}
    (ran : runFor unicode (runStmts unicode evalStmt fuel) stmts idx stop state argv =
      some (exit, last, after)) : related state after := by
  rw [runFor] at ran
  rcases header : forHeader argv with _ | ⟨var, listExpr⟩
  · rw [header] at ran
    exact ih _ _ _ _ _ _ _ ran
  · rw [header] at ran
    simp only at ran
    split_ifs at ran
    · exact ih _ _ _ _ _ _ _ ran
    · split at ran
      · cases ran
        exact closed.refl state
      · exact of_afterBlock closed ih (fun flag middle items =>
          of_runItems closed (fun _ _ _ body => of_blockResult ih body)
            (isIdent_of_forHeader header) items) ran

theorem of_runIf {expanded : Text}
    (ran : runIf unicode (runStmts unicode evalStmt fuel) stmts idx stop state expanded =
      some (exit, last, after)) : related state after := by
  rw [runIf] at ran
  split_ifs at ran
  · exact ih _ _ _ _ _ _ _ ran
  · split at ran
    · cases ran
      exact closed.refl state
    · refine of_afterBlock closed ih (fun flag middle branch => ?_) ran
      rw [runBranch.eq_def] at branch
      split_ifs at branch
      · exact of_blockResult ih branch
      · split at branch
        · exact of_blockResult ih branch
        · cases branch
          exact closed.refl state

theorem of_runCommand {expanded : Text}
    (ran : runCommand evalStmt (runStmts unicode evalStmt fuel) stmts idx stop state expanded =
      some (exit, last, after)) : related state after := by
  rw [runCommand] at ran
  split at ran
  · next body isFunction =>
      simp only at ran
      rcases called : runStmts unicode evalStmt fuel body 0 body.length
        (enterFunction (parseCommand expanded) state).1 with _ | ⟨flag, reached, middle⟩
      · rw [called] at ran
        cases ran
      · rw [called] at ran
        have returned := closed.invoke _ _ _ _ _ _ _ called (ih _ _ _ _ _ _ _ called)
        simp only at ran
        split_ifs at ran
        · cases ran
          exact returned
        · exact closed.trans _ _ _ returned (ih _ _ _ _ _ _ _ ran)
  · refine of_afterBlock closed ih (fun flag middle command => ?_) ran
    have same : (state.call evalStmt expanded).2 = middle :=
      congrArg Prod.snd (Option.some.inj command)
    rw [← same]
    exact closed.command _ _

theorem of_runStmt {raw : Text}
    (ran : runStmt unicode evalStmt (runStmts unicode evalStmt fuel) stmts idx stop state raw =
      some (exit, last, after)) : related state after := by
  rw [runStmt] at ran
  by_cases empty : raw = []
  · rw [if_pos empty] at ran
    exact ih _ _ _ _ _ _ _ ran
  rw [if_neg empty] at ran
  cases definition : isFuncDef raw with
  | some name =>
      rw [definition] at ran
      exact closed.trans _ _ _ (closed.define _ _ _) (ih _ _ _ _ _ _ _ ran)
  | none =>
      rw [definition] at ran
      rcases assignment : parseAssignment raw with _ | ⟨key, value⟩
      · rw [assignment] at ran
        simp only at ran
        split_ifs at ran
        · exact ih _ _ _ _ _ _ _ ran
        · exact of_runFor closed ih ran
        · exact of_runIf closed ih ran
        · exact of_runCommand closed ih ran
      · rw [assignment] at ran
        have assigned := closed.assign state key (state.env.expandVariables unicode value)
          (isIdent_of_parseAssignment assignment)
        exact closed.trans _ _ _ assigned (ih _ _ _ _ _ _ _ ran)

end Statements

/-- Every run of statements stays within a closed relation. -/
theorem runStmts_related (closed : FrameClosed unicode evalStmt related) (fuel : Nat)
    (stmts : List Text) (idx stop : Nat) (state : State σ) (exit : Bool) (last : Nat)
    (after : State σ)
    (ran : runStmts unicode evalStmt fuel stmts idx stop state = some (exit, last, after)) :
    related state after := by
  induction fuel generalizing stmts idx stop state exit last after with
  | zero => cases ran
  | succ fuel ih =>
      rw [runStmts] at ran
      split_ifs at ran with ended
      · cases ran
        exact closed.refl state
      · cases found : stmts[idx]? with
        | none =>
            rw [found] at ran
            cases ran
        | some stmt =>
            rw [found] at ran
            exact of_runStmt closed ih ran

theorem Within.trans {first second third : State σ} (before : Within unicode evalStmt first second)
    (behind : Within unicode evalStmt second third) : Within unicode evalStmt first third := by
  induction behind with
  | refl => exact before
  | define name body _ ih => exact .define name body ih
  | assign value _ ident ih => exact .assign value ih ident
  | command text _ ih => exact .command text ih
  | invoke _ ran ih => exact .invoke ih ran

/-- The states of a frame are closed under its own steps. -/
theorem frameClosed_within : FrameClosed unicode evalStmt (Within unicode evalStmt) where
  refl := .refl
  trans := fun _ _ _ before behind => before.trans behind
  define := fun state name body => .define name body (.refl state)
  assign := fun state _ value ident => .assign value (.refl state) ident
  command := fun state text => .command text (.refl state)
  invoke := fun state _ _ _ _ _ _ ran _ => .invoke (.refl state) ran

/-- Every range of statements that a frame runs leads to one of its states. -/
theorem within_of_runStmts {start state after : State σ} {fuel : Nat} {stmts : List Text}
    {idx stop last : Nat} {exit : Bool} (within : Within unicode evalStmt start state)
    (ran : runStmts unicode evalStmt fuel stmts idx stop state = some (exit, last, after)) :
    Within unicode evalStmt start after :=
  within.trans (runStmts_related frameClosed_within fuel stmts idx stop state exit last after ran)

end Frames

section Binding

variable {σ : Type}

/-- The argument at a position, for arguments bound from `first` on. -/
theorem bindArgs_positional (args : List Text) (first : Nat) (state : State σ) (position : Nat) :
    (bindArgs args first state).1.env (positional position) =
      if first ≤ position ∧ position < first + args.length then args[position - first]?
      else state.env (positional position) := by
  induction args generalizing first state with
  | nil =>
      rw [if_neg (by simp)]
      rfl
  | cons arg args ih =>
      rw [bindArgs]
      simp only
      rw [ih, List.length_cons]
      by_cases later : first + 1 ≤ position ∧ position < first + 1 + args.length
      · have inside : first ≤ position ∧ position < first + (args.length + 1) := by omega
        rw [if_pos later, if_pos inside, show position - first = position - (first + 1) + 1 by omega,
          List.getElem?_cons_succ]
      · rw [if_neg later, State.setVar, Environment.set]
        by_cases here : position = first
        · rw [here, if_pos (by omega), Nat.sub_self, List.getElem?_cons_zero]
          exact Function.update_self _ _ _
        · rw [if_neg (by omega)]
          exact Function.update_of_ne (fun same => here (positional_injective same)) _ _

theorem bindArgs_calls (args : List Text) (first : Nat) (state : State σ) :
    (bindArgs args first state).1.calls = state.calls := by
  induction args generalizing first state with
  | nil => rfl
  | cons arg args ih => exact ih _ _

theorem restoreArgs_cons (key : Text) (value : Option Text) (old : List (Text × Option Text))
    (state : State σ) :
    restoreArgs ((key, value) :: old) state =
      restoreArgs old { state with env := Function.update state.env key value } := by
  cases value <;> rfl

theorem restoreArgs_singleton (key : Text) (value : Option Text) (state : State σ) :
    restoreArgs [(key, value)] state =
      { state with env := Function.update state.env key value } :=
  restoreArgs_cons key value [] state

theorem restoreArgs_append (first second : List (Text × Option Text)) (state : State σ) :
    restoreArgs (first ++ second) state = restoreArgs second (restoreArgs first state) :=
  List.foldl_append

theorem restoreArgs_calls (old : List (Text × Option Text)) (state : State σ) :
    (restoreArgs old state).calls = state.calls := by
  induction old generalizing state with
  | nil => rfl
  | cons saved old ih => exact (restoreArgs_cons saved.1 saved.2 old state ▸ ih _)

/-- The saved values of a binding are those before it. -/
theorem restoreArgs_bindArgs (args : List Text) (first : Nat) (state after : State σ)
    (position : Nat) :
    (restoreArgs (bindArgs args first state).2 after).env (positional position) =
      if first ≤ position ∧ position < first + args.length then state.env (positional position)
      else after.env (positional position) := by
  induction args generalizing first state after with
  | nil =>
      rw [if_neg (by simp)]
      rfl
  | cons arg args ih =>
      rw [bindArgs]
      simp only
      rw [restoreArgs_cons, ih, List.length_cons]
      by_cases later : first + 1 ≤ position ∧ position < first + 1 + args.length
      · have inside : first ≤ position ∧ position < first + (args.length + 1) := by omega
        have differs : positional position ≠ Nat.toDigits 10 first := by
          intro same
          have := positional_injective same
          omega
        rw [if_pos later, if_pos inside, State.setVar, Environment.set]
        exact Function.update_of_ne differs _ _
      · rw [if_neg later]
        by_cases here : position = first
        · rw [here, if_pos (by omega)]
          exact Function.update_self _ _ _
        · rw [if_neg (by omega)]
          exact Function.update_of_ne (fun same => here (positional_injective same)) _ _

/-- A parameter that entering a function sets: an argument, or the third one of a
call of at most two arguments. -/
def SetByCall (argv : List Text) (position : Nat) : Prop :=
  1 ≤ position ∧ (position < argv.length ∨ argv.length ≤ 3 ∧ position = 3)

theorem setByCall_iff (argv : List Text) (position : Nat) :
    SetByCall argv position ↔
      (1 ≤ position ∧ position < 1 + argv.tail.length) ∨ (argv.length ≤ 3 ∧ position = 3) := by
  rw [SetByCall, List.length_tail]
  omega

theorem positional_three : positional 3 = ['3'] := by decide

theorem positional_ne_three {position : Nat} (differs : position ≠ 3) :
    positional position ≠ positional 3 :=
  fun same => differs (positional_injective same)

theorem enterFunction_positional {argv : List Text} (state : State σ) {position : Nat}
    (isSet : SetByCall argv position) :
    ((enterFunction argv state).1.env (positional position)).getD [] =
      (argv[position]?).getD [] := by
  have bound := bindArgs_positional argv.tail 1 state position
  have argument : argv.tail[position - 1]? = argv[position]? := by
    rw [List.getElem?_tail, Nat.sub_add_cancel isSet.1]
  rw [argument] at bound
  rw [enterFunction]
  simp only
  rcases (setByCall_iff argv position).mp isSet with inside | ⟨short, third⟩
  · rw [if_pos inside] at bound
    have differs : argv.length ≤ 3 → position ≠ 3 := by
      rw [List.length_tail] at inside
      omega
    split_ifs with short
    · simp only [State.setVar, Environment.set]
      rw [← positional_three, Function.update_of_ne (positional_ne_three (differs short)), bound]
    · rw [bound]
  · rw [if_pos short, third, positional_three, List.getElem?_eq_none short]
    simp only [State.setVar, Environment.set, Function.update_self]
    rfl

theorem enterFunction_of_not_set {argv : List Text} (state : State σ) {position : Nat}
    (notSet : ¬ SetByCall argv position) :
    (enterFunction argv state).1.env (positional position) = state.env (positional position) := by
  have bound := bindArgs_positional argv.tail 1 state position
  rw [setByCall_iff, not_or] at notSet
  rw [if_neg notSet.1] at bound
  rw [enterFunction]
  simp only
  split_ifs with short
  · simp only [State.setVar, Environment.set]
    rw [← positional_three,
      Function.update_of_ne (positional_ne_three fun third => notSet.2 ⟨short, third⟩), bound]
  · exact bound

theorem enterFunction_calls (argv : List Text) (state : State σ) :
    (enterFunction argv state).1.calls = state.calls := by
  rw [enterFunction]
  simp only
  split_ifs
  · exact bindArgs_calls _ _ _
  · exact bindArgs_calls _ _ _

/-- What a call has set has its old value again. -/
theorem restoreArgs_of_set {argv : List Text} (state after : State σ) {position : Nat}
    (isSet : SetByCall argv position) :
    (restoreArgs (enterFunction argv state).2 after).env (positional position) =
      state.env (positional position) := by
  have restored := restoreArgs_bindArgs argv.tail 1 state after position
  have bound := bindArgs_positional argv.tail 1 state position
  rw [enterFunction]
  simp only
  rcases (setByCall_iff argv position).mp isSet with inside | ⟨short, third⟩
  · rw [if_pos inside] at restored
    have differs : argv.length ≤ 3 → position ≠ 3 := by
      rw [List.length_tail] at inside
      omega
    split_ifs with short
    · have third : positional position ≠ positional 3 := positional_ne_three (differs short)
      rw [restoreArgs_append, restoreArgs_singleton, ← positional_three]
      exact (Function.update_of_ne third _ _).trans restored
    · exact restored
  · rw [if_neg (by rw [List.length_tail]; omega), third] at bound
    rw [if_pos short, restoreArgs_append, restoreArgs_singleton, ← positional_three, third,
      ← bound]
    simp only [Function.update_self]

theorem restoreArgs_of_not_set {argv : List Text} (state after : State σ) {position : Nat}
    (notSet : ¬ SetByCall argv position) :
    (restoreArgs (enterFunction argv state).2 after).env (positional position) =
      after.env (positional position) := by
  have restored := restoreArgs_bindArgs argv.tail 1 state after position
  rw [setByCall_iff, not_or] at notSet
  rw [if_neg notSet.1] at restored
  rw [enterFunction]
  simp only
  split_ifs with short
  · have third : positional position ≠ positional 3 :=
      positional_ne_three fun third => notSet.2 ⟨short, third⟩
    rw [restoreArgs_append, restoreArgs_singleton, ← positional_three]
    exact (Function.update_of_ne third _ _).trans restored
  · exact restored

end Binding

section Parameters

variable {σ : Type} (unicode : Unicode) (evalStmt : EvalStmt σ)

def SamePositional (first second : Environment) : Prop :=
  ∀ position, 1 ≤ position → first (positional position) = second (positional position)

/-- A command that leaves the positional parameters as they are. -/
def KeepsPositional (command : Text × Environment) : Prop :=
  ∀ world, SamePositional (evalStmt command.1 (command.2, world)).2.1 command.2

/-- The commands executed between two states keep the positional parameters. -/
def CommandsKeep (before after : State σ) : Prop :=
  ∀ command ∈ after.calls.drop before.calls.length, KeepsPositional evalStmt command

/-- Between the states only commands change the positional parameters. -/
def ChangedByCommands (before after : State σ) : Prop :=
  ∃ made, after.calls = before.calls ++ made ∧
    ((∀ command ∈ made, KeepsPositional evalStmt command) → SamePositional after.env before.env)

variable {unicode evalStmt}

theorem ChangedByCommands.same {before after : State σ}
    (changed : ChangedByCommands evalStmt before after)
    (keep : CommandsKeep evalStmt before after) : SamePositional after.env before.env := by
  obtain ⟨made, callsEq, same⟩ := changed
  apply same
  intro command commandMem
  apply keep
  rw [callsEq, List.drop_left]
  exact commandMem

theorem frameClosed_changedByCommands :
    FrameClosed unicode evalStmt (ChangedByCommands evalStmt) where
  refl state := ⟨[], by simp, fun _ _ _ => rfl⟩
  trans first second third := by
    rintro ⟨made, callsEq, same⟩ ⟨later, laterEq, laterSame⟩
    refine ⟨made ++ later, by rw [laterEq, callsEq, List.append_assoc], ?_⟩
    intro keep position positive
    rw [laterSame (fun command commandMem => keep command (by simp [commandMem])) position positive,
      same (fun command commandMem => keep command (by simp [commandMem])) position positive]
  define state name body := ⟨[], by simp, fun _ _ _ => rfl⟩
  assign state key value ident := by
    refine ⟨[], by simp [State.setVar], fun _ position _ => ?_⟩
    exact Function.update_of_ne (positional_ne ident position) _ _
  command state text := by
    refine ⟨[(text, state.env)], rfl, fun keep => ?_⟩
    exact keep _ (List.mem_singleton_self _) state.world
  invoke state after argv body fuel exit idx ran changed := by
    obtain ⟨made, callsEq, same⟩ := changed
    refine ⟨made, by rw [restoreArgs_calls, callsEq, enterFunction_calls], ?_⟩
    intro keep position positive
    by_cases isSet : SetByCall argv position
    · exact restoreArgs_of_set state after isSet
    · rw [restoreArgs_of_not_set state after isSet, same keep position positive,
        enterFunction_of_not_set state isSet]

/-- A run of statements within a frame, seen from the frame. -/
theorem changedByCommands_of_run {fuel : Nat} {stmts : List Text} {idx stop last : Nat}
    {state after : State σ} {exit : Bool}
    (ran : runStmts unicode evalStmt fuel stmts idx stop state = some (exit, last, after)) :
    ChangedByCommands evalStmt state after :=
  runStmts_related frameClosed_changedByCommands _ _ _ _ _ _ _ _ ran

theorem changedByCommands_of_within {start reached : State σ}
    (within : Within unicode evalStmt start reached) : ChangedByCommands evalStmt start reached :=
  related_of_within frameClosed_changedByCommands (fun _ _ _ _ _ _ _ _ => changedByCommands_of_run)
    within

variable (unicode evalStmt)

/-- While commands leave the parameters alone, each of them expands to the
argument at its position, or to nothing. -/
def SeesOwnArguments (argv : List Text) (state : State σ) : Prop :=
  ∀ reached, Within unicode evalStmt (enterFunction argv state).1 reached →
    CommandsKeep evalStmt (enterFunction argv state).1 reached → ∀ position, 1 ≤ position →
      reached.env.expandVariables unicode ('$' :: positional position) = (argv[position]?).getD []

/-- A call of the body that ends, by exit or not, gives the caller its
parameters back. -/
def GivesBack (argv body : List Text) (state : State σ) : Prop :=
  ∀ fuel exit idx after, runStmts unicode evalStmt fuel body 0 body.length
      (enterFunction argv state).1 = some (exit, idx, after) →
    CommandsKeep evalStmt (enterFunction argv state).1 after →
      SamePositional (restoreArgs (enterFunction argv state).2 after).env state.env

variable {unicode evalStmt}

theorem givesBack (argv body : List Text) (state : State σ) :
    GivesBack unicode evalStmt argv body state := by
  intro fuel exit idx after ran keep position positive
  by_cases isSet : SetByCall argv position
  · exact restoreArgs_of_set state after isSet
  · rw [restoreArgs_of_not_set state after isSet,
      (changedByCommands_of_run ran).same keep position positive,
      enterFunction_of_not_set state isSet]

/-- Every call gives the parameters back, and its body sees exactly its own
arguments when the caller has no parameter beyond them, apart from a third one
that the call empties. -/
theorem callsIsolated_iff (argv : List Text) (state : State σ) :
    ((∀ body, GivesBack unicode evalStmt argv body state) ∧
        SeesOwnArguments unicode evalStmt argv state) ↔
      ∀ position, 1 ≤ position → argv.length ≤ position →
        ¬ (argv.length ≤ 3 ∧ position = 3) → (state.env (positional position)).getD [] = [] := by
  constructor
  · rintro ⟨_, sees⟩ position positive beyond notThird
    have notSet : ¬ SetByCall argv position := by
      rintro ⟨_, inside | third⟩
      · omega
      · exact notThird third
    have seen := sees _ (Within.refl _) (by simp [CommandsKeep]) position positive
    rw [expandVariables_positional, enterFunction_of_not_set state notSet,
      List.getElem?_eq_none beyond] at seen
    exact seen
  · intro none
    refine ⟨fun body => givesBack argv body state, ?_⟩
    intro reached within keep position positive
    rw [expandVariables_positional,
      (changedByCommands_of_within within).same keep position positive]
    by_cases isSet : SetByCall argv position
    · exact enterFunction_positional state isSet
    · have beyond : argv.length ≤ position := by
        by_contra inside
        exact isSet ⟨positive, Or.inl (by omega)⟩
      rw [enterFunction_of_not_set state isSet, List.getElem?_eq_none beyond]
      exact none position positive beyond fun third => isSet ⟨positive, Or.inr third⟩

end Parameters

/-- A caller with two parameters. -/
def callerState : State Unit :=
  ⟨Environment.set (Environment.set (fun _ => none) ['1'] ['a']) ['2'] ['b'], fun _ => none, (),
    []⟩

/-- In the body of `g x` the second parameter is that of the caller. -/
theorem not_seesOwnArguments_caller :
    ¬ SeesOwnArguments asciiOnly quiet [['g'], ['x']] callerState := by
  intro sees
  have seen := sees _ (Within.refl _) (by simp [CommandsKeep]) 2 (by decide)
  exact absurd seen (by decide)

end Shell

end OSWorkspace
