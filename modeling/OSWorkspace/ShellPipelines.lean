import OSWorkspace.ShellScripts

/-!
# Pipelines of the shells

The loop of `eval_stmt` over the commands of a pipeline, of which both shells
carry a copy: a pipe for every command but the last, a child that moves the
ends it needs to its standard input and output, and a parent that keeps only
the read end for the next child.  Behind the loop one shell waits for the
children by name and the other for as many children as there are commands.
-/

namespace OSWorkspace

namespace Shell

/-- What a descriptor refers to. -/
inductive OpenFile where
  | inherited (file : Nat)
  | readEnd (pipe : Nat)
  | writeEnd (pipe : Nat)
deriving DecidableEq

/-- The descriptors of a process. -/
abbrev Table := Nat → Option OpenFile

namespace Table

def close (table : Table) (fd : Nat) : Table := Function.update table fd none

/-- Fails, without an effect, for equal descriptors and for a closed one. -/
def dup3 (table : Table) (oldfd newfd : Nat) : Table :=
  if oldfd = newfd ∨ table oldfd = none then table
  else Function.update table newfd (table oldfd)

/-- The two ends of a new pipe. -/
def addPipe (table : Table) (pipe : Nat) (fds : Nat × Nat) : Table :=
  Function.update (Function.update table fds.1 (some (.readEnd pipe))) fds.2
    (some (.writeEnd pipe))

/-- Close the descriptor that is carried to the next command. -/
def closeCarried (table : Table) : Option Nat → Table
  | some fd => table.close fd
  | none => table

end Table

/-- The descriptors that each call of `pipe` returns, for the number of the call
and the descriptors of the caller; `none` is a failed call. -/
structure PipeCalls where
  allocate : Nat → Table → Option (Nat × Nat)
  fresh : ∀ {pipe : Nat} {table : Table} {fds : Nat × Nat}, allocate pipe table = some fds →
    2 < fds.1 ∧ 2 < fds.2 ∧ fds.1 ≠ fds.2 ∧ table fds.1 = none ∧ table fds.2 = none

/-- The shell in the loop.  It does not store the ends that it has obtained, what
each of its calls of `close` has closed, and the arguments and descriptors of its
children: they are recorded here. -/
structure Parent where
  table : Table
  prevRead : Option Nat
  pids : List Nat
  lastPid : Option Nat
  obtained : List OpenFile
  closed : List (Option OpenFile)
  children : List (List Text × Table)

/-- The descriptors of a child when it reaches exec.  The last command gets no
pipe. -/
def childTable (prevRead : Option Nat) (fds : Option (Nat × Nat)) (table : Table) : Table :=
  let input :=
    match prevRead with
    | some fd => (table.dup3 fd 0).close fd
    | none => table
  match fds with
  | some fds => ((input.close fds.1).dup3 fds.2 1).close fds.2
  | none => input

namespace Parent

/-- A call of `close`; for a closed descriptor it is recorded as `none`. -/
def close (parent : Parent) (fd : Nat) : Parent :=
  { parent with
    table := parent.table.close fd
    closed := parent.closed ++ [parent.table fd] }

def closePrev (parent : Parent) : Parent :=
  match parent.prevRead with
  | some fd => parent.close fd
  | none => parent

/-- A successful call of `pipe`. -/
def openPipe (parent : Parent) (pipe : Nat) (fds : Nat × Nat) : Parent :=
  { parent with
    table := parent.table.addPipe pipe fds
    obtained := parent.obtained ++ [.readEnd pipe, .writeEnd pipe] }

/-- Fork a child for a command; the last one has no descriptors of a pipe. -/
def fork (parent : Parent) (pid : Nat) (argv : List Text) (fds : Option (Nat × Nat)) : Parent :=
  { parent with
    pids := parent.pids ++ [pid]
    lastPid := if fds.isNone then some pid else parent.lastPid
    children := parent.children ++ [(argv, childTable parent.prevRead fds parent.table)] }

/-- One round for a command with a pipe behind it. -/
def advance (parent : Parent) (index pid : Nat) (argv : List Text) (fds : Nat × Nat) : Parent :=
  let forked := ((parent.openPipe index fds).fork pid argv (some fds)).closePrev
  { forked with prevRead := some fds.1 }.close fds.2

/-- The round for the last command. -/
def finish (parent : Parent) (pid : Nat) (argv : List Text) : Parent :=
  { (parent.fork pid argv none).closePrev with prevRead := none }

end Parent

section Loop

variable (pipes : PipeCalls) (pidOf : Nat → Nat)

/-- The loop over the commands from `index` on; it ends early when a call of
`pipe` fails. -/
def runStages : (index : Nat) → List (List Text) → Parent → Parent
  | _, [], parent => parent
  | index, [argv], parent => parent.finish (pidOf index) argv
  | index, argv :: next :: commands, parent =>
      match pipes.allocate index parent.table with
      | none => parent
      | some fds =>
          runStages (index + 1) (next :: commands) (parent.advance index (pidOf index) argv fds)

/-- The loop and the close behind it. -/
def runPipeline (commands : List (List Text)) (table : Table) : Parent :=
  (runStages pipes pidOf 0 commands ⟨table, none, [], none, [], [], []⟩).closePrev

end Loop

/-- The descriptors of a process that has no end of a pipe. -/
def initialTable (inherited : Nat → Option Nat) : Table :=
  fun fd => (inherited fd).map .inherited

section Wiring

variable (inherited : Nat → Option Nat)

/-- A child between its two pipes. -/
def wiredTable (index : Nat) (isLast : Prop) [Decidable isLast] : Table := fun fd =>
  if fd = 0 ∧ 0 < index then some (.readEnd (index - 1))
  else if fd = 1 ∧ ¬ isLast then some (.writeEnd index)
  else initialTable inherited fd

/-- Standard input and output are the ends that belong there, the other
descriptors those of the shell, and no other end of a pipe is open. -/
structure Wired (index : Nat) (isLast : Prop) (table : Table) : Prop where
  input : 0 < index → table 0 = some (.readEnd (index - 1))
  firstInput : index = 0 → table 0 = initialTable inherited 0
  output : ¬ isLast → table 1 = some (.writeEnd index)
  lastOutput : isLast → table 1 = initialTable inherited 1
  others : ∀ fd, 1 < fd → table fd = initialTable inherited fd
  noReadEnd : ∀ fd pipe, table fd = some (.readEnd pipe) → fd = 0 ∧ pipe + 1 = index
  noWriteEnd : ∀ fd pipe, table fd = some (.writeEnd pipe) → fd = 1 ∧ pipe = index ∧ ¬ isLast

/-- The descriptors of the shell before the command at an index, with the
descriptor of the read end for it. -/
def stageTable (index : Nat) (prevRead : Option Nat) : Table :=
  match prevRead with
  | some fd => Function.update (initialTable inherited) fd (some (.readEnd (index - 1)))
  | none => initialTable inherited

/-- The read end that is open before the command at an index. -/
structure Carries (index : Nat) (prevRead : Option Nat) : Prop where
  first : prevRead = none ↔ index = 0
  high : ∀ fd, prevRead = some fd → 2 < fd ∧ initialTable inherited fd = none

variable {inherited}

theorem initialTable_ne_readEnd (fd pipe : Nat) :
    initialTable inherited fd ≠ some (.readEnd pipe) := by
  simp [initialTable]

theorem initialTable_ne_writeEnd (fd pipe : Nat) :
    initialTable inherited fd ≠ some (.writeEnd pipe) := by
  simp [initialTable]

theorem wired_wiredTable (index : Nat) (isLast : Prop) [Decidable isLast] :
    Wired inherited index isLast (wiredTable inherited index isLast) where
  input positive := if_pos ⟨rfl, positive⟩
  firstInput first := by
    rw [wiredTable, if_neg (by omega), if_neg (by simp)]
  output notLast := by
    rw [wiredTable, if_neg (by simp), if_pos ⟨rfl, notLast⟩]
  lastOutput last := by
    rw [wiredTable, if_neg (by simp), if_neg (by simp [last])]
  others fd high := by
    rw [wiredTable, if_neg (by omega), if_neg (by omega)]
  noReadEnd fd pipe found := by
    rw [wiredTable] at found
    split_ifs at found with isInput isOutput
    · cases found
      omega
    · cases found
    · exact absurd found (initialTable_ne_readEnd _ _)
  noWriteEnd fd pipe found := by
    rw [wiredTable] at found
    split_ifs at found with isInput isOutput
    · cases found
    · cases found
      exact ⟨isOutput.1, rfl, isOutput.2⟩
    · exact absurd found (initialTable_ne_writeEnd _ _)

end Wiring

theorem Table.dup3_eq {table : Table} {oldfd newfd : Nat} {file : OpenFile}
    (differs : oldfd ≠ newfd) (isOpen : table oldfd = some file) :
    table.dup3 oldfd newfd = Function.update table newfd (some file) := by
  rw [Table.dup3, if_neg (by simp [differs, isOpen]), isOpen]

section Stages

variable {inherited : Nat → Option Nat} {index : Nat} {prevRead : Option Nat}

theorem stageTable_prev {fd : Nat} (isPrev : prevRead = some fd) :
    stageTable inherited index prevRead fd = some (.readEnd (index - 1)) := by
  rw [isPrev]
  exact Function.update_self _ _ _

theorem stageTable_of_ne {fd : Nat} (notPrev : prevRead ≠ some fd) :
    stageTable inherited index prevRead fd = initialTable inherited fd := by
  cases prevRead with
  | none => rfl
  | some prev =>
      have differs : fd ≠ prev := fun same => notPrev (congrArg some same.symm)
      exact Function.update_of_ne differs _ _

/-- A fresh descriptor is closed in the shell and is not the carried one. -/
theorem fresh_stageTable {fd : Nat} (fresh : stageTable inherited index prevRead fd = none) :
    prevRead ≠ some fd ∧ initialTable inherited fd = none := by
  have notPrev : prevRead ≠ some fd := by
    intro isPrev
    rw [stageTable_prev isPrev] at fresh
    cases fresh
  rw [stageTable_of_ne notPrev] at fresh
  exact ⟨notPrev, fresh⟩

theorem closeCarried_apply (table : Table) (fd : Nat) :
    table.closeCarried prevRead fd = if prevRead = some fd then none else table fd := by
  cases prevRead with
  | none => exact (if_neg (by simp)).symm
  | some prev =>
      rw [Table.closeCarried, Table.close, Function.update_apply]
      simp only [Option.some.injEq, eq_comm]

variable (carries : Carries inherited index prevRead)

include carries

theorem Carries.positive {fd : Nat} (isPrev : prevRead = some fd) : 0 < index := by
  by_contra notPositive
  have none := carries.first.mpr (by omega)
  rw [isPrev] at none
  cases none

/-- Behind the last child no end is open. -/
theorem closeCarried_stageTable :
    (stageTable inherited index prevRead).closeCarried prevRead = initialTable inherited := by
  funext fd
  rw [closeCarried_apply]
  by_cases isPrev : prevRead = some fd
  · rw [if_pos isPrev, (carries.high fd isPrev).2]
  · rw [if_neg isPrev, stageTable_of_ne isPrev]

/-- The carried end becomes the standard input. -/
theorem childTable_none {table : Table}
    (holdsEnd : ∀ fd, prevRead = some fd → table fd = some (.readEnd (index - 1))) (fd : Nat) :
    childTable prevRead none table fd =
      if fd = 0 ∧ 0 < index then some (.readEnd (index - 1))
      else if prevRead = some fd then none else table fd := by
  cases prevRead with
  | none =>
      have first := carries.first.mp rfl
      rw [if_neg (by omega), if_neg (by simp)]
      rfl
  | some prev =>
      have positive := carries.positive rfl
      obtain ⟨high, _⟩ := carries.high prev rfl
      have moved := Table.dup3_eq (by omega : prev ≠ 0) (holdsEnd prev rfl)
      simp only [childTable, moved, Table.close, Function.update_apply, Option.some.injEq]
      by_cases isPrev : fd = prev
      · rw [if_pos isPrev, if_neg (by omega), if_pos isPrev.symm]
      · by_cases isInput : fd = 0
        · rw [if_neg isPrev, if_pos isInput, if_pos ⟨isInput, positive⟩]
        · rw [if_neg isPrev, if_neg isInput, if_neg (fun both => isInput both.1),
            if_neg (Ne.symm isPrev)]

/-- The child of the last command. -/
theorem childTable_last :
    childTable prevRead none (stageTable inherited index prevRead) =
      wiredTable inherited index True := by
  funext fd
  rw [childTable_none carries (fun _ => stageTable_prev), wiredTable]
  by_cases isInput : fd = 0 ∧ 0 < index
  · rw [if_pos isInput, if_pos isInput]
  · rw [if_neg isInput, if_neg isInput, if_neg (fun both : fd = 1 ∧ ¬ True => both.2 trivial)]
    by_cases isPrev : prevRead = some fd
    · rw [if_pos isPrev, (carries.high fd isPrev).2]
    · rw [if_neg isPrev, stageTable_of_ne isPrev]

variable {fds : Nat × Nat} (apart : fds.1 ≠ fds.2)
  (freshRead : stageTable inherited index prevRead fds.1 = none)
  (freshWrite : stageTable inherited index prevRead fds.2 = none)

include apart freshRead freshWrite

/-- Behind a fork the shell closes the carried end and the write end. -/
theorem close_closeCarried_addPipe :
    (((stageTable inherited index prevRead).addPipe index fds).closeCarried prevRead).close fds.2 =
      stageTable inherited (index + 1) (some fds.1) := by
  obtain ⟨readNotPrev, readClosed⟩ := fresh_stageTable freshRead
  obtain ⟨writeNotPrev, writeClosed⟩ := fresh_stageTable freshWrite
  funext fd
  rw [Table.close, Function.update_apply, closeCarried_apply, stageTable, Function.update_apply,
    Nat.add_sub_cancel]
  by_cases isWrite : fd = fds.2
  · rw [if_pos isWrite, if_neg (by omega), isWrite, writeClosed]
  rw [if_neg isWrite]
  by_cases isRead : fd = fds.1
  · rw [if_pos isRead, isRead, if_neg readNotPrev, Table.addPipe, Function.update_of_ne apart,
      Function.update_self]
  rw [if_neg isRead]
  by_cases isPrev : prevRead = some fd
  · rw [if_pos isPrev, (carries.high fd isPrev).2]
  · rw [if_neg isPrev, Table.addPipe, Function.update_of_ne isWrite, Function.update_of_ne isRead,
      stageTable_of_ne isPrev]

variable (high : 2 < fds.1 ∧ 2 < fds.2)

include high

/-- The child of a command with a pipe behind it. -/
theorem childTable_addPipe :
    childTable prevRead (some fds) ((stageTable inherited index prevRead).addPipe index fds) =
      wiredTable inherited index False := by
  obtain ⟨readNotPrev, readClosed⟩ := fresh_stageTable freshRead
  obtain ⟨writeNotPrev, writeClosed⟩ := fresh_stageTable freshWrite
  have holdsEnd : ∀ fd, prevRead = some fd →
      (stageTable inherited index prevRead).addPipe index fds fd = some (.readEnd (index - 1)) := by
    intro fd isPrev
    have notRead : fd ≠ fds.1 := fun same => readNotPrev (same ▸ isPrev)
    have notWrite : fd ≠ fds.2 := fun same => writeNotPrev (same ▸ isPrev)
    rw [Table.addPipe, Function.update_of_ne notWrite, Function.update_of_ne notRead,
      stageTable_prev isPrev]
  have input := fun fd => childTable_none carries holdsEnd fd
  have writeOpen : ((childTable prevRead none
      ((stageTable inherited index prevRead).addPipe index fds)).close fds.1) fds.2 =
        some (.writeEnd index) := by
    rw [Table.close, Function.update_of_ne (Ne.symm apart), input, if_neg (by omega),
      if_neg writeNotPrev, Table.addPipe, Function.update_self]
  have unfolded : childTable prevRead (some fds)
      ((stageTable inherited index prevRead).addPipe index fds) =
        (((childTable prevRead none ((stageTable inherited index prevRead).addPipe index
          fds)).close fds.1).dup3 fds.2 1).close fds.2 := rfl
  funext fd
  rw [unfolded, Table.dup3_eq (by omega : fds.2 ≠ 1) writeOpen, wiredTable]
  simp only [Table.close, Function.update_apply]
  by_cases isWrite : fd = fds.2
  · rw [if_pos isWrite, if_neg (by omega), if_neg (by omega), isWrite, writeClosed]
  rw [if_neg isWrite]
  by_cases isOutput : fd = 1
  · rw [if_pos isOutput, if_neg (by omega), if_pos ⟨isOutput, not_false⟩]
  rw [if_neg isOutput, if_neg (fun both : fd = 1 ∧ ¬ False => isOutput both.1)]
  by_cases isRead : fd = fds.1
  · rw [if_pos isRead, if_neg (by omega), isRead, readClosed]
  rw [if_neg isRead, input]
  by_cases isInput : fd = 0 ∧ 0 < index
  · rw [if_pos isInput, if_pos isInput]
  rw [if_neg isInput, if_neg isInput]
  by_cases isPrev : prevRead = some fd
  · rw [if_pos isPrev, (carries.high fd isPrev).2]
  · rw [if_neg isPrev, Table.addPipe, Function.update_of_ne isWrite, Function.update_of_ne isRead,
      stageTable_of_ne isPrev]

end Stages

/-- The ends of the pipes before a number. -/
def pipeEnds (count : Nat) : List OpenFile :=
  (List.range count).flatMap fun pipe => [.readEnd pipe, .writeEnd pipe]

theorem pipeEnds_succ (count : Nat) :
    pipeEnds (count + 1) = pipeEnds count ++ [.readEnd count, .writeEnd count] := by
  simp [pipeEnds, List.range_succ]

theorem nodup_pipeEnds (count : Nat) : (pipeEnds count).Nodup := by
  rw [pipeEnds, List.nodup_flatMap]
  refine ⟨fun pipe _ => by simp, List.nodup_range.imp ?_⟩
  intro first second differs
  simp [differs.symm]

/-- The end that is carried to a command. -/
def carriedEnds (index : Nat) : Option Nat → List OpenFile
  | some _ => [.readEnd (index - 1)]
  | none => []

theorem Parent.closePrev_eq (parent : Parent) {index : Nat}
    (holdsEnd : ∀ fd, parent.prevRead = some fd → parent.table fd = some (.readEnd (index - 1))) :
    parent.closePrev =
      { parent with
        table := parent.table.closeCarried parent.prevRead
        closed := parent.closed ++ (carriedEnds index parent.prevRead).map some } := by
  cases isPrev : parent.prevRead with
  | none =>
      rw [Parent.closePrev, isPrev]
      simp [Table.closeCarried, carriedEnds, ← isPrev]
  | some fd =>
      rw [Parent.closePrev, isPrev]
      simp [Parent.close, Table.closeCarried, carriedEnds, holdsEnd fd isPrev, isPrev]

/-- The children reach exec with their arguments and between their pipes. -/
def ChildrenWired (inherited : Nat → Option Nat) (commands : List (List Text))
    (children : List (List Text × Table)) : Prop :=
  ∀ index argv table, children[index]? = some (argv, table) →
    commands[index]? = some argv ∧
      Wired inherited index (index + 1 = commands.length) table

/-- The descriptor of the read end that the shell carries to the command at an
index; `none` if a call of `pipe` before it fails. -/
def carriedTo (pipes : PipeCalls) (inherited : Nat → Option Nat) : (index : Nat) →
    Option (Option Nat)
  | 0 => some none
  | index + 1 => do
      let prevRead ← carriedTo pipes inherited index
      let fds ← pipes.allocate index (stageTable inherited index prevRead)
      return some fds.1

/-- The first calls of `pipe` succeed. -/
def Opens (pipes : PipeCalls) (inherited : Nat → Option Nat) (count : Nat) : Prop :=
  (carriedTo pipes inherited count).isSome = true

instance (pipes : PipeCalls) (inherited : Nat → Option Nat) (count : Nat) :
    Decidable (Opens pipes inherited count) :=
  inferInstanceAs (Decidable (_ = true))

/-- The numbers of the pipes and of the children: the loop gets to its end, or to
the call of `pipe` that fails. -/
inductive Progress (pipes : PipeCalls) (inherited : Nat → Option Nat) (count : Nat) :
    (opened forked : Nat) → Prop where
  | complete (opens : Opens pipes inherited (count - 1)) : Progress pipes inherited count (count - 1) count
  | stopped {index : Nat} (inside : index + 1 < count) (opens : Opens pipes inherited index)
      (fails : ¬ Opens pipes inherited (index + 1)) : Progress pipes inherited count index index

/-- The shell before the command at an index. -/
structure Running (pipes : PipeCalls) (inherited : Nat → Option Nat) (pidOf : Nat → Nat)
    (commands : List (List Text)) (index : Nat) (parent : Parent) : Prop where
  carries : Carries inherited index parent.prevRead
  carried : carriedTo pipes inherited index = some parent.prevRead
  table : parent.table = stageTable inherited index parent.prevRead
  obtained : parent.obtained = pipeEnds index
  closed : (parent.closed ++ (carriedEnds index parent.prevRead).map some).Perm
    (parent.obtained.map some)
  children : ChildrenWired inherited commands parent.children
  forked : parent.children.length = index
  pids : parent.pids = (List.range index).map pidOf

/-- The shell behind the loop: it has obtained the ends of some pipes and forked
some children, its calls of `close` have closed each of these ends, once, and
nothing else, and no end is open. -/
structure Settled (pipes : PipeCalls) (inherited : Nat → Option Nat)
    (commands : List (List Text)) (parent : Parent) : Prop where
  progress : ∃ opened, Progress pipes inherited commands.length opened parent.children.length ∧
    parent.obtained = pipeEnds opened
  closesOnce : parent.closed.Perm (parent.obtained.map some) ∧ parent.obtained.Nodup
  noneOpen : parent.table = initialTable inherited
  children : ChildrenWired inherited commands parent.children

section Runs

variable {pipes : PipeCalls} {inherited : Nat → Option Nat} {pidOf : Nat → Nat}
  {commands : List (List Text)} {index : Nat} {parent : Parent}

theorem ChildrenWired.append {children : List (List Text × Table)}
    (wired : ChildrenWired inherited commands children) {argv : List Text} {table : Table}
    (isCommand : commands[children.length]? = some argv)
    (isWired : Wired inherited children.length (children.length + 1 = commands.length) table) :
    ChildrenWired inherited commands (children ++ [(argv, table)]) := by
  intro position other otherTable found
  rcases Nat.lt_or_ge position children.length with earlier | later
  · rw [List.getElem?_append_left earlier] at found
    exact wired position other otherTable found
  · rw [List.getElem?_append_right later] at found
    obtain ⟨inside, same⟩ := List.getElem?_eq_some_iff.mp found
    obtain rfl : position = children.length := by
      simp only [List.length_singleton] at inside
      omega
    simp only [Nat.sub_self, List.getElem_cons_zero] at same
    cases same
    exact ⟨isCommand, isWired⟩

theorem running_start :
    Running pipes inherited pidOf commands 0
      ⟨initialTable inherited, none, [], none, [], [], []⟩ where
  carries := ⟨by simp, by simp⟩
  carried := rfl
  table := rfl
  obtained := rfl
  closed := List.Perm.refl _
  children := by
    intro index argv table found
    cases found
  forked := rfl
  pids := rfl

theorem Running.opens (running : Running pipes inherited pidOf commands index parent) :
    Opens pipes inherited index := by
  rw [Opens, running.carried]
  rfl

/-- The call of `pipe` of the shell is the next one. -/
theorem Running.opens_succ (running : Running pipes inherited pidOf commands index parent) :
    carriedTo pipes inherited (index + 1) =
      (pipes.allocate index parent.table).map fun fds => some fds.1 := by
  rw [carriedTo, running.carried, running.table, Option.bind_eq_bind, Option.bind_some]
  cases pipes.allocate index (stageTable inherited index parent.prevRead) <;> rfl

theorem Running.holdsEnd (running : Running pipes inherited pidOf commands index parent) (fd : Nat)
    (isPrev : parent.prevRead = some fd) : parent.table fd = some (.readEnd (index - 1)) := by
  rw [running.table]
  exact stageTable_prev isPrev

/-- Closing the carried end leaves nothing open. -/
theorem Running.closePrev (running : Running pipes inherited pidOf commands index parent) :
    (parent.closed ++ (carriedEnds index parent.prevRead).map some).Perm
        (parent.obtained.map some) ∧
      parent.obtained.Nodup ∧
      parent.table.closeCarried parent.prevRead = initialTable inherited := by
  refine ⟨running.closed, ?_, ?_⟩
  · rw [running.obtained]
    exact nodup_pipeEnds index
  · rw [running.table]
    exact closeCarried_stageTable running.carries

/-- A call of `pipe` that fails ends the loop. -/
theorem Running.stop (running : Running pipes inherited pidOf commands index parent)
    (inside : index + 1 < commands.length) (failed : pipes.allocate index parent.table = none) :
    Settled pipes inherited commands parent.closePrev := by
  obtain ⟨closes, nodup, noneOpen⟩ := running.closePrev
  have fails : ¬ Opens pipes inherited (index + 1) := by
    rw [Opens, running.opens_succ, failed]
    decide
  rw [parent.closePrev_eq running.holdsEnd]
  refine ⟨⟨index, ?_, running.obtained⟩, ⟨closes, nodup⟩, noneOpen, running.children⟩
  simp only [running.forked]
  exact .stopped inside running.opens fails

theorem Running.finish (running : Running pipes inherited pidOf commands index parent)
    {pid : Nat} {argv : List Text} (isCommand : commands[index]? = some argv)
    (isLast : index + 1 = commands.length) :
    Settled pipes inherited commands (parent.finish pid argv).closePrev := by
  obtain ⟨closes, nodup, noneOpen⟩ := running.closePrev
  have sameClose : (parent.finish pid argv).closePrev = parent.finish pid argv := rfl
  have finished : parent.finish pid argv =
      { parent with
        table := parent.table.closeCarried parent.prevRead
        closed := parent.closed ++ (carriedEnds index parent.prevRead).map some
        prevRead := none
        pids := parent.pids ++ [pid]
        lastPid := some pid
        children := parent.children ++ [(argv, childTable parent.prevRead none parent.table)] } := by
    rw [Parent.finish, (parent.fork pid argv none).closePrev_eq running.holdsEnd]
    rfl
  rw [sameClose, finished]
  refine ⟨⟨index, ?_, running.obtained⟩, ⟨closes, nodup⟩, noneOpen,
    running.children.append ?_ ?_⟩
  · have count : commands.length - 1 = index := by omega
    have complete := @Progress.complete pipes inherited commands.length
      (by rw [count]; exact running.opens)
    simpa only [List.length_append, List.length_singleton, running.forked, isLast, count]
      using complete
  · rw [running.forked]
    exact isCommand
  · rw [running.forked, running.table, childTable_last running.carries]
    rw [eq_true isLast]
    exact wired_wiredTable index True

theorem Running.advance (running : Running pipes inherited pidOf commands index parent)
    {fds : Nat × Nat} {argv : List Text}
    (allocated : pipes.allocate index parent.table = some fds)
    (isCommand : commands[index]? = some argv) (notLast : index + 1 ≠ commands.length) :
    Running pipes inherited pidOf commands (index + 1)
      (parent.advance index (pidOf index) argv fds) := by
  obtain ⟨readHigh, writeHigh, apart, freshRead, freshWrite⟩ := pipes.fresh allocated
  have tableEq := running.table
  rw [tableEq] at freshRead freshWrite
  obtain ⟨readNotPrev, readClosed⟩ := fresh_stageTable freshRead
  obtain ⟨writeNotPrev, writeClosed⟩ := fresh_stageTable freshWrite
  have holdsEnd : ∀ fd, parent.prevRead = some fd →
      parent.table.addPipe index fds fd = some (.readEnd (index - 1)) := by
    intro fd isPrev
    have notRead : fd ≠ fds.1 := fun same => readNotPrev (same ▸ isPrev)
    have notWrite : fd ≠ fds.2 := fun same => writeNotPrev (same ▸ isPrev)
    rw [Table.addPipe, Function.update_of_ne notWrite, Function.update_of_ne notRead,
      running.holdsEnd fd isPrev]
  have writeOpen : (parent.table.addPipe index fds).closeCarried parent.prevRead fds.2 =
      some (.writeEnd index) := by
    rw [closeCarried_apply, if_neg writeNotPrev, Table.addPipe, Function.update_self]
  have advanced : parent.advance index (pidOf index) argv fds =
      { table := ((parent.table.addPipe index fds).closeCarried parent.prevRead).close fds.2
        prevRead := some fds.1
        pids := parent.pids ++ [pidOf index]
        lastPid := parent.lastPid
        obtained := parent.obtained ++ [.readEnd index, .writeEnd index]
        closed := parent.closed ++ (carriedEnds index parent.prevRead).map some ++
          [some (.writeEnd index)]
        children := parent.children ++ [(argv, childTable parent.prevRead (some fds)
          (parent.table.addPipe index fds))] } := by
    have closes := ((parent.openPipe index fds).fork (pidOf index) argv (some fds)).closePrev_eq
      holdsEnd
    rw [Parent.advance, closes]
    simp only [Parent.close, Parent.openPipe, Parent.fork, writeOpen, Option.isNone_some,
      Bool.false_eq_true, if_false]
  have opened := running.opens_succ
  rw [allocated, Option.map_some] at opened
  rw [advanced]
  refine ⟨⟨by simp, ?_⟩, opened, ?_, ?_, ?_, ?_, ?_, ?_⟩
  · intro fd isRead
    cases isRead
    exact ⟨readHigh, readClosed⟩
  · rw [tableEq]
    exact close_closeCarried_addPipe running.carries apart freshRead freshWrite
  · rw [running.obtained, pipeEnds_succ]
  · have swapped : ([some (.writeEnd index)] ++ [some (.readEnd index)] :
        List (Option OpenFile)).Perm [some (.readEnd index), some (.writeEnd index)] :=
      List.Perm.swap _ _ _
    simpa [carriedEnds, List.append_assoc] using running.closed.append swapped
  · refine running.children.append ?_ ?_
    · rw [running.forked]
      exact isCommand
    · rw [running.forked, tableEq,
        childTable_addPipe running.carries apart freshRead freshWrite ⟨readHigh, writeHigh⟩,
        eq_false notLast]
      exact wired_wiredTable index False
  · rw [List.length_append, running.forked, List.length_singleton]
  · rw [running.pids, List.range_succ, List.map_append, List.map_singleton]

/-- From every stage the loop ends with all ends closed once and all children
wired. -/
theorem Running.runStages {rest : List (List Text)}
    (running : Running pipes inherited pidOf commands index parent)
    (remaining : commands.drop index = rest) (inside : index < commands.length) :
    Settled pipes inherited commands
      (Shell.runStages pipes pidOf index rest parent).closePrev := by
  induction rest generalizing index parent with
  | nil =>
      have outside := List.drop_eq_nil_iff.mp remaining
      omega
  | cons argv rest ih =>
      have isCommand : commands[index]? = some argv := by
        rw [← List.head?_drop, remaining, List.head?_cons]
      have later : commands.drop (index + 1) = rest := by
        rw [← List.tail_drop, remaining, List.tail_cons]
      have length := congrArg List.length remaining
      rw [List.length_drop, List.length_cons] at length
      cases rest with
      | nil =>
          rw [List.length_nil] at length
          exact running.finish isCommand (by omega)
      | cons next rest =>
          rw [List.length_cons] at length
          rw [Shell.runStages]
          cases allocated : pipes.allocate index parent.table with
          | none => exact running.stop (by omega) allocated
          | some fds => exact ih (running.advance allocated isCommand (by omega)) later (by omega)

end Runs

/-- Whatever descriptors `pipe` returns and wherever it fails, the shell forks a
child for every command before the failure, closes every end that it has
obtained once, and every child reaches exec between the pipe before and the pipe
behind it. -/
theorem runPipeline_settled (pipes : PipeCalls) (pidOf : Nat → Nat) (commands : List (List Text))
    (inherited : Nat → Option Nat) :
    Settled pipes inherited commands
      (runPipeline pipes pidOf commands (initialTable inherited)) := by
  cases commands with
  | nil =>
      refine ⟨⟨0, .complete rfl, rfl⟩, ⟨List.Perm.refl _, List.nodup_nil⟩, rfl, ?_⟩
      intro index argv table found
      cases found
  | cons argv commands => exact running_start.runStages rfl (Nat.succ_pos _)

/-- Calls of `pipe` that return the two lowest of three descriptors that are free. -/
def threeDescriptors : PipeCalls where
  allocate := fun _ table =>
    match [3, 4, 5].filter fun fd => (table fd).isNone with
    | first :: second :: _ => some (first, second)
    | _ => none
  fresh := by
    intro pipe table fds allocated
    cases third : table 3 <;> cases fourth : table 4 <;> cases fifth : table 5 <;>
      simp [third, fourth, fifth] at allocated <;>
      subst allocated <;>
      simp [third, fourth, fifth]

def standardStreams : Nat → Option Nat := fun fd => if fd < 3 then some fd else none

/-- Four commands get their three pipes on descriptors that are used again. -/
theorem runPipeline_settled_four :
    Settled threeDescriptors standardStreams (List.replicate 4 ["cat".toList])
        (runPipeline threeDescriptors (· + 2) (List.replicate 4 ["cat".toList])
          (initialTable standardStreams)) ∧
      (runPipeline threeDescriptors (· + 2) (List.replicate 4 ["cat".toList])
        (initialTable standardStreams)).closed =
          [some (.writeEnd 0), some (.readEnd 0), some (.writeEnd 1), some (.readEnd 1),
            some (.writeEnd 2), some (.readEnd 2)] ∧
      (runPipeline threeDescriptors (· + 2) (List.replicate 4 ["cat".toList])
        (initialTable standardStreams)).children.length = 4 :=
  ⟨runPipeline_settled _ _ _ _, by decide, by decide⟩

/-- The exit code, or 128 and the signal. -/
def decodeWaitStatus (status : BitVec 32) : BitVec 32 :=
  let sig := status &&& 0x7f
  if sig ≠ 0 then 128 + sig else status.sshiftRight 8 &&& 0xff

/-- The decimal text of an integer. -/
def formatInt (value : Int) : Text :=
  if value < 0 then '-' :: Nat.toDigits 10 value.natAbs else Nat.toDigits 10 value.natAbs

theorem toDigits_injective : Function.Injective (Nat.toDigits 10) :=
  Function.LeftInverse.injective fun _ => Nat.ofDigitChars_ten_toDigits

theorem formatInt_injective : Function.Injective formatInt := by
  have notSign (magnitude other : Nat) : '-' :: Nat.toDigits 10 magnitude ≠
      Nat.toDigits 10 other := by
    intro same
    have isDigit : ('-' : Char).isDigit = true :=
      Nat.isDigit_of_mem_toDigits (by decide) (by decide) (same ▸ List.mem_cons_self)
    exact absurd isDigit (by decide)
  intro first second same
  rw [formatInt, formatInt] at same
  split_ifs at same with firstNegative secondNegative secondNegative
  · have magnitude := toDigits_injective (List.cons.inj same).2
    omega
  · exact absurd same (notSign _ _)
  · exact absurd same.symm (notSign _ _)
  · have magnitude := toDigits_injective same
    omega

/-- The children that were not reaped, with their wait statuses, in the order in
which they terminate. -/
abbrev Children := List (Nat × BitVec 32)

/-- `waitpid` for a child by its name; the status is not written for others. -/
def waitFor (pid : Nat) (children : Children) : BitVec 32 × Children :=
  match children.find? fun child => child.1 == pid with
  | some child => (child.2, children.eraseP fun child => child.1 == pid)
  | none => (0, children)

/-- `waitpid` for any child. -/
def waitAny : Children → BitVec 32 × Children
  | [] => (0, [])
  | child :: children => (child.2, children)

/-- Wait for the children of a pipeline by name. -/
def waitPids (lastPid : Option Nat) : List Nat → BitVec 32 → Children → BitVec 32 × Children
  | [], lastStatus, children => (lastStatus, children)
  | pid :: pids, lastStatus, children =>
      let (status, rest) := waitFor pid children
      waitPids lastPid pids (if some pid = lastPid then status else lastStatus) rest

/-- Wait for a number of children. -/
def waitCount : Nat → BitVec 32 → Children → BitVec 32 × Children
  | 0, lastExit, children => (lastExit, children)
  | count + 1, _, children =>
      let (status, rest) := waitAny children
      waitCount count status rest

section Statuses

variable (pipes : PipeCalls) (pidOf : Nat → Nat) (commands : List (List Text)) (table : Table)
  (children : Children) (env : Environment)

/-- A pipeline in `00shell.rs`. -/
def shellPipeline : Children × Environment :=
  let parent := runPipeline pipes pidOf commands table
  let (status, rest) := waitPids parent.lastPid parent.pids 0 children
  (rest, env.set ['?'] (formatInt (decodeWaitStatus status).toInt))

/-- A pipeline in `testcode_runner.rs`. -/
def testcodeRunnerPipeline : Children × Environment :=
  let (status, rest) := waitCount commands.length 0 children
  (rest, env.set ['?'] (formatInt status.toInt))

end Statuses

theorem Environment.set_self (env : Environment) (key value : Text) :
    env.set key value key = some value :=
  Function.update_self _ _ _

/-- The children of a pipeline. -/
def forkedChildren (pidOf : Nat → Nat) (statusOf : Nat → BitVec 32) (count : Nat) : Children :=
  (List.range count).map fun index => (pidOf index, statusOf index)

/-- A pipeline whose calls of `pipe` and `fork` all succeed, beside children that
run in the background. -/
structure PipelineRuns (pipes : PipeCalls) (pidOf : Nat → Nat) (statusOf : Nat → BitVec 32)
    (commands : List (List Text)) (inherited : Nat → Option Nat) (background children : Children) :
    Prop where
  several : 2 ≤ commands.length
  complete : (runPipeline pipes pidOf commands (initialTable inherited)).children.length =
    commands.length
  distinct : ((forkedChildren pidOf statusOf commands.length ++ background).map Prod.fst).Nodup
  order : children.Perm (forkedChildren pidOf statusOf commands.length ++ background)

/-- The variable `?` has the decoded status of the last command, and no child in
the background was reaped. -/
def ReportsLast (statusOf : Nat → BitVec 32) (commands : List (List Text))
    (background : Children) (result : Children × Environment) : Prop :=
  result.2 ['?'] =
      some (formatInt (decodeWaitStatus (statusOf (commands.length - 1))).toInt) ∧
    ∀ child ∈ background, child ∈ result.1

/-- The shell behind a loop over all commands knows its children by name. -/
structure Named (pidOf : Nat → Nat) (commands : List (List Text)) (parent : Parent) : Prop where
  pids : parent.pids = (List.range commands.length).map pidOf
  last : parent.lastPid = some (pidOf (commands.length - 1))

section Naming

variable {pipes : PipeCalls} {inherited : Nat → Option Nat} {pidOf : Nat → Nat}
  {commands : List (List Text)} {index : Nat} {parent : Parent}

theorem Parent.closePrev_pids (parent : Parent) : parent.closePrev.pids = parent.pids := by
  rw [Parent.closePrev]
  split <;> rfl

theorem Parent.closePrev_lastPid (parent : Parent) :
    parent.closePrev.lastPid = parent.lastPid := by
  rw [Parent.closePrev]
  split <;> rfl

theorem Parent.closePrev_children (parent : Parent) :
    parent.closePrev.children = parent.children := by
  rw [Parent.closePrev]
  split <;> rfl

theorem Running.finish_named (running : Running pipes inherited pidOf commands index parent)
    {argv : List Text} (isLast : index + 1 = commands.length) :
    Named pidOf commands (parent.finish (pidOf index) argv) := by
  refine ⟨?_, ?_⟩
  · have forked : (parent.finish (pidOf index) argv).pids = parent.pids ++ [pidOf index] :=
      Parent.closePrev_pids _
    rw [forked, running.pids, ← isLast, List.range_succ, List.map_append, List.map_singleton]
  · have forked : (parent.finish (pidOf index) argv).lastPid = some (pidOf index) :=
      Parent.closePrev_lastPid _
    rw [forked, ← isLast, Nat.add_sub_cancel]

/-- A loop that forks a child for every command reaches the last one. -/
theorem Running.runStages_named {rest : List (List Text)}
    (running : Running pipes inherited pidOf commands index parent)
    (remaining : commands.drop index = rest) (inside : index < commands.length)
    (complete : (Shell.runStages pipes pidOf index rest parent).children.length =
      commands.length) :
    Named pidOf commands (Shell.runStages pipes pidOf index rest parent) := by
  induction rest generalizing index parent with
  | nil =>
      have outside := List.drop_eq_nil_iff.mp remaining
      omega
  | cons argv rest ih =>
      have isCommand : commands[index]? = some argv := by
        rw [← List.head?_drop, remaining, List.head?_cons]
      have later : commands.drop (index + 1) = rest := by
        rw [← List.tail_drop, remaining, List.tail_cons]
      have length := congrArg List.length remaining
      rw [List.length_drop, List.length_cons] at length
      cases rest with
      | nil =>
          rw [List.length_nil] at length
          exact running.finish_named (by omega)
      | cons next rest =>
          rw [List.length_cons] at length
          rw [Shell.runStages] at complete ⊢
          cases allocated : pipes.allocate index parent.table with
          | none =>
              rw [allocated] at complete
              have stopped : parent.children.length = commands.length := complete
              rw [running.forked] at stopped
              omega
          | some fds =>
              rw [allocated] at complete
              exact ih (running.advance allocated isCommand (by omega)) later (by omega) complete

theorem runPipeline_named (notEmpty : 0 < commands.length)
    (complete : (runPipeline pipes pidOf commands (initialTable inherited)).children.length =
      commands.length) :
    Named pidOf commands (runPipeline pipes pidOf commands (initialTable inherited)) := by
  rw [runPipeline, Parent.closePrev_children] at complete
  have started : Running pipes inherited pidOf commands 0 _ := running_start
  have named := started.runStages_named (List.drop_zero : commands.drop 0 = commands)
    notEmpty complete
  refine ⟨?_, ?_⟩
  · rw [runPipeline, Parent.closePrev_pids, named.pids]
  · rw [runPipeline, Parent.closePrev_lastPid, named.last]

end Naming

section Waiting

/-- A child that is waited for by its name is the one that is reaped. -/
theorem waitFor_perm {pid : Nat} {status : BitVec 32} {children others : Children}
    (distinct : (((pid, status) :: others).map Prod.fst).Nodup)
    (order : children.Perm ((pid, status) :: others)) :
    ∃ rest, waitFor pid children = (status, rest) ∧ rest.Perm others := by
  have isChild : (pid, status) ∈ children := order.mem_iff.mpr (by simp)
  obtain ⟨child, before, after, notBefore, isPid, childrenEq, erased⟩ :=
    List.exists_of_eraseP (p := fun child => child.1 == pid) isChild (by simp)
  have childMem : child ∈ (pid, status) :: others :=
    order.mem_iff.mp (by rw [childrenEq]; simp)
  have isNamed : child = (pid, status) := by
    rcases List.mem_cons.mp childMem with same | other
    · exact same
    · rw [List.map_cons, List.nodup_cons] at distinct
      have nameMem := List.mem_map_of_mem (f := Prod.fst) other
      rw [beq_iff_eq.mp isPid] at nameMem
      exact absurd nameMem distinct.1
  subst isNamed
  have found : children.find? (fun child => child.1 == pid) = some (pid, status) := by
    rw [List.find?_eq_some_iff_append]
    refine ⟨isPid, before, after, childrenEq, fun other otherMem => ?_⟩
    simpa using notBefore other otherMem
  refine ⟨before ++ after, ?_, ?_⟩
  · rw [waitFor, found]
    simp only
    rw [erased]
  · rw [childrenEq] at order
    exact (List.perm_middle.symm.trans order).cons_inv

/-- Waiting for children by name gives the status of the last one and reaps no
other child. -/
theorem waitPids_append {pid : Nat} {status : BitVec 32} {waited children others : Children}
    (distinct : ((waited ++ (pid, status) :: others).map Prod.fst).Nodup)
    (order : children.Perm (waited ++ (pid, status) :: others)) (initial : BitVec 32) :
    ∃ rest, waitPids (some pid) (waited.map Prod.fst ++ [pid]) initial children =
      (status, rest) ∧ rest.Perm others := by
  induction waited generalizing children initial with
  | nil =>
      obtain ⟨rest, reaped, remaining⟩ := waitFor_perm distinct order
      refine ⟨rest, ?_, remaining⟩
      simp only [List.map_nil, List.nil_append, waitPids, reaped, if_true]
  | cons child waited ih =>
      obtain ⟨rest, reaped, remaining⟩ := waitFor_perm distinct order
      rw [List.cons_append, List.map_cons, List.nodup_cons] at distinct
      obtain ⟨last, waits, lastPerm⟩ := ih distinct.2 remaining
        (if some child.1 = some pid then child.2 else initial)
      refine ⟨last, ?_, lastPerm⟩
      rw [List.map_cons, List.cons_append, waitPids, reaped]
      exact waits

/-- Waiting for a number of children gives the status of the last of them to
terminate. -/
theorem waitCount_succ {count : Nat} {children : Children} {child : Nat × BitVec 32}
    (isLast : children[count]? = some child) (initial : BitVec 32) :
    waitCount (count + 1) initial children = (child.2, children.drop (count + 1)) := by
  induction count generalizing children initial with
  | zero =>
      cases children with
      | nil => cases isLast
      | cons first children =>
          cases isLast
          rfl
  | succ count ih =>
      cases children with
      | nil => cases isLast
      | cons first children =>
          rw [waitCount, waitAny]
          exact ih isLast first.2

theorem forkedChildren_succ (pidOf : Nat → Nat) (statusOf : Nat → BitVec 32) (count : Nat) :
    forkedChildren pidOf statusOf (count + 1) =
      forkedChildren pidOf statusOf count ++ [(pidOf count, statusOf count)] := by
  rw [forkedChildren, List.range_succ, List.map_append, List.map_singleton]
  rfl

theorem forkedChildren_names (pidOf : Nat → Nat) (statusOf : Nat → BitVec 32) (count : Nat) :
    (forkedChildren pidOf statusOf count).map Prod.fst = (List.range count).map pidOf := by
  rw [forkedChildren, List.map_map]
  rfl

end Waiting

section Reports

variable {pipes : PipeCalls} {pidOf : Nat → Nat} {statusOf : Nat → BitVec 32}
  {commands : List (List Text)} {inherited : Nat → Option Nat} {background children : Children}

theorem PipelineRuns.named
    (runs : PipelineRuns pipes pidOf statusOf commands inherited background children) :
    Named pidOf commands (runPipeline pipes pidOf commands (initialTable inherited)) := by
  have several := runs.several
  exact runPipeline_named (by omega) runs.complete

/-- Waiting for the children by name reports the last command, in every order. -/
theorem PipelineRuns.shell_reportsLast
    (runs : PipelineRuns pipes pidOf statusOf commands inherited background children)
    (env : Environment) :
    ReportsLast statusOf commands background
      (shellPipeline pipes pidOf commands (initialTable inherited) children env) := by
  have named := runs.named
  obtain ⟨count, lengthEq⟩ : ∃ count, commands.length = count + 1 :=
    ⟨commands.length - 1, by have several := runs.several; omega⟩
  have distinct := runs.distinct
  have order := runs.order
  rw [lengthEq, forkedChildren_succ, List.append_assoc, List.singleton_append] at distinct order
  obtain ⟨rest, waits, remaining⟩ := waitPids_append distinct order 0
  have reaped : shellPipeline pipes pidOf commands (initialTable inherited) children env =
      (rest, env.set ['?'] (formatInt (decodeWaitStatus (statusOf count)).toInt)) := by
    rw [forkedChildren_names] at waits
    rw [shellPipeline]
    simp only [named.pids, named.last]
    rw [lengthEq, List.range_succ, List.map_append, List.map_singleton, Nat.add_sub_cancel, waits]
  rw [reaped]
  refine ⟨?_, fun child childMem => remaining.mem_iff.mpr childMem⟩
  rw [lengthEq, Nat.add_sub_cancel]
  simp only [Environment.set_self]

theorem PipelineRuns.enough
    (runs : PipelineRuns pipes pidOf statusOf commands inherited background children) :
    commands.length ≤ children.length := by
  rw [runs.order.length_eq, List.length_append, forkedChildren, List.length_map,
    List.length_range]
  omega

end Reports

/-- One shell reports the last command in every order of termination.  The other
does exactly when the children that terminate first are those of the pipeline and
the last of these has a raw status that is the decoded one of the last command. -/
theorem reportsLast_iff {pipes : PipeCalls} {pidOf : Nat → Nat} {statusOf : Nat → BitVec 32}
    {commands : List (List Text)} {inherited : Nat → Option Nat}
    {background children : Children} (env : Environment)
    (runs : PipelineRuns pipes pidOf statusOf commands inherited background children) :
    (ReportsLast statusOf commands background
        (shellPipeline pipes pidOf commands (initialTable inherited) children env) ∧
      ReportsLast statusOf commands background
        (testcodeRunnerPipeline commands children env)) ↔
      (∀ child ∈ children.take commands.length, child ∉ background) ∧
        ∃ child, children[commands.length - 1]? = some child ∧
          child.2 = decodeWaitStatus (statusOf (commands.length - 1)) := by
  have enough := runs.enough
  obtain ⟨count, lengthEq⟩ : ∃ count, commands.length = count + 1 :=
    ⟨commands.length - 1, by have several := runs.several; omega⟩
  have inside : count < children.length := by omega
  obtain ⟨reapedLast, lastEq⟩ : ∃ child, children[count]? = some child :=
    ⟨children[count], List.getElem?_eq_getElem inside⟩
  have waits : testcodeRunnerPipeline commands children env =
      (children.drop commands.length, env.set ['?'] (formatInt reapedLast.2.toInt)) := by
    rw [testcodeRunnerPipeline, lengthEq, waitCount_succ lastEq]
  have status : (testcodeRunnerPipeline commands children env).2 ['?'] =
      some (formatInt (decodeWaitStatus (statusOf count)).toInt) ↔
        reapedLast.2 = decodeWaitStatus (statusOf count) := by
    rw [waits]
    simp only [Environment.set_self, Option.some.injEq, formatInt_injective.eq_iff,
      BitVec.toInt_inj]
  have unreaped : (∀ child ∈ background, child ∈ (testcodeRunnerPipeline commands children env).1) ↔
      ∀ child ∈ children.take commands.length, child ∉ background := by
    have nodup : children.Nodup := runs.order.nodup_iff.mpr (List.Nodup.of_map _ runs.distinct)
    rw [waits]
    constructor
    · intro kept child taken inBackground
      exact List.disjoint_take_drop nodup (le_refl _) taken (kept child inBackground)
    · intro apart child inBackground
      have isChild : child ∈ children := runs.order.mem_iff.mpr (by simp [inBackground])
      rw [← List.take_append_drop commands.length children, List.mem_append] at isChild
      exact isChild.resolve_left fun taken => apart child taken inBackground
  have shellReports := runs.shell_reportsLast env
  have isLast : commands.length - 1 = count := by omega
  rw [isLast]
  constructor
  · rintro ⟨_, reports, kept⟩
    rw [isLast] at reports
    exact ⟨unreaped.mp kept, reapedLast, lastEq, status.mp reports⟩
  · rintro ⟨apart, child, childEq, same⟩
    rw [lastEq] at childEq
    cases childEq
    refine ⟨shellReports, ?_, unreaped.mpr apart⟩
    rw [isLast]
    exact status.mpr same

/-- Calls of `pipe` that return the lowest descriptors behind the standard ones. -/
def lowPipes : PipeCalls where
  allocate := fun _ table => if table 3 = none ∧ table 4 = none then some (3, 4) else none
  fresh := by
    intro pipe table fds allocated
    split_ifs at allocated with free
    cases allocated
    exact ⟨by omega, by omega, by omega, free.1, free.2⟩

theorem pipelineRuns_successes :
    PipelineRuns lowPipes (· + 2) (fun _ => 0) [["ls".toList], ["wc".toList]] (fun _ => none)
      [(9, 0)] [(2, 0), (3, 0), (9, 0)] where
  several := by decide
  complete := by decide
  distinct := by decide
  order := List.Perm.refl _

theorem reportsLast_iff_successes :
    ReportsLast (fun _ => 0) [["ls".toList], ["wc".toList]] [(9, 0)]
        (shellPipeline lowPipes (· + 2) [["ls".toList], ["wc".toList]]
          (initialTable fun _ => none) [(2, 0), (3, 0), (9, 0)] (fun _ => none)) ∧
      ReportsLast (fun _ => 0) [["ls".toList], ["wc".toList]] [(9, 0)]
        (testcodeRunnerPipeline [["ls".toList], ["wc".toList]] [(2, 0), (3, 0), (9, 0)]
          (fun _ => none)) :=
  (reportsLast_iff (fun _ => none) pipelineRuns_successes).mpr (by decide)

/-- The last command exits with 1 and `?` is 256. -/
theorem not_reportsLast_exitCode :
    PipelineRuns lowPipes (· + 2) (fun index => if index = 1 then 256 else 0)
        [["ls".toList], ["false".toList]] (fun _ => none) [] [(2, 0), (3, 256)] ∧
      ¬ ReportsLast (fun index => if index = 1 then 256 else 0)
        [["ls".toList], ["false".toList]] []
        (testcodeRunnerPipeline [["ls".toList], ["false".toList]] [(2, 0), (3, 256)]
          (fun _ => none)) := by
  refine ⟨⟨by decide, by decide, by decide, List.Perm.refl _⟩, ?_⟩
  rintro ⟨reports, _⟩
  exact absurd reports (by decide)

end Shell

end OSWorkspace
