import Mathlib

/-!
# Computations that keep their state on failure

A call of the modelled code changes a shared state and then returns a value,
returns an error, or panics.  An error does not undo the changes made before
it, so the state is part of both results; a panic ends the run.
-/

namespace OSWorkspace

/-- The end of a call. -/
inductive Outcome (ε σ α : Type) where
  | ok (value : α) (state : σ)
  | err (error : ε) (state : σ)
  | panic

/-- The value of a call that returned. -/
def Outcome.value? {ε σ α : Type} : Outcome ε σ α → Option α
  | .ok value _ => some value
  | _ => none

theorem Outcome.of_value? {ε σ α : Type} {outcome : Outcome ε σ α} {value : α}
    (returned : outcome.value? = some value) : ∃ state, outcome = .ok value state := by
  cases outcome with
  | ok other state =>
      cases returned
      exact ⟨state, rfl⟩
  | err error state => cases returned
  | panic => cases returned

def Outcome.isPanic {ε σ α : Type} : Outcome ε σ α → Bool
  | .panic => true
  | _ => false

theorem Outcome.of_isPanic {ε σ α : Type} {outcome : Outcome ε σ α}
    (panics : outcome.isPanic = true) : outcome = .panic := by
  cases outcome with
  | ok value state => cases panics
  | err error state => cases panics
  | panic => rfl

/-- A computation on states of type `σ` with errors of type `ε`. -/
structure Exec (ε σ α : Type) where
  apply : σ → Outcome ε σ α

namespace Exec

variable {ε σ α β : Type}

-- A definition of its own: a kernel that meets two runs compares the
-- computations before it unfolds them, which it does not do for a field.
def run (computation : Exec ε σ α) (state : σ) : Outcome ε σ α :=
  computation.apply state

def bind (first : Exec ε σ α) (next : α → Exec ε σ β) : Exec ε σ β where
  apply state :=
    match first.run state with
    | .ok value after => (next value).run after
    | .err error after => .err error after
    | .panic => .panic

instance : Monad (Exec ε σ) where
  pure value := ⟨fun state => .ok value state⟩
  bind := Exec.bind

def get : Exec ε σ σ := ⟨fun state => .ok state state⟩

def modify (change : σ → σ) : Exec ε σ Unit := ⟨fun state => .ok () (change state)⟩

def throw (error : ε) : Exec ε σ α := ⟨fun state => .err error state⟩

def panicking : Exec ε σ α := ⟨fun _ => .panic⟩

/-- Panic unless the condition holds. -/
def check (condition : Prop) [Decidable condition] : Exec ε σ Unit :=
  if condition then pure () else panicking

/-- The value of an option, or a panic. -/
def expect : Option α → Exec ε σ α
  | some value => pure value
  | none => panicking

/-- The value of an option, or an error. -/
def okOr (option : Option α) (error : ε) : Exec ε σ α :=
  match option with
  | some value => pure value
  | none => throw error

/-- Turn an error into a value, keeping the state it left. -/
def attempt (first : Exec ε σ α) : Exec ε σ (Except ε α) where
  apply state :=
    match first.run state with
    | .ok value after => .ok (.ok value) after
    | .err error after => .ok (.error error) after
    | .panic => .panic

@[simp]
theorem run_pure (value : α) (state : σ) :
    (pure value : Exec ε σ α).run state = .ok value state :=
  rfl

@[simp]
theorem run_get (state : σ) : (get : Exec ε σ σ).run state = .ok state state :=
  rfl

@[simp]
theorem run_modify (change : σ → σ) (state : σ) :
    (modify change : Exec ε σ Unit).run state = .ok () (change state) :=
  rfl

@[simp]
theorem run_throw (error : ε) (state : σ) :
    (throw error : Exec ε σ α).run state = .err error state :=
  rfl

@[simp]
theorem run_panicking (state : σ) : (panicking : Exec ε σ α).run state = .panic :=
  rfl

theorem run_check {condition : Prop} [Decidable condition] (holds : condition) (state : σ) :
    (check condition : Exec ε σ Unit).run state = .ok () state := by
  simp [check, holds]

theorem run_check_panic {condition : Prop} [Decidable condition] (fails : ¬ condition)
    (state : σ) : (check condition : Exec ε σ Unit).run state = .panic := by
  simp [check, fails]

@[simp]
theorem run_expect_some (value : α) (state : σ) :
    (expect (some value) : Exec ε σ α).run state = .ok value state :=
  rfl

@[simp]
theorem run_okOr_some (value : α) (error : ε) (state : σ) :
    (okOr (some value) error : Exec ε σ α).run state = .ok value state :=
  rfl

@[simp]
theorem run_okOr_none (error : ε) (state : σ) :
    (okOr none error : Exec ε σ α).run state = .err error state :=
  rfl

theorem run_bind (first : Exec ε σ α) (next : α → Exec ε σ β) (state : σ) :
    (first >>= next).run state =
      match first.run state with
      | .ok value after => (next value).run after
      | .err error after => .err error after
      | .panic => .panic :=
  rfl

theorem run_bind_ok {first : Exec ε σ α} {next : α → Exec ε σ β} {state after : σ} {value : α}
    (ran : first.run state = .ok value after) :
    (first >>= next).run state = (next value).run after := by
  rw [run_bind, ran]

theorem run_bind_err {first : Exec ε σ α} {next : α → Exec ε σ β} {state after : σ} {error : ε}
    (ran : first.run state = .err error after) :
    (first >>= next).run state = .err error after := by
  rw [run_bind, ran]

theorem run_bind_panic {first : Exec ε σ α} {next : α → Exec ε σ β} {state : σ}
    (ran : first.run state = .panic) : (first >>= next).run state = .panic := by
  rw [run_bind, ran]

/-- A sequence that returns has run both parts. -/
theorem of_run_bind_ok {first : Exec ε σ α} {next : α → Exec ε σ β} {state after : σ}
    {value : β} (ran : (first >>= next).run state = .ok value after) :
    ∃ middle between, first.run state = .ok middle between ∧
      (next middle).run between = .ok value after := by
  rw [run_bind] at ran
  cases start : first.run state with
  | ok middle between =>
      simp only [start] at ran
      exact ⟨middle, between, rfl, ran⟩
  | err error between => simp [start] at ran
  | panic => simp [start] at ran

/-- A check that returns has found its condition. -/
theorem of_run_check {condition : Prop} [Decidable condition] {state after : σ} {value : Unit}
    (ran : (check condition : Exec ε σ Unit).run state = .ok value after) :
    condition ∧ after = state := by
  by_cases holds : condition
  · rw [run_check holds] at ran
    cases ran
    exact ⟨holds, rfl⟩
  · rw [run_check_panic holds] at ran
    cases ran

theorem run_bind_congr {first : Exec ε σ α} {next other : α → Exec ε σ β} {state : σ}
    (same : ∀ value after, (next value).run after = (other value).run after) :
    (first >>= next).run state = (first >>= other).run state := by
  cases start : first.run state with
  | ok value after => rw [run_bind_ok start, run_bind_ok start, same]
  | err error after => rw [run_bind_err start, run_bind_err start]
  | panic => rw [run_bind_panic start, run_bind_panic start]

theorem run_bind_assoc {γ : Type} (first : Exec ε σ α) (next : α → Exec ε σ β)
    (last : β → Exec ε σ γ) (state : σ) :
    ((first >>= next) >>= last).run state = (first >>= fun value => next value >>= last).run state := by
  cases start : first.run state with
  | ok value after => rw [run_bind, run_bind_ok start, run_bind_ok start, run_bind]
  | err error after => rw [run_bind_err start, run_bind_err (run_bind_err start)]
  | panic => rw [run_bind_panic start, run_bind_panic (run_bind_panic start)]

theorem run_attempt (first : Exec ε σ α) (state : σ) :
    first.attempt.run state =
      match first.run state with
      | .ok value after => .ok (.ok value) after
      | .err error after => .ok (.error error) after
      | .panic => .panic :=
  rfl

theorem run_attempt_ok {first : Exec ε σ α} {state after : σ} {value : α}
    (ran : first.run state = .ok value after) :
    first.attempt.run state = .ok (.ok value) after := by
  rw [run_attempt, ran]

theorem of_run_attempt_ok {first : Exec ε σ α} {state after : σ} {value : α}
    (ran : first.attempt.run state = .ok (.ok value) after) :
    first.run state = .ok value after := by
  rw [run_attempt] at ran
  cases start : first.run state with
  | ok other middle =>
      rw [start] at ran
      cases ran
      rfl
  | err error middle =>
      rw [start] at ran
      cases ran
  | panic =>
      rw [start] at ran
      cases ran

theorem run_attempt_err {first : Exec ε σ α} {state after : σ} {error : ε}
    (ran : first.run state = .err error after) :
    first.attempt.run state = .ok (.error error) after := by
  rw [run_attempt, ran]

end Exec

end OSWorkspace
