import ClassCompiler.Error

/-!
# Checks

A step of the analysis. It works on a state, answers with a value, and reports any number of errors;
it never stops, so a mistake does not hide the ones behind it.

* `Check`: steps over a state `σ`
* `run_bind`: the errors of two steps stand in the order of the steps
-/

namespace ClassCompiler

/-- The outcome of a step. -/
structure Checked (σ α : Type) where
  value : α
  state : σ
  errors : List CompileError := []

def Check (σ α : Type) : Type := σ → Checked σ α

namespace Check

variable {σ α β : Type}

def run (step : Check σ α) (state : σ) : Checked σ α := step state

protected def pure (value : α) : Check σ α := fun state => { value, state }

protected def bind (first : Check σ α) (next : α → Check σ β) : Check σ β := fun state =>
  let one := first.run state
  let two := (next one.value).run one.state
  { two with errors := one.errors ++ two.errors }

instance : Monad (Check σ) where
  pure := Check.pure
  bind := Check.bind

/-- Answers with a value and reports what was found on the way to it. -/
def note (value : α) (errors : List CompileError) : Check σ α := fun state =>
  { value, state, errors }

def report (error : CompileError) : Check σ Unit := note () [error]

def reportAll (errors : List CompileError) : Check σ Unit := note () errors

/-- Answers with something read from the state. -/
def read (view : σ → α) : Check σ α := fun state => { value := view state, state }

def modify (change : σ → σ) : Check σ Unit := fun state => { value := (), state := change state }

/-! ## Running -/

@[simp] theorem run_pure (value : α) (state : σ) :
    (pure value : Check σ α).run state = { value, state } := rfl

@[simp] theorem run_bind (first : Check σ α) (next : α → Check σ β) (state : σ) :
    (first >>= next).run state
      = { value := ((next (first.run state).value).run (first.run state).state).value
          state := ((next (first.run state).value).run (first.run state).state).state
          errors := (first.run state).errors
            ++ ((next (first.run state).value).run (first.run state).state).errors } := rfl

@[simp] theorem run_note (value : α) (errors : List CompileError) (state : σ) :
    (note value errors : Check σ α).run state = { value, state, errors } := rfl

@[simp] theorem run_report (error : CompileError) (state : σ) :
    (report error : Check σ Unit).run state = { value := (), state, errors := [error] } := rfl

@[simp] theorem run_reportAll (errors : List CompileError) (state : σ) :
    (reportAll errors : Check σ Unit).run state = { value := (), state, errors } := rfl

@[simp] theorem run_read (view : σ → α) (state : σ) :
    (read view : Check σ α).run state = { value := view state, state } := rfl

@[simp] theorem run_modify (change : σ → σ) (state : σ) :
    (modify change : Check σ Unit).run state = { value := (), state := change state } := rfl

theorem ext {one two : Check σ α} (h : ∀ state, one.run state = two.run state) : one = two :=
  funext h

instance : LawfulMonad (Check σ) := LawfulMonad.mk' (Check σ)
  (fun _ => Check.ext fun _ => by simp [Functor.map, run, Check.bind, Check.pure])
  (fun _ _ => Check.ext fun _ => by simp)
  (fun _ _ _ => Check.ext fun _ => by simp)

end Check

end ClassCompiler
