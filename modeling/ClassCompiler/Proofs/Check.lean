import ClassCompiler.Check
import Mathlib.Order.Defs.Unbundled

/-!
# Postconditions of checks

Five ways to speak of a run of a check without running it: what holds at its end if it reported
nothing, what holds of every error that it may report, what holds of every value that it may answer
with, how any run changes the state, and that it comes to an outcome that is known.

* `Check.Clean`: a postcondition of the runs without errors
* `Check.Reports`: a property of all errors, in every state
* `Check.Gives`: a property of all values, in every state
* `Check.Moves`: a relation of the states before and after, and of the value
* `Check.Answers`: a run without errors, with its value and its state
-/

namespace ClassCompiler.Check

variable {σ α β : Type}

/-! ## Runs without errors -/

/-- If the step reports nothing from `state`, its value and the state after it satisfy `Q`. -/
def Clean (step : Check σ α) (state : σ) (Q : α → σ → Prop) : Prop :=
  (step.run state).errors = [] → Q (step.run state).value (step.run state).state

variable {state : σ} {Q R : α → σ → Prop}

theorem Clean.mono {step : Check σ α} (h : step.Clean state Q)
    (hQR : ∀ a s, Q a s → R a s) : step.Clean state R := fun he => hQR _ _ (h he)

/-- What holds of the value in any case, holds in a run without errors. -/
theorem Clean.and_value {step : Check σ α} {P : α → Prop} (h : step.Clean state Q)
    (hvalue : P (step.run state).value) : step.Clean state fun a s => Q a s ∧ P a :=
  fun he => ⟨h he, hvalue⟩

theorem clean_pure {a : α} (h : Q a state) : (pure a : Check σ α).Clean state Q := fun _ => h

theorem clean_bind {first : Check σ α} {next : α → Check σ β} {S : β → σ → Prop}
    (h : first.Clean state Q) (hnext : ∀ a s, Q a s → (next a).Clean s S) :
    (first >>= next).Clean state S := by
  intro he
  rw [run_bind] at he
  obtain ⟨hfirst, hrest⟩ := List.append_eq_nil_iff.mp he
  exact hnext _ _ (h hfirst) hrest

theorem clean_map {step : Check σ α} {f : α → β} {S : β → σ → Prop}
    (h : step.Clean state fun a s => S (f a) s) : (f <$> step).Clean state S := by
  rw [map_eq_pure_bind]
  exact clean_bind h fun _ _ ha => clean_pure ha

theorem clean_note {a : α} {errors : List CompileError} (h : errors = [] → Q a state) :
    (note a errors : Check σ α).Clean state Q := h

theorem clean_report (error : CompileError) {S : Unit → σ → Prop} :
    (report error : Check σ Unit).Clean state S := by
  intro he
  cases he

theorem clean_reportAll {errors : List CompileError} {S : Unit → σ → Prop}
    (h : errors = [] → S () state) : (reportAll errors : Check σ Unit).Clean state S := h

theorem clean_read_bind {view : σ → α} {next : α → Check σ β} {S : β → σ → Prop}
    (h : (next (view state)).Clean state S) : (read view >>= next).Clean state S := h

theorem clean_modify {change : σ → σ} {S : Unit → σ → Prop} (h : S () (change state)) :
    (modify change : Check σ Unit).Clean state S := fun _ => h

/-! ## Optional parts -/

/-- A step on a part of a tree that need not be there. -/
def optional (step : α → Check σ β) : Option α → Check σ (Option β)
  | none => pure none
  | some a => some <$> step a

theorem clean_optional {step : α → Check σ β} {part : Option α} {S : Option β → σ → Prop}
    (hnone : part = none → S none state)
    (hsome : ∀ a, part = some a → (step a).Clean state fun b s => S (some b) s) :
    (optional step part).Clean state S := by
  cases part with
  | none => exact clean_pure (hnone rfl)
  | some a => exact clean_map (hsome a rfl)

/-! ## Errors of any run -/

/-- Every error that the step may report satisfies `P`. -/
def Reports (step : Check σ α) (P : CompileError → Prop) : Prop :=
  ∀ state, ∀ error ∈ (step.run state).errors, P error

variable {P : CompileError → Prop}

theorem reports_pure (a : α) : (pure a : Check σ α).Reports P := by
  intro state error h
  cases h

theorem reports_bind {first : Check σ α} {next : α → Check σ β} (h : first.Reports P)
    (hnext : ∀ a, (next a).Reports P) : (first >>= next).Reports P := by
  intro state error he
  rw [run_bind] at he
  rcases List.mem_append.mp he with he | he
  · exact h state error he
  · exact hnext _ _ error he

theorem reports_map {step : Check σ α} (f : α → β) (h : step.Reports P) :
    (f <$> step).Reports P := by
  rw [map_eq_pure_bind]
  exact reports_bind h fun _ => reports_pure _

theorem reports_note (a : α) {errors : List CompileError} (h : ∀ error ∈ errors, P error) :
    (note a errors : Check σ α).Reports P := fun _ => h

theorem reports_report {error : CompileError} (h : P error) :
    (report error : Check σ Unit).Reports P := by
  intro state e he
  rw [List.mem_singleton.mp he]
  exact h

theorem reports_reportAll {errors : List CompileError} (h : ∀ error ∈ errors, P error) :
    (reportAll errors : Check σ Unit).Reports P := fun _ => h

theorem reports_read (view : σ → α) : (read view : Check σ α).Reports P := by
  intro state error h
  cases h

theorem reports_modify (change : σ → σ) : (modify change : Check σ Unit).Reports P := by
  intro state error h
  cases h

/-! ## Values of any run -/

/-- Every value that the step may answer with satisfies `P`. -/
def Gives (step : Check σ α) (P : α → Prop) : Prop := ∀ state, P (step.run state).value

section

variable {P P' : α → Prop} {T : β → Prop}

theorem Gives.mono {step : Check σ α} (h : step.Gives P) (himp : ∀ a, P a → P' a) :
    step.Gives P' := fun state => himp _ (h state)

theorem Gives.and {step : Check σ α} (h : step.Gives P) (h' : step.Gives P') :
    step.Gives fun a => P a ∧ P' a := fun state => ⟨h state, h' state⟩

theorem gives_any (step : Check σ α) : step.Gives fun _ => True := fun _ => trivial

theorem gives_pure {a : α} (h : P a) : (pure a : Check σ α).Gives P := fun _ => h

theorem gives_bind {first : Check σ α} {next : α → Check σ β} (h : first.Gives P)
    (hnext : ∀ a, P a → (next a).Gives T) : (first >>= next).Gives T :=
  fun state => hnext _ (h state) _

/-- A step whose value does not matter. -/
theorem gives_then {first : Check σ α} {next : α → Check σ β} (h : ∀ a, (next a).Gives T) :
    (first >>= next).Gives T := gives_bind (gives_any first) fun a _ => h a

theorem gives_map {step : Check σ α} {f : α → β} (h : step.Gives fun a => T (f a)) :
    (f <$> step).Gives T := by
  rw [map_eq_pure_bind]
  exact gives_bind h fun _ ha => gives_pure ha

theorem gives_note {a : α} (errors : List CompileError) (h : P a) :
    (note a errors : Check σ α).Gives P := fun _ => h

theorem gives_read_bind {view : σ → α} {next : α → Check σ β}
    (h : ∀ state, (next (view state)).Gives T) : (read view >>= next).Gives T :=
  fun state => h state state

theorem gives_optional {step : α → Check σ β} {part : Option α}
    (h : ∀ a, part = some a → (step a).Gives T) :
    (optional step part).Gives fun out => ∀ b, out = some b → T b := by
  cases part with
  | none => exact gives_pure fun b hb => by cases hb
  | some a =>
    refine gives_map ((h a rfl).mono fun c hc b hb => ?_)
    cases hb
    exact hc

end

/-! ## States of any run -/

/-- The state before, the value and the state after are related in every run. -/
def Moves (step : Check σ α) (R : σ → α → σ → Prop) : Prop :=
  ∀ state, R state (step.run state).value (step.run state).state

theorem Moves.mono {step : Check σ α} {R S : σ → α → σ → Prop} (h : step.Moves R)
    (himp : ∀ s a e, R s a e → S s a e) : step.Moves S := fun state => himp _ _ _ (h state)

theorem moves_bind {first : Check σ α} {next : α → Check σ β} {R : σ → α → σ → Prop}
    {S : α → σ → β → σ → Prop} (h : first.Moves R) (hnext : ∀ a, (next a).Moves (S a)) :
    (first >>= next).Moves fun s b e => ∃ a m, R s a m ∧ S a m b e :=
  fun state => ⟨_, _, h state, hnext _ _⟩

theorem moves_run (step : Check σ α) :
    step.Moves fun s a e => a = (step.run s).value ∧ e = (step.run s).state :=
  fun _ => ⟨rfl, rfl⟩

theorem moves_map {step : Check σ α} {f : α → β} {R : σ → α → σ → Prop} (h : step.Moves R) :
    (f <$> step).Moves fun s b e => ∃ a, b = f a ∧ R s a e := fun state => by
  rw [← bind_pure_comp]
  exact ⟨_, rfl, h state⟩

theorem moves_optional {step : α → Check σ β} (part : Option α) {R : σ → β → σ → Prop}
    (h : ∀ a, part = some a → (step a).Moves R) :
    (optional step part).Moves fun s out e => (out = none ∧ e = s)
      ∨ ∃ b, out = some b ∧ R s b e := by
  cases part with
  | none => exact fun _ => .inl ⟨rfl, rfl⟩
  | some a =>
    refine (moves_map (h a rfl)).mono ?_
    rintro s _ e ⟨b, rfl, hrel⟩
    exact .inr ⟨b, rfl, hrel⟩

/-! ## Steps that keep to an order of states -/

section

variable {R : σ → σ → Prop}

/-- Every run of the step goes from a state to a related one. -/
def Keeps (step : Check σ α) (R : σ → σ → Prop) : Prop := ∀ state, R state (step.run state).state

variable [IsPreorder σ R]

theorem keeps_of_state_eq {step : Check σ α} (h : ∀ state, (step.run state).state = state) :
    step.Keeps R := fun state => by
  rw [h]
  exact refl_of R state

theorem keeps_pure (a : α) : (pure a : Check σ α).Keeps R := keeps_of_state_eq fun _ => rfl

theorem keeps_note (a : α) (errors : List CompileError) : (note a errors : Check σ α).Keeps R :=
  keeps_of_state_eq fun _ => rfl

theorem keeps_read (view : σ → α) : (read view : Check σ α).Keeps R :=
  keeps_of_state_eq fun _ => rfl

theorem keeps_bind {first : Check σ α} {next : α → Check σ β} (h : first.Keeps R)
    (hnext : ∀ a, (next a).Keeps R) : (first >>= next).Keeps R :=
  fun state => trans_of R (h state) (hnext _ _)

theorem keeps_map {step : Check σ α} (f : α → β) (h : step.Keeps R) : (f <$> step).Keeps R := by
  rw [← bind_pure_comp]
  exact keeps_bind h fun _ => keeps_pure _

theorem keeps_forM {step : α → Check σ PUnit} (items : List α) (h : ∀ a, (step a).Keeps R) :
    (items.forM step).Keeps R := by
  induction items with
  | nil => exact keeps_pure _
  | cons first rest ih => exact keeps_bind (h first) fun _ => ih

end

/-! ## Runs with a known outcome -/

/-- From one state the step reports nothing, and comes to a value and a state that are known. -/
def Answers (step : Check σ α) (before : σ) (a : α) (after : σ) : Prop :=
  step.run before = { value := a, state := after }

variable {before middle after : σ} {a : α} {b : β}

theorem answers_pure : (pure a : Check σ α).Answers before a before := rfl

theorem answers_note {errors : List CompileError} (h : errors = []) :
    (note a errors : Check σ α).Answers before a before := by
  rw [h]
  rfl

theorem answers_reportAll {errors : List CompileError} (h : errors = []) :
    (reportAll errors : Check σ Unit).Answers before () before := answers_note h

theorem answers_bind {first : Check σ α} {next : α → Check σ β} (h : first.Answers before a middle)
    (hnext : (next a).Answers middle b after) : (first >>= next).Answers before b after := by
  unfold Answers at h hnext ⊢
  rw [run_bind, h, hnext]
  rfl

theorem answers_map {step : Check σ α} (f : α → β) (h : step.Answers before a after) :
    (f <$> step).Answers before (f a) after := by
  rw [map_eq_pure_bind]
  exact answers_bind h answers_pure

theorem answers_read_bind {view : σ → α} {next : α → Check σ β}
    (h : (next (view before)).Answers before b after) : (read view >>= next).Answers before b after :=
  answers_bind rfl h

end ClassCompiler.Check
