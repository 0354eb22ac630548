import ClassCompiler.Proofs.Machine.Labels

/-!
# Control flow

Code runs from its first instruction. A jump continues behind the definition of its label; where the
code does not define the label, the machine leaves the code there. So the code of a method and a
piece of it run in the same way, and what a machine does with the data is left open.

* `Machine`: what every instruction may do
* `Machine.Step`, `Machine.Runs`: the runs of some code
* `Machine.ofData`: the machine that may go both ways at a conditional jump
* `pathMachine`: the machine without data, whose runs are the paths through some code
-/

namespace ClassCompiler

/-! ## Machines -/

/-- The outcome of an instruction, with the data afterwards. -/
inductive Effect (σ : Type)
  | next (state : σ)
  | jump (target : Label) (state : σ)
  | leave (state : σ)

/-- What every instruction may do in every state. -/
def Machine (σ : Type) : Type := Instr → σ → Effect σ → Prop

/-- Where a machine is in a run. -/
inductive Config (σ : Type)
  /-- Before the rest of the code. -/
  | running (rest : List Instr) (state : σ)
  /-- At a label that the code does not define. -/
  | left (target : Label) (state : σ)
  /-- Behind a return. -/
  | returned (state : σ)

/-! ## Runs -/

/-- The place where a jump leads. -/
def Config.land {σ : Type} (code : List Instr) (target : Label) (state : σ) : Config σ :=
  match afterLabel? target code with
  | some rest => .running rest state
  | none => .left target state

/-- The place where an instruction leads that stands before the rest of the code. -/
def Effect.config {σ : Type} (code rest : List Instr) : Effect σ → Config σ
  | next state => .running rest state
  | jump target state => .land code target state
  | leave state => .returned state

namespace Machine

variable {σ : Type} (machine : Machine σ) (code : List Instr)

inductive Step : Config σ → Config σ → Prop
  | instr {i : Instr} {rest : List Instr} {state : σ} {effect : Effect σ}
    (h : machine i state effect) : Step (.running (i :: rest) state) (effect.config code rest)

/-- Runs of a number of steps. -/
inductive Runs : Nat → Config σ → Config σ → Prop
  | refl (config : Config σ) : Runs 0 config config
  | step {n : Nat} {one two three : Config σ} (h : machine.Step code one two)
    (hrest : Runs n two three) : Runs (n + 1) one three

variable {machine code}

theorem Runs.trans {m n : Nat} {one two three : Config σ} (h : machine.Runs code m one two)
    (h' : machine.Runs code n two three) : machine.Runs code (m + n) one three := by
  induction h with
  | refl => rwa [Nat.zero_add]
  | step hstep _ ih =>
    rw [Nat.add_right_comm]
    exact .step hstep (ih h')

theorem Runs.single {one two : Config σ} (h : machine.Step code one two) :
    machine.Runs code 1 one two := .step h (.refl two)

theorem Step.not_mem_labels {config : Config σ} {target : Label} {state : σ}
    (h : machine.Step code config (.left target state)) : target ∉ labels code := by
  generalize hleft : Config.left target state = last at h
  cases h with
  | @instr i rest before effect heffect =>
    cases effect with
    | next | leave => cases hleft
    | jump target' after =>
      change _ = Config.land code target' after at hleft
      unfold Config.land at hleft
      split at hleft
      · cases hleft
      · next hnone =>
        cases hleft
        exact afterLabel?_eq_none.mp hnone

/-- The code is left for labels that it does not define. -/
theorem Runs.not_mem_labels {n : Nat} {one : Config σ} {target : Label} {state : σ}
    (h : machine.Runs code n one (.left target state)) :
    one = .left target state ∨ target ∉ labels code := by
  generalize hleft : Config.left target state = last at h
  induction h with
  | refl => exact .inl rfl
  | step hstep _ ih =>
    subst hleft
    rcases ih rfl with hmid | hmem
    · exact .inr (hmid ▸ hstep).not_mem_labels
    · exact .inr hmem

end Machine

/-! ## Machines without values -/

/-- Does the instruction behind this one run next? -/
def Instr.fallsThrough (i : Instr) : Bool :=
  match i.opCode? with
  | some code => !(code == .goto || code.isReturn || code == .athrow)
  | none => true

/-- The effects of an instruction on the control, with the data that it leaves. A conditional jump
has two. -/
def Instr.Permits {σ : Type} (i : Instr) (after : σ) : Effect σ → Prop
  | .next state => i.fallsThrough = true ∧ state = after
  | .jump target state => (∃ code, i = .branch code target) ∧ state = after
  | .leave state => i.opCode?.any OpCode.isReturn = true ∧ state = after

/-- The machine that is given by what instructions do to the data alone. It may go both ways at a
conditional jump, and it stops where an instruction does not apply. -/
def Machine.ofData {σ : Type} (act : Instr → σ → Option σ) : Machine σ := fun i state effect =>
  ∃ after, act i state = some after ∧ i.Permits after effect

/-! ## Paths -/

/-- The machine without data. Its runs are the paths through some code: both ways at a conditional
jump, and on to the label at any other. -/
def pathMachine : Machine Unit := Machine.ofData fun _ _ => some ()

def Config.forget {σ : Type} : Config σ → Config Unit
  | running rest _ => running rest ()
  | left target _ => left target ()
  | returned _ => returned ()

section

variable {σ : Type} {code : List Instr} (act : Instr → σ → σ)

theorem Config.forget_land (target : Label) (state : σ) :
    (Config.land code target state).forget = Config.land code target () := by
  unfold land
  cases afterLabel? target code <;> rfl

theorem Machine.Step.lift {one two : Config Unit} (h : pathMachine.Step code one two)
    {config : Config σ} (hconfig : config.forget = one) :
    ∃ last, last.forget = two
      ∧ (Machine.ofData fun i state => some (act i state)).Step code config last := by
  cases h with
  | @instr i rest state effect heffect =>
    obtain ⟨_, -, hpermits⟩ := heffect
    cases config with
    | running rest' state' =>
      cases hconfig
      cases effect with
      | next =>
        have hnext : Machine.ofData (fun i state => some (act i state)) i state'
            (.next (act i state')) := ⟨_, rfl, hpermits.1, rfl⟩
        exact ⟨.running rest (act i state'), rfl, .instr hnext⟩
      | jump target =>
        have hjump : Machine.ofData (fun i state => some (act i state)) i state'
            (.jump target (act i state')) := ⟨_, rfl, hpermits.1, rfl⟩
        exact ⟨.land code target (act i state'), Config.forget_land target _, .instr hjump⟩
      | leave =>
        have hleave : Machine.ofData (fun i state => some (act i state)) i state'
            (.leave (act i state')) := ⟨_, rfl, hpermits.1, rfl⟩
        exact ⟨.returned (act i state'), rfl, .instr hleave⟩
    | left | returned => cases hconfig

/-- A machine that every instruction suits runs along every path. -/
theorem Machine.Runs.lift {n : Nat} {one two : Config Unit} (h : pathMachine.Runs code n one two)
    {config : Config σ} (hconfig : config.forget = one) :
    ∃ last, last.forget = two
      ∧ (Machine.ofData fun i state => some (act i state)).Runs code n config last := by
  induction h generalizing config with
  | refl => exact ⟨config, hconfig, .refl config⟩
  | step hstep _ ih =>
    obtain ⟨middle, hmiddle, hfirst⟩ := hstep.lift act hconfig
    obtain ⟨last, hlast, hrest⟩ := ih hmiddle
    exact ⟨last, hlast, .step hfirst hrest⟩

end

end ClassCompiler
