import ClassCompiler.Proofs.Machine.Control

/-!
# Where a piece of code leads

A piece that stands in the code of a method, wherever that is, takes a machine from its start to its
end, or to a label outside of it, or out of the method, as a single instruction does. If it goes on for
ever, it is still running after any number of steps.

What one piece does and what the next one does are put together; inside of the piece, a label is the
place behind its only definition.

* `Progress`: an effect, or a state after some steps
* `Emit.Leads`: what the piece comes to, wherever it stands
* `Emit.LeadsBehind`, `Emit.LeadsInside`: the same behind a label, and from a label inside
* `Machine.Deterministic`: machines with one run from each state
-/

namespace ClassCompiler

variable {σ : Type}

def Config.state : Config σ → σ
  | running _ state | left _ state | returned state => state

/-- No instruction runs next. -/
def Config.isStopped : Config σ → Bool
  | running (_ :: _) _ => false
  | running [] _ | left _ _ | returned _ => true

theorem Config.land_of_suffix {code behind : List Instr} {label : Label}
    (hnodup : (labels code).Nodup) (h : .label label :: behind <:+ code) (state : σ) :
    Config.land code label state = .running behind state := by
  unfold land
  rw [afterLabel?_of_suffix hnodup h]

/-- What a piece of code comes to. -/
inductive Progress (σ : Type)
  | done (effect : Effect σ)
  /-- After at least that many steps, the piece has that state and is not known to end. -/
  | running (steps : Nat) (state : σ)

namespace Progress

/-- The piece goes on with the code behind it. -/
def isNext : Progress σ → Bool
  | done (.next _) => true
  | _ => false

/-- One step more, or several. -/
def more : Progress σ → Progress σ
  | done effect => done effect
  | running steps state => running (steps + 1) state

/-- The code before `rest` has come to this in so many steps. To go anywhere else than behind it takes
a step. -/
def Met (code rest : List Instr) (steps : Nat) (config : Config σ) : Progress σ → Prop
  | done effect => config = effect.config code rest ∧ ((done effect).isNext = false → 0 < steps)
  | running least state => least ≤ steps ∧ config.state = state

variable {p : Progress σ} {code rest rest' : List Instr} {m n : Nat} {config : Config σ}

theorem Met.of_rest (h : p.isNext = false) (hmet : p.Met code rest n config) :
    p.Met code rest' n config := by
  cases p with
  | done effect =>
    cases effect with
    | next => cases h
    | jump | leave => exact hmet
  | running => exact hmet

theorem Met.later (hle : m ≤ n) (hmet : p.Met code rest m config) : p.Met code rest n config := by
  cases p with
  | done effect => exact ⟨hmet.1, fun h => Nat.lt_of_lt_of_le (hmet.2 h) hle⟩
  | running => exact ⟨Nat.le_trans hmet.1 hle, hmet.2⟩

theorem Met.more (hlt : m < n) (hmet : p.Met code rest m config) :
    p.more.Met code rest n config := by
  cases p with
  | done effect => exact ⟨hmet.1, fun h => Nat.lt_trans (hmet.2 h) hlt⟩
  | running => exact ⟨Nat.succ_le_of_lt (Nat.lt_of_le_of_lt hmet.1 hlt), hmet.2⟩

end Progress

namespace Emit

/-- The piece can be generated. -/
def Completes (piece : Emit Unit) : Prop := ∀ next, (piece.run next).result = .ok ()

theorem Defines.completes {outer : List Label} {piece : Emit Unit} (h : piece.Defines outer) :
    piece.Completes := fun next => (h next).1.choose_spec

theorem completes_pure : (pure () : Emit Unit).Completes := fun _ => rfl

theorem completes_instr (i : Instr) : (instr i).Completes := fun _ => rfl

theorem completes_bind {first : Emit Unit} {rest : Unit → Emit Unit} (h : first.Completes)
    (hrest : (rest ()).Completes) : (first >>= rest).Completes := fun next => by
  rw [run_bind_ok (h next)]
  exact hrest _

variable (machine : Machine σ)

/-- Wherever the code of the piece stands in code without two definitions of a label, the machine goes
from its start to what the piece comes to. -/
def Leads (piece : Emit Unit) (state : σ) (p : Progress σ) : Prop :=
  ∀ next code rest, (labels code).Nodup → (piece.run next).code ++ rest <:+ code →
    ∃ n config, machine.Runs code n (.running ((piece.run next).code ++ rest) state) config
      ∧ p.Met code rest n config

/-- The same for the code behind a label. -/
def LeadsBehind (label : Label) (piece : Emit Unit) (state : σ) (p : Progress σ) : Prop :=
  ∀ next code rest, (labels code).Nodup → .label label :: (piece.run next).code ++ rest <:+ code →
    ∃ n config, machine.Runs code n (.running ((piece.run next).code ++ rest) state) config
      ∧ p.Met code rest n config

/-- The same from the definition of a label inside of the piece. -/
def LeadsInside (label : Label) (piece : Emit Unit) (state : σ) (p : Progress σ) : Prop :=
  ∀ next code rest, (labels code).Nodup → (piece.run next).code ++ rest <:+ code →
    ∃ behind, .label label :: behind <:+ code ∧ ∃ n config,
      machine.Runs code n (.running behind state) config ∧ p.Met code rest n config

variable {machine} {state after : σ} {p : Progress σ} {effect : Effect σ} {label : Label}
  {first piece : Emit Unit} {rest : Unit → Emit Unit}

theorem Leads.behind (h : piece.Leads machine state p) (label : Label) :
    piece.LeadsBehind machine label state p :=
  fun next code rest hnodup hsuffix =>
    h next code rest hnodup ((List.suffix_cons _ _).trans hsuffix)

theorem leads_pure (state : σ) : (pure () : Emit Unit).Leads machine state (.done (.next state)) :=
  fun _ _ _ _ _ => ⟨0, _, .refl _, rfl, fun h => by cases h⟩

theorem leads_instr {i : Instr} (h : machine i state effect) :
    (instr i).Leads machine state (.done effect) :=
  fun _ _ _ _ _ => ⟨1, _, .single (.instr h), rfl, fun _ => Nat.one_pos⟩

theorem leads_newLabel {rest : Label → Emit Unit}
    (h : ∀ label, (rest label).Leads machine state p) :
    (newLabel >>= rest).Leads machine state p := by
  intro next code
  rw [run_bind_ok (show (newLabel.run next).result = .ok ⟨next⟩ from rfl)]
  exact h ⟨next⟩ (next + 1) code

/-- A piece that goes on with the one behind it. -/
theorem leads_then (h : first.Leads machine state (.done (.next after))) (hfirst : first.Completes)
    (hrest : (rest ()).Leads machine after p) : (first >>= rest).Leads machine state p := by
  intro next code tail hnodup hsuffix
  rw [run_bind_ok (hfirst next)] at hsuffix ⊢
  rw [List.append_assoc] at hsuffix ⊢
  obtain ⟨m, one, hruns, rfl, -⟩ := h next code _ hnodup hsuffix
  have htail := (List.suffix_append (first.run next).code _).trans hsuffix
  obtain ⟨n, config, hruns', hmet⟩ := hrest _ code tail hnodup htail
  exact ⟨m + n, config, hruns.trans hruns', hmet.later (Nat.le_add_left n m)⟩

theorem exists_code_bind (first : Emit Unit) (rest : Unit → Emit Unit) (next : Nat) :
    ∃ more, ((first >>= rest).run next).code = (first.run next).code ++ more := by
  cases h : (first.run next).result with
  | ok value => exact ⟨_, congrArg Emission.code (run_bind_ok h)⟩
  | error error =>
    refine ⟨[], ?_⟩
    rw [run_bind_error h, List.append_nil]

/-- A piece that does not go on with the one behind it. -/
theorem leads_stop (h : first.Leads machine state p) (hp : p.isNext = false) :
    (first >>= rest).Leads machine state p := by
  intro next code tail hnodup hsuffix
  obtain ⟨more, hcode⟩ := exists_code_bind first rest next
  rw [hcode, List.append_assoc] at hsuffix ⊢
  obtain ⟨n, config, hruns, hmet⟩ := h next code _ hnodup hsuffix
  exact ⟨n, config, hruns, hmet.of_rest hp⟩

theorem leads_place (h : machine (.label label) state (.next state)) :
    (place label).Leads machine state (.done (.next state)) := leads_instr h

theorem leads_running (state : σ) : piece.Leads machine state (.running 0 state) :=
  fun _ _ _ _ _ => ⟨0, _, .refl _, Nat.le_refl 0, rfl⟩

theorem Leads.running_le {m n : Nat} (h : piece.Leads machine state (.running n after))
    (hle : m ≤ n) : piece.Leads machine state (.running m after) := by
  intro next code rest hnodup hsuffix
  obtain ⟨steps, config, hruns, hsteps, hstate⟩ := h next code rest hnodup hsuffix
  exact ⟨steps, config, hruns, Nat.le_trans hle hsteps, hstate⟩

/-! ## Jumps inside of a piece -/

theorem code_place_bind (label : Label) (piece : Emit Unit) (next : Nat) :
    ((place label >>= fun _ => piece).run next).code = .label label :: (piece.run next).code := by
  rw [run_bind_ok (show ((place label).run next).result = .ok () from rfl)]
  rfl

theorem leadsInside_place_bind (h : piece.Leads machine state p) (label : Label) :
    (place label >>= fun _ => piece).LeadsInside machine label state p := by
  intro next code tail hnodup hsuffix
  rw [code_place_bind] at hsuffix
  have hpiece := (List.suffix_cons (Instr.label label) _).trans hsuffix
  obtain ⟨n, config, hruns, hmet⟩ := h next code tail hnodup hpiece
  exact ⟨_, hsuffix, n, config, hruns, hmet⟩

theorem leadsInside_place (label : Label) (state : σ) :
    (place label).LeadsInside machine label state (.done (.next state)) :=
  fun _ _ tail _ hsuffix => ⟨tail, hsuffix, 0, _, .refl _, rfl, fun h => by cases h⟩

theorem leadsInside_bind (hfirst : first.Completes)
    (h : (rest ()).LeadsInside machine label state p) :
    (first >>= rest).LeadsInside machine label state p := by
  intro next code tail hnodup hsuffix
  rw [run_bind_ok (hfirst next), List.append_assoc] at hsuffix
  exact h _ code tail hnodup ((List.suffix_append (first.run next).code _).trans hsuffix)

theorem leadsInside_newLabel {rest : Label → Emit Unit}
    (h : ∀ new, (rest new).LeadsInside machine label state p) :
    (newLabel >>= rest).LeadsInside machine label state p := by
  intro next code
  rw [run_bind_ok (show (newLabel.run next).result = .ok ⟨next⟩ from rfl)]
  exact h ⟨next⟩ (next + 1) code

/-- A piece that jumps to a label in the one behind it. -/
theorem leads_into (h : first.Leads machine state (.done (.jump label after)))
    (hfirst : first.Completes) (hrest : (rest ()).LeadsInside machine label after p) :
    (first >>= rest).Leads machine state p := by
  intro next code tail hnodup hsuffix
  rw [run_bind_ok (hfirst next)] at hsuffix ⊢
  rw [List.append_assoc] at hsuffix ⊢
  obtain ⟨m, one, hruns, rfl, -⟩ := h next code _ hnodup hsuffix
  have htail := (List.suffix_append (first.run next).code _).trans hsuffix
  obtain ⟨behind, hlabel, n, config, hruns', hmet⟩ := hrest _ code tail hnodup htail
  have hland : (Effect.jump label after).config code (((rest ()).run (first.run next).next).code ++ tail)
      = .running behind after := Config.land_of_suffix hnodup hlabel after
  rw [hland] at hruns
  exact ⟨m + n, config, hruns.trans hruns', hmet.later (Nat.le_add_left n m)⟩

/-! ## Loops -/

/-- A piece that jumps to the label before it starts again. -/
theorem leadsBehind_again (h : piece.LeadsBehind machine label state (.done (.jump label after)))
    (hagain : piece.LeadsBehind machine label after p) :
    piece.LeadsBehind machine label state p.more := by
  intro next code tail hnodup hsuffix
  obtain ⟨m, one, hruns, rfl, hpos⟩ := h next code tail hnodup hsuffix
  obtain ⟨n, config, hruns', hmet⟩ := hagain next code tail hnodup hsuffix
  have hland : (Effect.jump label after).config code tail
      = .running ((piece.run next).code ++ tail) after := Config.land_of_suffix hnodup hsuffix after
  rw [hland] at hruns
  have hlt : n < m + n := Nat.lt_add_of_pos_left (hpos rfl)
  exact ⟨m + n, config, hruns.trans hruns', hmet.more hlt⟩

/-- Behind its label, the loop can start. -/
theorem leads_loop (hlabel : machine (.label label) state (.next state))
    (h : piece.LeadsBehind machine label state p) :
    (place label >>= fun _ => piece).Leads machine state p := by
  intro next code tail hnodup hsuffix
  rw [code_place_bind] at hsuffix ⊢
  obtain ⟨n, config, hruns, hmet⟩ := h next code tail hnodup hsuffix
  exact ⟨n + 1, config, .step (.instr hlabel) hruns, hmet.later (Nat.le_succ n)⟩

end Emit

/-! ## One run -/

/-- Every instruction has one effect at most in each state. -/
def Machine.Deterministic (machine : Machine σ) : Prop :=
  ∀ i state one two, machine i state one → machine i state two → one = two

namespace Machine

variable {machine : Machine σ} {code : List Instr}

theorem Deterministic.step (h : machine.Deterministic) {config one two : Config σ}
    (h₁ : machine.Step code config one) (h₂ : machine.Step code config two) : one = two := by
  cases h₁ with
  | instr hone =>
    cases h₂ with
    | instr htwo => rw [h _ _ _ _ hone htwo]

/-- Of two runs from one place, the longer one goes on from the end of the other. -/
theorem Deterministic.extends (h : machine.Deterministic) {m n : Nat} (hle : m ≤ n)
    {config one two : Config σ} (h₁ : machine.Runs code m config one)
    (h₂ : machine.Runs code n config two) : machine.Runs code (n - m) one two := by
  induction h₁ generalizing n with
  | refl => exact h₂
  | @step m one two _ hstep _ ih =>
    cases h₂ with
    | refl => omega
    | @step n _ two' _ hstep' hrest' =>
      rw [h.step hstep' hstep] at hrest'
      rw [Nat.add_sub_add_right]
      exact ih (by omega) hrest'

theorem Step.not_stopped {config next : Config σ} (h : machine.Step code config next) :
    config.isStopped = false := by
  cases h
  rfl

theorem Runs.eq_of_stopped {n : Nat} {one two : Config σ} (h : machine.Runs code n one two)
    (hone : one.isStopped = true) : n = 0 ∧ two = one := by
  cases h with
  | refl => exact ⟨rfl, rfl⟩
  | step hstep =>
    rw [hstep.not_stopped] at hone
    cases hone

/-- The beginning of a run. -/
theorem Runs.take {m n : Nat} {one three : Config σ} (h : machine.Runs code n one three)
    (hle : m ≤ n) : ∃ two, machine.Runs code m one two := by
  induction h generalizing m with
  | refl config =>
    rw [Nat.le_zero.mp hle]
    exact ⟨config, .refl config⟩
  | @step n one _ _ hstep _ ih =>
    cases m with
    | zero => exact ⟨one, .refl one⟩
    | succ m =>
      obtain ⟨two, hruns⟩ := ih (Nat.le_of_succ_le_succ hle)
      exact ⟨two, .step hstep hruns⟩

/-- No run is longer than one that stops. -/
theorem Deterministic.le_of_stopped (h : machine.Deterministic) {m n : Nat}
    {start one two : Config σ} (h₁ : machine.Runs code m start one)
    (hone : one.isStopped = true) (h₂ : machine.Runs code n start two) : n ≤ m := by
  by_contra hlt
  have hmore := h.extends (Nat.le_of_not_le hlt) h₁ h₂
  have := (hmore.eq_of_stopped hone).1
  omega

/-- A machine stops in one place only. -/
theorem Deterministic.eq_of_stopped (h : machine.Deterministic) {m n : Nat}
    {start one two : Config σ} (h₁ : machine.Runs code m start one)
    (hone : one.isStopped = true) (h₂ : machine.Runs code n start two)
    (htwo : two.isStopped = true) : one = two := by
  have hmore := h.extends (h.le_of_stopped h₂ htwo h₁) h₁ h₂
  exact (hmore.eq_of_stopped hone).2.symm

end Machine

end ClassCompiler
