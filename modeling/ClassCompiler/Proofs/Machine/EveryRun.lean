import ClassCompiler.Proofs.Machine.Control

/-!
# What holds on every run

Conditions on the data before and after a piece of code, such that every instruction is in order
when it runs. A jump has to meet the condition of its label, and behind the definition of a label
that condition may be relied on; a loop thus asks for a condition at its top that its body restores.

A piece that takes labels of its own chooses their conditions. Labels are taken in order, so those
of one piece are not those of another, and the conditions that two pieces choose can be put
together.

* `Machine.Safe`: what is shown of the runs of some code
* `Flows`: conditions on some code
* `Emit.Meets`: conditions on a piece, whatever the next free label is
* `Emit.Meets.safe`: they hold on every run of the piece
-/

namespace ClassCompiler

variable {σ : Type}

/-- On every run from the start, each instruction is in order when it runs; the end of the code is
reached under the one condition, and a label outside of the code under the other one. -/
structure Machine.Safe (machine : Machine σ) (ok : Instr → σ → Prop) (code : List Instr) (start : σ)
    (post : σ → Prop) (exits : Label → σ → Prop) : Prop where
  ok : ∀ n i rest state, machine.Runs code n (.running code start) (.running (i :: rest) state) →
    ok i state
  post : ∀ n state, machine.Runs code n (.running code start) (.running [] state) → post state
  exits : ∀ n target state, machine.Runs code n (.running code start) (.left target state) →
    exits target state

/-! ## Code -/

/-- The condition that an effect has to meet. -/
def Effect.Meets (spec : Label → σ → Prop) (after : σ → Prop) : Effect σ → Prop
  | next state => after state
  | jump target state => spec target state
  | leave _ => True

/-- Where the condition holds, every instruction is in order, jumps meet the conditions of their
labels, and the end is reached under the last condition. -/
inductive Flows (machine : Machine σ) (ok : Instr → σ → Prop) (spec : Label → σ → Prop)
    (post : σ → Prop) : (σ → Prop) → List Instr → Prop
  | nil {pre : σ → Prop} (h : ∀ state, pre state → post state) :
    Flows machine ok spec post pre []
  | cons {pre m : σ → Prop} {i : Instr} {rest : List Instr}
    (hstep : ∀ state, pre state →
      ok i state ∧ ∀ effect, machine i state effect → effect.Meets spec m)
    (hlabel : ∀ target, i = .label target → ∀ state, spec target state → m state)
    (hrest : Flows machine ok spec post m rest) : Flows machine ok spec post pre (i :: rest)

namespace Flows

variable {machine : Machine σ} {ok : Instr → σ → Prop} {spec : Label → σ → Prop}
  {pre mid post : σ → Prop} {code one two : List Instr}

theorem of_pre {pre' : σ → Prop} (h : Flows machine ok spec post pre code)
    (hpre : ∀ state, pre' state → pre state) : Flows machine ok spec post pre' code := by
  cases h with
  | nil h => exact .nil fun state hstate => h state (hpre state hstate)
  | cons hstep hlabel hrest => exact .cons (fun state hs => hstep state (hpre state hs)) hlabel hrest

theorem append (h : Flows machine ok spec mid pre one) (h' : Flows machine ok spec post mid two) :
    Flows machine ok spec post pre (one ++ two) := by
  induction h with
  | nil hpost => exact h'.of_pre hpost
  | cons hstep hlabel _ ih => exact .cons hstep hlabel ih

/-- Behind a label, its condition is enough. -/
theorem afterLabel? {target : Label} {rest : List Instr}
    (h : Flows machine ok spec post pre code)
    (hafter : ClassCompiler.afterLabel? target code = some rest) :
    Flows machine ok spec post (spec target) rest := by
  induction h with
  | nil => cases hafter
  | cons _ hlabel hrest ih =>
    unfold ClassCompiler.afterLabel? at hafter
    split at hafter
    · next hi =>
      cases hafter
      exact hrest.of_pre (hlabel target hi)
    · exact ih hafter

end Flows

/-- What is known of a machine somewhere in a run. -/
def Config.Meets (machine : Machine σ) (ok : Instr → σ → Prop) (spec : Label → σ → Prop)
    (post : σ → Prop) : Config σ → Prop
  | running rest state => ∃ pre, pre state ∧ Flows machine ok spec post pre rest
  | left target state => spec target state
  | returned _ => True

namespace Flows

variable {machine : Machine σ} {ok : Instr → σ → Prop} {spec : Label → σ → Prop}
  {pre post : σ → Prop} {code : List Instr}

theorem step (h : Flows machine ok spec post pre code) {one two : Config σ}
    (hstep : machine.Step code one two) (hone : one.Meets machine ok spec post) :
    two.Meets machine ok spec post := by
  cases hstep with
  | @instr i rest state effect heffect =>
    obtain ⟨before, hstate, hflows⟩ := hone
    cases hflows with
    | cons hstep _ hrest =>
      have hmeets := (hstep state hstate).2 effect heffect
      cases effect with
      | next after => exact ⟨_, hmeets, hrest⟩
      | jump target after =>
        show (Config.land code target after).Meets machine ok spec post
        unfold Config.land
        split
        · next rest' hafter => exact ⟨_, hmeets, h.afterLabel? hafter⟩
        · exact hmeets
      | leave => trivial

/-- The conditions hold on every run. -/
theorem runs (h : Flows machine ok spec post pre code) {n : Nat} {one two : Config σ}
    (hruns : machine.Runs code n one two) (hone : one.Meets machine ok spec post) :
    two.Meets machine ok spec post := by
  induction hruns with
  | refl => exact hone
  | step hstep _ ih => exact ih (h.step hstep hone)

theorem safe (h : Flows machine ok spec post pre code) {start : σ} (hstart : pre start) :
    machine.Safe ok code start post spec := by
  have hmeets : (Config.running code start).Meets machine ok spec post := ⟨pre, hstart, h⟩
  refine ⟨fun n i rest state hruns => ?_, fun n state hruns => ?_, fun n target state hruns => ?_⟩
  · obtain ⟨before, hstate, hflows⟩ := h.runs hruns hmeets
    cases hflows with
    | cons hstep _ _ => exact (hstep state hstate).1
  · obtain ⟨before, hstate, hflows⟩ := h.runs hruns hmeets
    cases hflows with
    | nil hpost => exact hpost state hstate
  · exact h.runs hruns hmeets

end Flows

/-! ## Pieces -/

/-- Labels with the conditions that jumps to them have to meet. -/
abbrev Targets (σ : Type) : Type := List (Label × (σ → Prop))

/-- The effect meets the condition behind the instruction or that of a target. -/
def Effect.Allowed (targets : Targets σ) (after : σ → Prop) : Effect σ → Prop
  | next state => after state
  | jump target state => ∃ condition, (target, condition) ∈ targets ∧ condition state
  | leave _ => True

theorem Effect.Allowed.meets {targets : Targets σ} {after : σ → Prop} {effect : Effect σ}
    (h : effect.Allowed targets after) {next : Nat} {spec full : Label → σ → Prop}
    (hspec : ∀ t ∈ targets, t.1.id < next ∧ spec t.1 = t.2)
    (hfull : ∀ label, label.id < next → full label = spec label) : effect.Meets full after := by
  cases effect with
  | next state => exact h
  | jump target state =>
    obtain ⟨condition, hmem, hcondition⟩ := h
    obtain ⟨hlt, heq⟩ := hspec _ hmem
    show full target state
    rw [hfull target hlt, heq]
    exact hcondition
  | leave => trivial

namespace Emit

/-- A piece can be generated; from the first condition on, its instructions are in order, its jumps
go to its own labels or meet the conditions of the targets, and it ends under the last condition. -/
def Meets (machine : Machine σ) (ok : Instr → σ → Prop) (targets : Targets σ)
    (pre post : σ → Prop) (piece : Emit Unit) : Prop :=
  ∀ next (spec : Label → σ → Prop), (∀ t ∈ targets, t.1.id < next ∧ spec t.1 = t.2) →
    (piece.run next).result = .ok () ∧ next ≤ (piece.run next).next
      ∧ ∃ chosen : Label → σ → Prop, (∀ label, label.id < next → chosen label = spec label)
        ∧ ∀ full : Label → σ → Prop,
          (∀ label, label.id < (piece.run next).next → full label = chosen label) →
          Flows machine ok full post pre (piece.run next).code

variable {machine : Machine σ} {ok : Instr → σ → Prop} {targets : Targets σ}
  {pre m post : σ → Prop} {first piece : Emit Unit} {rest : Unit → Emit Unit}

theorem Meets.mono {pre' post' : σ → Prop} (h : piece.Meets machine ok targets pre post)
    (hpre : ∀ state, pre' state → pre state) (hpost : ∀ state, post state → post' state) :
    piece.Meets machine ok targets pre' post' := by
  intro next spec hspec
  obtain ⟨hok, hnext, chosen, hchosen, hflows⟩ := h next spec hspec
  refine ⟨hok, hnext, chosen, hchosen, fun full hfull => ?_⟩
  have hcode := (hflows full hfull).append (.nil hpost)
  rw [List.append_nil] at hcode
  exact hcode.of_pre hpre

theorem Meets.widen {more : Targets σ} (h : piece.Meets machine ok targets pre post)
    (hsub : targets ⊆ more) : piece.Meets machine ok more pre post :=
  fun next spec hspec => h next spec fun t ht => hspec t (hsub ht)

theorem meets_pure (h : ∀ state, pre state → post state) :
    (pure () : Emit Unit).Meets machine ok targets pre post :=
  fun next spec _ => ⟨rfl, Nat.le_refl next, spec, fun _ _ => rfl, fun _ _ => .nil h⟩

theorem meets_bind (h : first.Meets machine ok targets pre m)
    (hrest : (rest ()).Meets machine ok targets m post) :
    (first >>= rest).Meets machine ok targets pre post := by
  intro next spec hspec
  obtain ⟨hok, hnext, one, hone, hflows⟩ := h next spec hspec
  have hspec' : ∀ t ∈ targets, t.1.id < (first.run next).next ∧ one t.1 = t.2 := by
    intro t ht
    obtain ⟨hlt, heq⟩ := hspec t ht
    exact ⟨Nat.lt_of_lt_of_le hlt hnext, (hone t.1 hlt).trans heq⟩
  obtain ⟨hok', hnext', two, htwo, hflows'⟩ := hrest (first.run next).next one hspec'
  rw [run_bind_ok hok]
  refine ⟨hok', Nat.le_trans hnext hnext', two, fun label hlabel => ?_, fun full hfull => ?_⟩
  · exact (htwo label (Nat.lt_of_lt_of_le hlabel hnext)).trans (hone label hlabel)
  · refine (hflows full fun label hlabel => ?_).append (hflows' full hfull)
    exact (hfull label (Nat.lt_of_lt_of_le hlabel hnext')).trans (htwo label hlabel)

/-- The condition of a new label is free to choose. -/
theorem meets_newLabel {rest : Label → Emit Unit} (condition : σ → Prop)
    (h : ∀ label, (rest label).Meets machine ok ((label, condition) :: targets) pre post) :
    (newLabel >>= rest).Meets machine ok targets pre post := by
  intro next spec hspec
  let given : Label → σ → Prop := fun label => if label.id = next then condition else spec label
  have hgiven : ∀ t ∈ (⟨next⟩, condition) :: targets, t.1.id < next + 1 ∧ given t.1 = t.2 := by
    intro t ht
    rcases List.mem_cons.mp ht with rfl | ht
    · exact ⟨Nat.lt_succ_self next, if_pos rfl⟩
    · obtain ⟨hlt, heq⟩ := hspec t ht
      exact ⟨by omega, (if_neg (by omega)).trans heq⟩
  obtain ⟨hok, hnext, chosen, hchosen, hflows⟩ := h ⟨next⟩ (next + 1) given hgiven
  have hrun : (newLabel >>= rest).run next = (rest ⟨next⟩).run (next + 1) := by
    rw [run_bind_ok rfl]
    rfl
  rw [hrun]
  refine ⟨hok, by omega, chosen, fun label hlabel => ?_, hflows⟩
  exact (hchosen label (by omega)).trans (if_neg (by omega))

theorem meets_instr {i : Instr} (hlabel : ∀ target, i ≠ .label target)
    (h : ∀ state, pre state →
      ok i state ∧ ∀ effect, machine i state effect → effect.Allowed targets post) :
    (instr i).Meets machine ok targets pre post := by
  intro next spec hspec
  refine ⟨rfl, Nat.le_refl next, spec, fun _ _ => rfl, fun full hfull => ?_⟩
  refine .cons (m := post) (fun state hstate => ?_) (fun target hi => absurd hi (hlabel target))
    (.nil fun _ h => h)
  obtain ⟨hok, hallowed⟩ := h state hstate
  exact ⟨hok, fun effect heffect => (hallowed effect heffect).meets hspec hfull⟩

/-- Behind a label stands what holds before it or at a jump. -/
theorem meets_place {label : Label} {condition : σ → Prop}
    (hmem : (label, condition) ∈ targets)
    (h : ∀ state, pre state →
      ok (.label label) state ∧ ∀ effect, machine (.label label) state effect →
        effect.Allowed targets post)
    (hjump : ∀ state, condition state → post state) :
    (place label).Meets machine ok targets pre post := by
  intro next spec hspec
  refine ⟨rfl, Nat.le_refl next, spec, fun _ _ => rfl, fun full hfull => ?_⟩
  refine .cons (m := post) (fun state hstate => ?_) (fun target hi state hstate => ?_)
    (.nil fun _ h => h)
  · obtain ⟨hok, hallowed⟩ := h state hstate
    exact ⟨hok, fun effect heffect => (hallowed effect heffect).meets hspec hfull⟩
  · cases hi
    obtain ⟨hlt, heq⟩ := hspec _ hmem
    rw [hfull label hlt, heq] at hstate
    exact hjump state hstate

/-- The conditions on a piece hold on every run of its code. It is left for its targets only. -/
theorem Meets.safe (h : piece.Meets machine ok targets pre post) (hpiece : piece.Succeeds)
    {next : Nat} (spec : Label → σ → Prop)
    (hspec : ∀ t ∈ targets, t.1.id < next ∧ spec t.1 = t.2) {start : σ} (hstart : pre start) :
    machine.Safe ok (piece.run next).code start post fun target state =>
      ∃ condition, (target, condition) ∈ targets ∧ condition state := by
  classical
  -- No condition can be met at a label that nobody gave or took.
  let given : Label → σ → Prop := fun label =>
    if label ∈ targets.map Prod.fst then spec label else fun _ => False
  have hgiven : ∀ t ∈ targets, t.1.id < next ∧ given t.1 = t.2 := fun t ht =>
    ⟨(hspec t ht).1, (if_pos (List.mem_map_of_mem ht)).trans (hspec t ht).2⟩
  obtain ⟨-, -, chosen, hchosen, hflows⟩ := h next given hgiven
  let full : Label → σ → Prop := fun label =>
    if label.id < (piece.run next).next then chosen label else fun _ => False
  have hsafe := (hflows full fun label hlabel => if_pos hlabel).safe hstart
  refine ⟨hsafe.ok, hsafe.post, fun n target state hruns => ?_⟩
  have hfull : full target state := hsafe.exits n target state hruns
  have hundefined : target ∉ labels (piece.run next).code :=
    hruns.not_mem_labels.elim (fun heq => by cases heq) id
  have hbelow : target.id < (piece.run next).next := by
    by_contra hnot
    simp only [full, if_neg hnot] at hfull
  have houtside : target.id < next := by
    by_contra hnot
    exact hundefined ((hpiece.mem_labels next).mpr ⟨by omega, hbelow⟩)
  have hcondition : given target state := by
    simp only [full, if_pos hbelow] at hfull
    rwa [hchosen target houtside] at hfull
  by_cases hmem : target ∈ targets.map Prod.fst
  · obtain ⟨t, ht, rfl⟩ := List.mem_map.mp hmem
    refine ⟨t.2, ht, ?_⟩
    rwa [(hgiven t ht).2] at hcondition
  · simp only [given, if_neg hmem] at hcondition

end Emit

end ClassCompiler
