import ClassCompiler.Proofs.Check
import ClassCompiler.Unit.Stubs

/-!
# Two runs

What one step does from two states that are related. Errors may differ as far as they do not count;
the values may not. And what two steps do from one state, where they come to the same.

* `Check.Agrees`: from related states to related states, with the same answer
* `Check.agrees_bind`: the agreement of two steps in turn
* `Check.Same`, `Check.same_bind`: two steps in one state
-/

namespace ClassCompiler

namespace Check

variable {σ α β : Type}

/-- From states that `P` relates, two runs of the step answer with the same value, report the same
errors among those that count, and end in states that `Q` relates. -/
def Agrees (counts : CompileError → Bool) (step : Check σ α) (P : σ → σ → Prop)
    (Q : α → σ → σ → Prop) : Prop :=
  ∀ s t, P s t → (step.run t).value = (step.run s).value
    ∧ (step.run t).errors.filter counts = (step.run s).errors.filter counts
    ∧ Q (step.run s).value (step.run s).state (step.run t).state

variable {counts : CompileError → Bool} {P : σ → σ → Prop} {Q : α → σ → σ → Prop}

theorem Agrees.mono {step : Check σ α} {Q' : α → σ → σ → Prop} (h : step.Agrees counts P Q)
    (himp : ∀ a s t, Q a s t → Q' a s t) : step.Agrees counts P Q' := fun s t hst =>
  ⟨(h s t hst).1, (h s t hst).2.1, himp _ _ _ (h s t hst).2.2⟩

theorem Agrees.of_imp {step : Check σ α} {P' : σ → σ → Prop} (h : step.Agrees counts P Q)
    (himp : ∀ s t, P' s t → P s t) : step.Agrees counts P' Q := fun s t hst => h s t (himp s t hst)

theorem agrees_pure {a : α} (h : ∀ s t, P s t → Q a s t) :
    (pure a : Check σ α).Agrees counts P Q := fun s t hst => ⟨rfl, rfl, h s t hst⟩

theorem agrees_bind {first : Check σ α} {next : α → Check σ β} {R : β → σ → σ → Prop}
    (h : first.Agrees counts P Q) (hnext : ∀ a, (next a).Agrees counts (Q a) R) :
    (first >>= next).Agrees counts P R := by
  intro s t hst
  obtain ⟨hvalue, herrors, hstate⟩ := h s t hst
  obtain ⟨hvalue', herrors', hstate'⟩ := hnext _ _ _ hstate
  rw [run_bind, run_bind, hvalue]
  refine ⟨hvalue', ?_, hstate'⟩
  rw [List.filter_append, List.filter_append, herrors, herrors']

/-- Two steps, of which the second needs a property of the value only. -/
theorem agrees_bind_gives {first : Check σ α} {next : α → Check σ β} {R : β → σ → σ → Prop}
    {V : α → Prop} (h : first.Agrees counts P Q) (hvalue : first.Gives V)
    (hnext : ∀ a, V a → (next a).Agrees counts (Q a) R) :
    (first >>= next).Agrees counts P R := by
  refine agrees_bind (Q := fun a s t => Q a s t ∧ V a) (fun s t hst => ?_) fun a s t hst =>
    hnext a hst.2 s t hst.1
  exact ⟨(h s t hst).1, (h s t hst).2.1, (h s t hst).2.2, hvalue s⟩

theorem agrees_reportAll (errors : List CompileError) :
    (reportAll errors : Check σ Unit).Agrees counts P fun _ => P := fun _ _ hst => ⟨rfl, rfl, hst⟩

theorem agrees_read {view : σ → α} (h : ∀ s t, P s t → view t = view s) :
    (read view : Check σ α).Agrees counts P fun _ => P := fun s t hst => ⟨h s t hst, rfl, hst⟩

/-- Errors that are found in the state, of which only those that count must be the same. -/
theorem agrees_reportFound {view : σ → List CompileError} {next : Check σ α}
    (h : ∀ s t, P s t → (view t).filter counts = (view s).filter counts)
    (hnext : next.Agrees counts P Q) :
    (do let errors ← read view; reportAll errors; next).Agrees counts P Q := by
  intro s t hst
  obtain ⟨hvalue, herrors, hstate⟩ := hnext s t hst
  simp only [run_bind, run_read, run_reportAll, List.nil_append]
  refine ⟨hvalue, ?_, hstate⟩
  rw [List.filter_append, List.filter_append, h s t hst, herrors]

theorem agrees_modify {change : σ → σ} {Q : Unit → σ → σ → Prop}
    (h : ∀ s t, P s t → Q () (change s) (change t)) :
    (modify change : Check σ Unit).Agrees counts P Q := fun s t hst => ⟨rfl, rfl, h s t hst⟩

theorem agrees_map {step : Check σ α} {f : α → β} {R : β → σ → σ → Prop}
    (h : step.Agrees counts P fun a => R (f a)) : (f <$> step).Agrees counts P R := by
  rw [map_eq_pure_bind]
  exact agrees_bind h fun a => agrees_pure fun _ _ hst => hst

theorem agrees_optional {step : α → Check σ β} {part : Option α}
    (h : ∀ a, part = some a → (step a).Agrees counts P fun _ => P) :
    (optional step part).Agrees counts P fun _ => P := by
  cases part with
  | none => exact agrees_pure fun _ _ hst => hst
  | some a => exact agrees_map (h a rfl)

theorem agrees_forM {step : α → Check σ Unit} {items : List α}
    (h : ∀ a ∈ items, (step a).Agrees counts P fun _ => P) :
    (items.forM step).Agrees counts P fun _ => P := by
  induction items with
  | nil => exact agrees_pure fun _ _ hst => hst
  | cons first rest ih =>
    exact agrees_bind (h first List.mem_cons_self) fun _ =>
      ih fun a ha => h a (List.mem_cons_of_mem _ ha)

/-! ## Two steps in one state -/

section

variable {kept : σ → Prop} {V : α → Prop} {W : β → Prop}

/-- From every state of a kind, the second step comes to what the first one comes to: a state of the
kind again, and a value that satisfies `V`. -/
def Same (one two : Check σ α) (kept : σ → Prop) (V : α → Prop) : Prop :=
  ∀ s, kept s → two.run s = one.run s ∧ kept (one.run s).state ∧ V (one.run s).value

theorem Same.mono {one two : Check σ α} {V' : α → Prop} (h : one.Same two kept V)
    (himp : ∀ a, V a → V' a) : one.Same two kept V' := fun s hs =>
  ⟨(h s hs).1, (h s hs).2.1, himp _ (h s hs).2.2⟩

theorem same_pure {a : α} (h : V a) : (pure a : Check σ α).Same (pure a) kept V :=
  fun _ hs => ⟨rfl, hs, h⟩

theorem same_note {a : α} {errors : List CompileError} (h : V a) :
    (note a errors : Check σ α).Same (note a errors) kept V := fun _ hs => ⟨rfl, hs, h⟩

theorem same_reportAll (errors : List CompileError) :
    (reportAll errors : Check σ Unit).Same (reportAll errors) kept fun _ => True :=
  fun _ hs => ⟨rfl, hs, trivial⟩

theorem same_read {view view' : σ → α} (h : ∀ s, kept s → view' s = view s ∧ V (view s)) :
    (read view : Check σ α).Same (read view') kept V := by
  intro s hs
  obtain ⟨hview, hvalue⟩ := h s hs
  rw [run_read, run_read, hview]
  exact ⟨rfl, hs, hvalue⟩

theorem same_modify {change : σ → σ} (h : ∀ s, kept s → kept (change s)) :
    (modify change : Check σ Unit).Same (modify change) kept fun _ => True :=
  fun s hs => ⟨rfl, h s hs, trivial⟩

theorem same_bind {one two : Check σ α} {next next' : α → Check σ β} (h : one.Same two kept V)
    (hnext : ∀ a, V a → (next a).Same (next' a) kept W) :
    (one >>= next).Same (two >>= next') kept W := by
  intro s hs
  obtain ⟨heq, hstate, hvalue⟩ := h s hs
  obtain ⟨heq', hstate', hvalue'⟩ := hnext _ hvalue _ hstate
  rw [run_bind, run_bind, heq, heq']
  exact ⟨rfl, hstate', hvalue'⟩

theorem same_map {one two : Check σ α} {f : α → β} (h : one.Same two kept fun a => W (f a)) :
    (f <$> one).Same (f <$> two) kept W := by
  rw [map_eq_pure_bind, map_eq_pure_bind]
  exact same_bind h fun _ ha => same_pure ha

theorem same_optional {step step' : α → Check σ β} {part : Option α} {V : β → Prop}
    (h : ∀ a, part = some a → (step a).Same (step' a) kept V) :
    (optional step part).Same (optional step' part) kept fun out => ∀ b, out = some b → V b := by
  cases part with
  | none => exact same_pure fun b hb => by cases hb
  | some a =>
    refine same_map ((h a rfl).mono fun b hb b' heq => ?_)
    cases heq
    exact hb

end

end Check

namespace StubState

open Check

variable {α : Type} {counts : CompileError → Bool}

/-- The same stub of one class, over registries that are related. -/
def Alike (ty : Ty) (P : Registry → Registry → Prop) (s t : StubState) : Prop :=
  t.stub = s.stub ∧ s.stub.info.ty = ty ∧ P s.registry t.registry

theorem agrees_onRegistry {step : Check Registry α} {ty : Ty} {P : Registry → Registry → Prop}
    {Q : α → Registry → Registry → Prop} (h : step.Agrees counts P Q) :
    (onRegistry step).Agrees counts (Alike ty P) fun a => Alike ty (Q a) := by
  rintro s t ⟨hstub, hty, hregistry⟩
  obtain ⟨hvalue, herrors, hstate⟩ := h _ _ hregistry
  exact ⟨hvalue, herrors, hstub, hty, hstate⟩

theorem agrees_info {ty : Ty} {P : Registry → Registry → Prop} :
    info.Agrees counts (Alike ty P) fun _ => Alike ty P :=
  agrees_read fun _ _ hst => congrArg ClassStub.info hst.1

variable {ty : Ty} {P : Registry → Registry → Prop}

theorem agrees_addField (field : FieldEntry) (descriptor : String) :
    (addField field descriptor).Agrees counts (Alike ty P) fun _ => Alike ty P := by
  rintro ⟨registry, stub⟩ ⟨registry', stub'⟩ ⟨hstub, hty, hregistry⟩
  cases hstub
  unfold addField Check.run
  dsimp only
  cases hinfo : stub.info.addField field with
  | error error => exact ⟨rfl, rfl, rfl, hty, hregistry⟩
  | ok info =>
    refine ⟨rfl, rfl, rfl, ?_, hregistry⟩
    unfold ClassInfo.addField at hinfo
    split at hinfo <;> cases hinfo
    exact hty

theorem agrees_addMethod (method : MethodEntry) (image : MethodImage) :
    (addMethod method image).Agrees counts (Alike ty P) fun _ => Alike ty P := by
  rintro ⟨registry, stub⟩ ⟨registry', stub'⟩ ⟨hstub, hty, hregistry⟩
  cases hstub
  unfold addMethod Check.run
  dsimp only
  cases hinfo : stub.info.addMethod method with
  | error error => exact ⟨rfl, rfl, rfl, hty, hregistry⟩
  | ok info =>
    refine ⟨rfl, rfl, rfl, ?_, hregistry⟩
    unfold ClassInfo.addMethod at hinfo
    split at hinfo <;> cases hinfo
    exact hty

end StubState

end ClassCompiler
