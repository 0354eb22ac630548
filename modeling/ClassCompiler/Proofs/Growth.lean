import ClassCompiler.Body.Stmt
import ClassCompiler.Proofs.Check
import ClassCompiler.Proofs.Registry
import ClassCompiler.Unit.Stubs

/-!
# Growing registries

Steps that learn types. Whatever such a step reports, the registry after it knows all that the
registry before it knew. What else holds depends on names that do not collide, and the array types
that matter are known at the end only. So a postcondition may assume that the registry after the
step lies below a last one, and it relates the states before and after the step; preconditions go
into the relation.

* `Check.Grows`: growth, with a relation for the runs without errors
* `Check.grows_bind`: the relations of two steps in turn
-/

namespace ClassCompiler

/-- States with a registry in them. -/
class Knows (σ : Type) where
  registry : σ → Registry

instance : Knows Registry := ⟨id⟩

instance : Knows BodyState := ⟨BodyState.registry⟩

instance : Knows StubState := ⟨StubState.registry⟩

namespace Check

variable {σ α β : Type} [Knows σ] {last : Registry}

def Grows (last : Registry) (step : Check σ α) (R : σ → α → σ → Prop) : Prop :=
  ∀ state, (Knows.registry state).Below (Knows.registry (step.run state).state)
    ∧ ((step.run state).errors = [] → (Knows.registry (step.run state).state).Below last →
      R state (step.run state).value (step.run state).state)

theorem Grows.mono {step : Check σ α} {R S : σ → α → σ → Prop} (h : step.Grows last R)
    (himp : ∀ s a e, R s a e → S s a e) : step.Grows last S := fun state =>
  ⟨(h state).1, fun he hlast => himp _ _ _ ((h state).2 he hlast)⟩

theorem Grows.below {step : Check σ α} {R : σ → α → σ → Prop} (h : step.Grows last R) :
    step.Grows last fun s a e => (Knows.registry s).Below (Knows.registry e) ∧ R s a e :=
  fun state => ⟨(h state).1, fun he hlast => ⟨(h state).1, (h state).2 he hlast⟩⟩

theorem grows_bind {first : Check σ α} {next : α → Check σ β} {R : σ → α → σ → Prop}
    {S : α → σ → β → σ → Prop} (h : first.Grows last R)
    (hnext : ∀ a, (next a).Grows last (S a)) :
    (first >>= next).Grows last fun s b e => ∃ a m, R s a m ∧ S a m b e := by
  intro state
  obtain ⟨hgrow, hrel⟩ := h state
  obtain ⟨hgrow', hrel'⟩ := hnext (first.run state).value (first.run state).state
  refine ⟨hgrow.trans hgrow', fun he hlast => ?_⟩
  rw [run_bind] at he
  obtain ⟨hfirst, hrest⟩ := List.append_eq_nil_iff.mp he
  exact ⟨_, _, hrel hfirst (hgrow'.trans hlast), hrel' hrest hlast⟩

theorem grows_pure (a : α) :
    (pure a : Check σ α).Grows last fun s b e => b = a ∧ e = s :=
  fun _ => ⟨Registry.Below.refl _, fun _ _ => ⟨rfl, rfl⟩⟩

theorem grows_map {step : Check σ α} {f : α → β} {R : σ → α → σ → Prop}
    (h : step.Grows last R) :
    (f <$> step).Grows last fun s b e => ∃ a, b = f a ∧ R s a e := by
  rw [map_eq_pure_bind]
  refine (grows_bind h fun a => grows_pure (f a)).mono ?_
  rintro s _ _ ⟨a, m, hrel, rfl, rfl⟩
  exact ⟨a, rfl, hrel⟩

theorem grows_note (a : α) (errors : List CompileError) :
    (note a errors : Check σ α).Grows last fun s b e => b = a ∧ e = s ∧ errors = [] :=
  fun _ => ⟨Registry.Below.refl _, fun he _ => ⟨rfl, rfl, he⟩⟩

theorem grows_reportAll (errors : List CompileError) :
    (reportAll errors : Check σ Unit).Grows last fun s _ e => e = s ∧ errors = [] :=
  fun _ => ⟨Registry.Below.refl _, fun he _ => ⟨rfl, he⟩⟩

theorem grows_read (view : σ → α) :
    (read view : Check σ α).Grows last fun s a e => a = view s ∧ e = s :=
  fun _ => ⟨Registry.Below.refl _, fun _ _ => ⟨rfl, rfl⟩⟩

/-- Steps in turn, each of which keeps to a relation that can be put together. -/
theorem grows_forM {R : σ → σ → Prop} (hrefl : ∀ s, R s s)
    (htrans : ∀ s m e, R s m → R m e → R s e) {step : α → Check σ PUnit} {l : List α}
    (h : ∀ a ∈ l, (step a).Grows last fun s _ e => R s e) :
    (l.forM step).Grows last fun s _ e => R s e := by
  induction l with
  | nil =>
    refine (grows_pure _).mono ?_
    rintro s _ _ ⟨-, rfl⟩
    exact hrefl _
  | cons a rest ih =>
    show (step a >>= fun _ => rest.forM step).Grows last _
    refine (grows_bind (h a List.mem_cons_self) fun _ =>
      ih fun b hb => h b (List.mem_cons_of_mem _ hb)).mono ?_
    rintro s _ e ⟨_, m, hfirst, hrest⟩
    exact htrans s m e hfirst hrest

/-! ## Optional parts -/

theorem grows_optional {step : α → Check σ β} (part : Option α) {R : α → σ → β → σ → Prop}
    (h : ∀ a, part = some a → (step a).Grows last (R a)) :
    (optional step part).Grows last fun s out e => (out = none ∧ e = s)
      ∨ ∃ a b, part = some a ∧ out = some b ∧ R a s b e := by
  cases part with
  | none =>
    refine (grows_pure _).mono ?_
    rintro s _ _ ⟨rfl, rfl⟩
    exact .inl ⟨rfl, rfl⟩
  | some a =>
    refine (grows_map (h a rfl)).mono ?_
    rintro s _ e ⟨b, rfl, hrel⟩
    exact .inr ⟨a, b, rfl, rfl, hrel⟩

end Check

end ClassCompiler
