import ClassCompiler.Proofs.Closed
import ClassCompiler.Proofs.Unit.Resolving

/-!
# Compilations keep registries closed

Whatever a unit looks like and whatever is wrong with it, a compilation that starts from a closed
registry ends with one: all that the passes enter is made of types that were resolved before. Names
need not be apart for that.

* `Check.KeepsClosed`
* `Compiler.closed_compile`
-/

namespace ClassCompiler

open Check BodyState

/-! ## Declarations -/

namespace ClassDecl

def handle (package : Option String) (decl : ClassDecl) : Ty :=
  Ty.named (decl.internalName package)

/-- The entry of a class before its supertypes are known. -/
def entry (package : Option String) (decl : ClassDecl) : TypeEntry where
  internalName := decl.internalName package
  kind := if decl.isInterface then .interface else .plainClass
  superclass := some .object

end ClassDecl

namespace Registry.Closed

variable {registry : Registry}

theorem importClasses (h : registry.Closed) (names : List String) :
    ((importClasses names).run registry).state.Closed := by
  induction names generalizing registry with
  | nil => exact h
  | cons first rest ih =>
    refine ih ?_
    unfold Check.run
    dsimp only
    split
    · next hfound =>
      obtain ⟨ty, hlookup, heq⟩ := Option.map_eq_some_iff.mp hfound
      cases heq
      exact h.addAlias (lookupQualified?_eq_some_iff.mp hlookup).2 _
    · exact h

theorem declareClasses (h : registry.Closed) (package : Option String) (seen : List String)
    (decls : List ClassDecl) :
    ((declareClasses package seen decls).run registry).state.Closed := by
  induction decls generalizing seen registry with
  | nil => exact h
  | cons first rest ih =>
    refine ih ?_ (first.name :: seen)
    have hregistered : (registry.register (first.entry package)).Closed := by
      refine h.register (fun element => ?_) rfl
      unfold ClassDecl.entry
      split <;> simp
    refine hregistered.addAlias ?_ first.name
    exact contains_iff.mpr ⟨first.entry package, Table.get?_insert_self _ _ _⟩

end Registry.Closed

/-! ## Steps -/

/-- From a closed registry to a closed one. -/
def Registry.StaysClosed (s e : Registry) : Prop := s.Closed → e.Closed

instance : Registry.Resolving Registry.StaysClosed where
  refl _ h := h
  trans _ _ _ h h' hclosed := h' (h hclosed)
  resolve hresolve h := (h.resolve hresolve).1

theorem Registry.Closed.resolveOrAny {registry : Registry} (h : registry.Closed) (valueOnly : Bool)
    (name : TypeName) : (registry.resolveOrAny valueOnly name).2.1.Closed :=
  registry.along_resolveOrAny (R := StaysClosed) valueOnly name h

abbrev Check.KeepsClosed {σ α : Type} [Knows σ] (step : Check σ α) : Prop :=
  step.Keeps (Along Registry.StaysClosed)

/-! ## Supertypes -/

/-- A step that answers with registered types. -/
def Check.Finds {α : Type} (step : Check Registry α) (types : α → List Ty) : Prop :=
  step.Moves fun s a e => s.Below e ∧ (s.Closed → e.Closed ∧ ∀ ty ∈ types a, e.contains ty = true)

theorem resolveSupertype_finds (interfaceWanted : Bool) (name : TypeName) :
    (resolveSupertype interfaceWanted name).Finds Option.toList := by
  intro registry
  unfold resolveSupertype Check.run
  dsimp only
  split
  · exact ⟨.refl _, fun h => ⟨h, by simp⟩⟩
  · next ty resolved hresolve =>
    have hbelow := Registry.below_resolve hresolve
    generalize (if interfaceWanted then TypeKind.interface else .plainClass) = wanted
    split
    · refine ⟨hbelow, fun h => ⟨(h.resolve hresolve).1, fun other hother => ?_⟩⟩
      rw [List.mem_singleton.mp hother]
      exact (h.resolve hresolve).2
    · exact ⟨hbelow, fun h => ⟨(h.resolve hresolve).1, by simp⟩⟩

theorem resolveInterfaces_finds (names : List TypeName) : (resolveInterfaces names).Finds id := by
  induction names with
  | nil => exact fun _ => ⟨.refl _, fun h => ⟨h, fun _ hty => (List.not_mem_nil hty).elim⟩⟩
  | cons first rest ih =>
    refine (moves_bind (resolveSupertype_finds true first) fun _ => moves_bind ih fun _ =>
      moves_run _).mono ?_
    rintro s _ _ ⟨one, m, ⟨hbelow, hone⟩, others, e, ⟨hbelow', hrest⟩, rfl, rfl⟩
    refine ⟨hbelow.trans hbelow', fun h => ?_⟩
    obtain ⟨hclosed, hknown⟩ := hone h
    obtain ⟨hclosed', hknown'⟩ := hrest hclosed
    refine ⟨hclosed', fun ty hty => ?_⟩
    rcases List.mem_append.mp hty with hty | hty
    · exact hbelow'.contains (hknown ty hty)
    · exact hknown' ty hty

theorem ClassDecl.resolveSupertypes_finds (decl : ClassDecl) :
    decl.resolveSupertypes.Finds fun pair => pair.1 :: pair.2 := by
  have hrest : ∀ superclass : Option Ty, (do
      let interfaces ← resolveInterfaces decl.interfaces
      pure (superclass.getD .object, interfaces)).Moves fun s pair e => s.Below e
        ∧ (s.Closed → (∀ ty ∈ superclass, s.contains ty = true) →
          e.Closed ∧ ∀ ty ∈ pair.1 :: pair.2, e.contains ty = true) := by
    intro superclass
    refine (moves_bind (resolveInterfaces_finds decl.interfaces) fun _ => moves_run _).mono ?_
    rintro s _ _ ⟨interfaces, e, ⟨hbelow, hfound⟩, rfl, rfl⟩
    refine ⟨hbelow, fun h hsuperclass => ?_⟩
    obtain ⟨hclosed, hknown⟩ := hfound h
    refine ⟨hclosed, fun ty hty => ?_⟩
    rcases List.mem_cons.mp hty with rfl | hty
    · cases superclass with
      | none => exact hclosed.roots .object (by simp)
      | some superclass => exact hbelow.contains (hsuperclass superclass rfl)
    · exact hknown ty hty
  unfold resolveSupertypes
  dsimp only
  split
  · refine (moves_bind (resolveSupertype_finds false _) hrest).mono ?_
    rintro s pair e ⟨superclass, m, ⟨hbelow, hone⟩, hbelow', hothers⟩
    refine ⟨hbelow.trans hbelow', fun h => ?_⟩
    obtain ⟨hclosed, hknown⟩ := hone h
    exact hothers hclosed fun ty hty => hknown ty (by simpa using hty)
  · refine (hrest none).mono ?_
    rintro s pair e ⟨hbelow, hothers⟩
    exact ⟨hbelow, fun h => hothers h fun _ hty => by cases hty⟩

/-- The supertypes that a class gets are registered. -/
theorem Registry.Closed.setFoundSupertypes {registry : Registry} (h : registry.Closed) (ty : Ty)
    (decl : ClassDecl) :
    ((decl.resolveSupertypes.run registry).state.setSupertypes ty
      (some (decl.resolveSupertypes.run registry).value.1)
      (decl.resolveSupertypes.run registry).value.2).Closed := by
  obtain ⟨-, hfound⟩ := decl.resolveSupertypes_finds registry
  obtain ⟨hclosed, hknown⟩ := hfound h
  exact hclosed.setSupertypes ty hknown

theorem ClassDecl.stub_keepsClosed (options : Options) (ty : Ty) (decl : ClassDecl) :
    (decl.stub options ty).KeepsClosed := by
  intro registry h
  have hmembers : (stubMembers options decl.members).KeepsClosed := stubMembers_along _ _
  exact hmembers ⟨_, _⟩ (h.setFoundSupertypes ty decl)

theorem stubClasses_keepsClosed (options : Options) (decls : List ClassDecl) :
    (stubClasses options decls).KeepsClosed := by
  induction decls with
  | nil => exact keeps_pure _
  | cons first rest ih =>
    unfold stubClasses
    split
    · exact keeps_bind ih fun _ => keeps_pure _
    · exact keeps_bind (first.stub_keepsClosed options _) fun _ => keeps_bind ih fun _ =>
        keeps_pure _

/-! ## Compilations -/

theorem CompilationUnit.closed_stub {registry : Registry} (h : registry.Closed) (options : Options)
    (unit : CompilationUnit) : ((unit.stub options).run registry).state.Closed :=
  stubClasses_keepsClosed options _ _ ((h.importClasses _).declareClasses _ _ _)

/-- A compiler that starts with a closed registry has one ever after. -/
theorem Compiler.closed_compile {compiler : Compiler} (h : compiler.registry.Closed)
    (unit : CompilationUnit) (output : Recorder) :
    (compiler.compile unit output).compiler.registry.Closed := by
  have hbodies : ∀ classes decls, (ClassDecl.checkList classes decls).KeepsClosed :=
    fun classes decls => ClassDecl.checkList_along classes decls
  have hanalyzed : ((analyze compiler.options unit).run compiler.registry).state.Closed :=
    hbodies _ _ _ (CompilationUnit.closed_stub h compiler.options unit)
  unfold compile
  dsimp only
  split
  · exact hanalyzed
  · split <;> exact hanalyzed

end ClassCompiler
