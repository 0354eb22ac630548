import ClassCompiler.Proofs.Unit.Turns

/-!
# Units without their bodies

Stubbing looks at a body only to see whether there is one, and that only decides what it reports.
All else is the same as for the unit without its bodies: the registry, the classes that bodies will
see, and the state in front of every method.

* `CompilationUnit.withoutBodies`
* `CompilationUnit.SameStubs`, `CompilationUnit.sameStubs_of_withoutBodies`
-/

namespace ClassCompiler

open Check StubState Compiler

/-! ## Steps that answer with less -/

namespace Check

variable {σ α β γ δ : Type}

/-- The second step leads to the states that the first one leads to, and answers with an image of
its answer. -/
def Maps (full bare : Check σ α) (f : α → α) : Prop :=
  ∀ s, (bare.run s).state = (full.run s).state ∧ (bare.run s).value = f (full.run s).value

theorem maps_pure {a b : α} {f : α → α} (h : b = f a) :
    (pure a : Check σ α).Maps (pure b) f := fun _ => ⟨rfl, h⟩

theorem maps_bind {full bare : Check σ α} {f : α → α} {g : β → β} {next next' : α → Check σ β}
    (h : full.Maps bare f) (hnext : ∀ a, (next a).Maps (next' (f a)) g) :
    (full >>= next).Maps (bare >>= next') g := by
  intro s
  obtain ⟨hstate, hvalue⟩ := h s
  rw [run_bind, run_bind, hstate, hvalue]
  exact hnext _ _

/-- After the same step. -/
theorem maps_then {first : Check σ α} {g : β → β} {next next' : α → Check σ β}
    (hnext : ∀ a, (next a).Maps (next' a) g) : (first >>= next).Maps (first >>= next') g :=
  maps_bind (f := id) (fun _ => ⟨rfl, rfl⟩) hnext

theorem maps_reportAll (errors errors' : List CompileError) :
    (reportAll errors : Check σ Unit).Maps (reportAll errors') id := fun _ => ⟨rfl, rfl⟩

end Check

/-! ## Declarations without bodies -/

def MethodDecl.withoutBody (method : MethodDecl) : MethodDecl := { method with body := none }

def Member.withoutBody : Member → Member
  | field decl => field decl
  | method decl => method decl.withoutBody

def ClassDecl.withoutBodies (decl : ClassDecl) : ClassDecl :=
  { decl with members := decl.members.map Member.withoutBody }

def CompilationUnit.withoutBodies (unit : CompilationUnit) : CompilationUnit :=
  { unit with types := unit.types.map ClassDecl.withoutBodies }

theorem filterMap_withoutBody (members : List Member) :
    (members.map Member.withoutBody).filterMap Member.method?
      = (members.filterMap Member.method?).map MethodDecl.withoutBody := by
  induction members with
  | nil => rfl
  | cons first rest ih =>
    cases first with
    | field => exact ih
    | method decl => exact congrArg (decl.withoutBody :: ·) ih

theorem ClassDecl.methods_withoutBodies (decl : ClassDecl) :
    decl.withoutBodies.methods = decl.methods.map MethodDecl.withoutBody := by
  rw [methods_eq, methods_eq]
  exact filterMap_withoutBody decl.members

theorem ClassDecl.sites_withoutBodies (classes : ClassTable) (decl : ClassDecl) :
    decl.withoutBodies.sites classes
      = (decl.sites classes).map (Prod.map id MethodDecl.withoutBody) := by
  have hty : decl.withoutBodies.ty = decl.ty := rfl
  unfold sites
  rw [hty]
  cases decl.ty with
  | none => rfl
  | some owner =>
    dsimp only
    rw [methods_withoutBodies, List.map_map, List.map_map]
    rfl

theorem ClassDecl.flatMap_sites_withoutBodies (classes : ClassTable) (decls : List ClassDecl) :
    (decls.map ClassDecl.withoutBodies).flatMap (ClassDecl.sites classes)
      = (decls.flatMap (ClassDecl.sites classes)).map (Prod.map id MethodDecl.withoutBody) := by
  rw [List.flatMap_map, List.map_flatMap]
  exact List.flatMap_congr fun decl _ => decl.sites_withoutBodies classes

/-! ## Stubs without bodies -/

theorem MethodDecl.stub_maps (method : MethodDecl) :
    method.stub.Maps method.withoutBody.stub withoutBody := by
  unfold stub
  exact maps_then fun info => maps_then fun _ => maps_then fun signature =>
    maps_bind (maps_reportAll _ _) fun _ => maps_then fun exceptions => maps_then fun _ =>
    maps_pure rfl

theorem stubFields_maps (members : List Member) :
    (stubFields members).Maps (stubFields (members.map Member.withoutBody))
      (List.map Member.withoutBody) := by
  induction members with
  | nil => exact maps_pure rfl
  | cons first rest ih =>
    cases first with
    | field field => exact maps_then fun out => maps_bind ih fun others => maps_pure rfl
    | method method => exact maps_bind ih fun others => maps_pure rfl

theorem stubMethods_maps (members : List Member) :
    (stubMethods members).Maps (stubMethods (members.map Member.withoutBody))
      (List.map Member.withoutBody) := by
  induction members with
  | nil => exact maps_pure rfl
  | cons first rest ih =>
    cases first with
    | field field => exact maps_bind ih fun others => maps_pure rfl
    | method method =>
      exact maps_bind method.stub_maps fun out => maps_bind ih fun others => maps_pure rfl

namespace ClassDecl

variable (options : Options) (ty : Ty) (decl : ClassDecl) (registry : Registry)

theorem stubStart_withoutBodies :
    decl.withoutBodies.stubStart options ty registry = decl.stubStart options ty registry :=
  congrArg (withConstructor options) (stubFields_maps decl.members (decl.stubOutline ty registry)).1

theorem stub_maps :
    (decl.stub options ty).Maps (decl.withoutBodies.stub options ty) (Prod.map withoutBodies id) := by
  intro registry
  obtain ⟨-, hfields⟩ := stubFields_maps decl.members (decl.stubOutline ty registry)
  obtain ⟨hstate, hvalue⟩ := stubMethods_maps
    ((stubFields decl.members).run (decl.stubOutline ty registry)).value
    (decl.stubStart options ty registry)
  have hfields' : ((stubFields decl.withoutBodies.members).run
      (decl.withoutBodies.stubOutline ty registry)).value
        = ((stubFields decl.members).run (decl.stubOutline ty registry)).value.map
          Member.withoutBody := hfields
  rw [run_stub, run_stub]
  dsimp only
  rw [hfields', stubStart_withoutBodies, hstate, hvalue]
  exact ⟨rfl, rfl⟩

end ClassDecl

theorem stubClasses_maps (options : Options) (decls : List ClassDecl) :
    (stubClasses options decls).Maps (stubClasses options (decls.map ClassDecl.withoutBodies))
      (Prod.map (List.map ClassDecl.withoutBodies) id) := by
  induction decls with
  | nil => exact maps_pure rfl
  | cons first rest ih =>
    have hty : first.withoutBodies.ty = first.ty := rfl
    rw [List.map_cons, stubClasses, stubClasses, hty]
    cases first.ty with
    | none => exact maps_bind ih fun others => maps_pure rfl
    | some ty =>
      exact maps_bind (first.stub_maps options ty) fun one => maps_bind ih fun others =>
        maps_pure rfl

theorem turns_withoutBody (methods : List MethodDecl) (state : StubState) :
    turns MethodDecl.stub (methods.map MethodDecl.withoutBody) state
      = (turns MethodDecl.stub methods state).map (Prod.map MethodDecl.withoutBody id) := by
  induction methods generalizing state with
  | nil => rfl
  | cons first rest ih =>
    rw [List.map_cons, turns, turns, (first.stub_maps state).1, ih]
    rfl

theorem stubTurns_withoutBodies (options : Options) (decls : List ClassDecl)
    (registry : Registry) :
    stubTurns options (decls.map ClassDecl.withoutBodies) registry
      = (stubTurns options decls registry).map (Prod.map MethodDecl.withoutBody id) := by
  induction decls generalizing registry with
  | nil => rfl
  | cons first rest ih =>
    have hty : first.withoutBodies.ty = first.ty := rfl
    rw [List.map_cons, stubTurns, stubTurns, hty]
    cases first.ty with
    | none => exact ih registry
    | some ty =>
      dsimp only
      rw [List.map_append, first.methods_withoutBodies, first.stubStart_withoutBodies,
        turns_withoutBody, (first.stub_maps options ty registry).1, ih]

/-! ## Units -/

theorem declareClasses_maps (package : Option String) (seen : List String)
    (decls : List ClassDecl) :
    (declareClasses package seen decls).Maps
      (declareClasses package seen (decls.map ClassDecl.withoutBodies))
      (List.map ClassDecl.withoutBodies) := by
  induction decls generalizing seen with
  | nil => exact maps_pure rfl
  | cons first rest ih =>
    have hone : (first.declare package).Maps (first.withoutBodies.declare package)
        ClassDecl.withoutBodies := fun _ => ⟨rfl, rfl⟩
    exact maps_then fun _ => maps_bind hone fun one => maps_bind (ih _) fun others => maps_pure rfl

namespace CompilationUnit

/-- What stubbing has in common for two units. -/
structure SameStubs (options : Options) (registry : Registry) (one two : CompilationUnit) : Prop where
  package : two.package = one.package
  declared : declaredRegistry two registry = declaredRegistry one registry
  state : ((stubClasses options (declaredTypes two)).run (declaredRegistry one registry)).state
    = ((stubClasses options (declaredTypes one)).run (declaredRegistry one registry)).state
  stubs : ((stubClasses options (declaredTypes two)).run (declaredRegistry one registry)).value.2
    = ((stubClasses options (declaredTypes one)).run (declaredRegistry one registry)).value.2
  types : ((stubClasses options (declaredTypes two)).run
      (declaredRegistry one registry)).value.1.map ClassDecl.withoutBodies
    = ((stubClasses options (declaredTypes one)).run
      (declaredRegistry one registry)).value.1.map ClassDecl.withoutBodies
  turns : (stubTurns options (declaredTypes two) (declaredRegistry one registry)).map
      (Prod.map MethodDecl.withoutBody id)
    = (stubTurns options (declaredTypes one) (declaredRegistry one registry)).map
      (Prod.map MethodDecl.withoutBody id)

theorem declaredTypes_withoutBodies (unit : CompilationUnit) :
    declaredTypes unit.withoutBodies = (declaredTypes unit).map ClassDecl.withoutBodies := by
  unfold declaredTypes withoutBodies
  rw [List.map_map, List.map_map]
  rfl

theorem declaredRegistry_withoutBodies (unit : CompilationUnit) (registry : Registry) :
    declaredRegistry unit.withoutBodies registry = declaredRegistry unit registry :=
  (declareClasses_maps unit.package [] unit.types _).1

/-- Units that differ in their bodies alone have the same stubs. -/
theorem sameStubs_of_withoutBodies {one two : CompilationUnit}
    (h : one.withoutBodies = two.withoutBodies) (options : Options) (registry : Registry) :
    SameStubs options registry one two := by
  have hdeclared : declaredRegistry two registry = declaredRegistry one registry := by
    rw [← declaredRegistry_withoutBodies two, ← h, declaredRegistry_withoutBodies]
  have htypes : (declaredTypes two).map ClassDecl.withoutBodies
      = (declaredTypes one).map ClassDecl.withoutBodies := by
    rw [← declaredTypes_withoutBodies, ← h, declaredTypes_withoutBodies]
  obtain ⟨hstate, hvalue⟩ :=
    stubClasses_maps options (declaredTypes one) (declaredRegistry one registry)
  obtain ⟨hstate', hvalue'⟩ :=
    stubClasses_maps options (declaredTypes two) (declaredRegistry one registry)
  rw [htypes] at hstate' hvalue'
  have hpackage := congrArg CompilationUnit.package h
  have hboth := hvalue'.symm.trans hvalue
  have hstubs := congrArg Prod.snd hboth
  have hdecls := congrArg Prod.fst hboth
  refine ⟨hpackage.symm, hdeclared, hstate'.symm.trans hstate, hstubs, hdecls, ?_⟩
  rw [← stubTurns_withoutBodies, ← stubTurns_withoutBodies, htypes]

end CompilationUnit

end ClassCompiler
