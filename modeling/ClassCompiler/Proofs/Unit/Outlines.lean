import ClassCompiler.Proofs.Compiler
import ClassCompiler.Proofs.DeclarationOrder
import ClassCompiler.Proofs.Unit.Passes

/-!
# What a stub shows

Stubbing builds two things side by side: the class that bodies see, and its stub. The first holds
types and the second their names, which later types leave as they are. So both tell the same, in any
registry that knows more than the one of their making: the same shape, and a method of each for every
method of the declaration. Analysis changes nothing that either of them shows.

* `ClassStub.Shows`: a declaration with its class and its stub
* `ClassDecl.stub_shows`: stubbing a class
* `Compiler.analysis_shows`: an analysis without errors
* `ClassTable.class?_of_mem`: a class is found at its handle
-/

namespace ClassCompiler

open Check

/-! ## Shapes -/

/-- A class without its methods. -/
def ClassImage.shape (image : ClassImage) : ClassImage :=
  { image with methods := [], constants := {} }

theorem ClassImage.shape_eq_iff {one two : ClassImage} : one.shape = two.shape ↔
    one.mods = two.mods ∧ one.name = two.name ∧ one.superName = two.superName
      ∧ one.interfaces = two.interfaces ∧ one.fields = two.fields := by
  simp [shape]

namespace ClassInfo

/-- What the names of a registry make of a class, its methods left out. -/
def shape (registry : Registry) (info : ClassInfo) : ClassImage where
  mods := info.mods
  name := info.internalName
  superName := registry.internalName info.superclass
  interfaces := info.interfaces.map registry.internalName
  fields := info.fields.map fun field => ⟨field.mods, field.name, registry.descriptor field.ty⟩

/-- The constructor that no declaration makes. -/
def constructors (options : Options) (registry : Registry) (info : ClassInfo) : List MethodImage :=
  if hasImplicitConstructor options info then
    [implicitConstructor (registry.internalName info.superclass)]
  else []

@[simp] theorem shape_outline (options : Options) (registry : Registry) (info : ClassInfo) :
    (info.outline options registry).shape = info.shape registry := by
  unfold outline
  dsimp only
  split <;> rfl

@[simp] theorem methods_outline (options : Options) (registry : Registry) (info : ClassInfo) :
    (info.outline options registry).methods = info.constructors options registry := by
  unfold outline constructors
  dsimp only
  split <;> rfl

end ClassInfo

/-! ## Methods -/

def Member.method? : Member → Option MethodDecl
  | method decl => some decl
  | field _ => none

theorem ClassDecl.methods_eq (decl : ClassDecl) :
    decl.methods = decl.members.filterMap Member.method? := by
  unfold methods
  congr 1

namespace MethodDecl

/-- The method in the table of classes. -/
def entry? (method : MethodDecl) : Option MethodEntry :=
  method.signature.map fun signature =>
    { name := method.name
      params := signature.params
      returnTy := signature.returnTy
      exceptions := signature.exceptions
      mods := method.mods
      descriptor := signature.descriptor
      line := method.line }

/-- The method in the stub of its class. -/
def stubImage? (registry : Registry) (method : MethodDecl) : Option MethodImage :=
  method.signature.map fun signature =>
    { mods := method.mods
      name := method.name
      descriptor := signature.descriptor
      exceptions := exceptionNames registry signature.exceptions
      code := stubCode method.mods signature.returnTy }

/-- A method that breaks no rule has a signature, and a body unless it is abstract. -/
structure Proper (method : MethodDecl) : Prop where
  signature : method.signature.isSome = true
  body : method.body.isSome = !method.mods.isAbstract

end MethodDecl

theorem Modifiers.contains_union (mods other : Modifiers) : (mods ∪ other).contains other = true := by
  show ((mods.bits ||| other.bits) &&& other.bits == other.bits) = true
  rw [beq_iff_eq]
  apply UInt16.toBitVec_inj.mp
  simp only [UInt16.toBitVec_or, UInt16.toBitVec_and]
  ext i hi
  simp only [BitVec.getElem_or, BitVec.getElem_and]
  cases mods.bits.toBitVec[i] <;> simp

theorem hasBody_of_modifierError? {mods : Modifiers} {hasBody inInterface : Bool}
    (h : modifierError? mods hasBody inInterface = none)
    (habstract : inInterface = true → mods.isAbstract = true) : hasBody = !mods.isAbstract := by
  unfold modifierError? at h
  cases hmods : mods.isAbstract <;> cases hasBody <;> cases inInterface <;>
    simp_all

theorem MethodDecl.isAbstract_stubModifiers (method : MethodDecl) :
    (method.stubModifiers true).1.isAbstract = true := Modifiers.contains_union _ _

/-! ## Resolved types -/

theorem Registry.Closed.contains_resolveOrAny {registry : Registry} (h : registry.Closed)
    (valueOnly : Bool) (name : TypeName) :
    (registry.resolveOrAny valueOnly name).2.1.contains
      (registry.resolveOrAny valueOnly name).1 = true := by
  unfold Registry.resolveOrAny
  split
  · next ty resolved hok =>
    split at hok
    · exact (h.resolve (resolveValue_eq_ok_iff.mp hok).1).2
    · exact (h.resolve hok).2
  · exact h.roots .any (by simp)

theorem resolveName_finds (valueOnly : Bool) (name : TypeName) :
    (resolveName valueOnly name).Finds fun ty => [ty] := by
  intro registry
  refine ⟨Registry.below_resolveOrAny _ _ _, fun h => ⟨h.resolveOrAny _ _, fun ty hty => ?_⟩⟩
  rw [List.mem_singleton.mp hty]
  exact h.contains_resolveOrAny valueOnly name

theorem resolveParams_finds (params : List FormalParam) : (resolveParams params).Finds id := by
  induction params with
  | nil => exact fun _ => ⟨.refl _, fun h => ⟨h, fun _ hty => (List.not_mem_nil hty).elim⟩⟩
  | cons first rest ih =>
    refine (moves_bind (resolveName_finds true first.type) fun _ => moves_bind ih fun _ =>
      moves_run _).mono ?_
    rintro s _ _ ⟨one, m, ⟨hbelow, hone⟩, others, e, ⟨hbelow', hrest⟩, rfl, rfl⟩
    refine ⟨hbelow.trans hbelow', fun h => ?_⟩
    obtain ⟨hclosed, hknown⟩ := hone h
    obtain ⟨hclosed', hknown'⟩ := hrest hclosed
    refine ⟨hclosed', fun ty hty => ?_⟩
    rcases List.mem_cons.mp hty with rfl | hty
    · exact hbelow'.contains (hknown _ (List.mem_singleton_self _))
    · exact hknown' ty hty

theorem resolveExceptions_finds (line : Nat) (names : List TypeName) :
    (resolveExceptions line names).Finds id := by
  induction names with
  | nil => exact fun _ => ⟨.refl _, fun h => ⟨h, fun _ hty => (List.not_mem_nil hty).elim⟩⟩
  | cons first rest ih =>
    refine (moves_bind (resolveName_finds false first) fun _ => moves_bind (moves_run _) fun _ =>
      moves_bind (moves_run _) fun _ => moves_bind ih fun _ => moves_run _).mono ?_
    rintro s _ _ ⟨one, m, ⟨hbelow, hone⟩, _, _, ⟨-, rfl⟩, _, _, ⟨-, rfl⟩, others, e,
      ⟨hbelow', hrest⟩, rfl, rfl⟩
    refine ⟨hbelow.trans hbelow', fun h => ?_⟩
    obtain ⟨hclosed, hknown⟩ := hone h
    obtain ⟨hclosed', hknown'⟩ := hrest hclosed
    refine ⟨hclosed', fun ty hty => ?_⟩
    rcases List.mem_cons.mp hty with rfl | hty
    · exact hbelow'.contains (hknown _ (List.mem_singleton_self _))
    · exact hknown' ty hty

theorem MethodDecl.resolveSignature_finds (method : MethodDecl) :
    method.resolveSignature.Finds MethodSignature.types := by
  unfold resolveSignature
  refine (moves_bind (resolveExceptions_finds _ _) fun _ =>
    moves_bind (resolveParams_finds _) fun _ => moves_bind (resolveName_finds _ _) fun _ =>
    moves_run _).mono ?_
  rintro s _ _ ⟨exceptions, m, ⟨hbelow, hone⟩, params, m', ⟨hbelow', htwo⟩, returnTy, e,
    ⟨hbelow'', hthree⟩, rfl, rfl⟩
  refine ⟨hbelow.trans (hbelow'.trans hbelow''), fun h => ?_⟩
  obtain ⟨hclosed, hknown⟩ := hone h
  obtain ⟨hclosed', hknown'⟩ := htwo hclosed
  obtain ⟨hclosed'', hknown''⟩ := hthree hclosed'
  refine ⟨hclosed'', fun ty hty => ?_⟩
  rcases List.mem_append.mp hty with hty | hty
  · exact (hbelow'.trans hbelow'').contains (hknown ty hty)
  rcases List.mem_append.mp hty with hty | hty
  · exact hbelow''.contains (hknown' ty hty)
  · exact hknown'' ty hty

theorem exceptionNames_below {small large : Registry} (h : small.Below large) {types : List Ty}
    (hknown : ∀ ty ∈ types, small.contains ty = true) :
    exceptionNames large types = exceptionNames small types := by
  unfold exceptionNames
  refine List.map_congr_left fun ty hty => ?_
  exact h.internalName (hknown ty (List.mem_of_mem_filter hty))

variable {last : Registry}

/-- Types that were found keep their names to the end. -/
theorem Check.Finds.grows {α : Type} {step : Check Registry α} {types : α → List Ty}
    (h : step.Finds types) : step.Grows last fun s a e => s.Closed →
      e.Closed ∧ e.Below last ∧ ∀ ty ∈ types a, e.contains ty = true := by
  intro registry
  obtain ⟨hbelow, hfound⟩ := h registry
  refine ⟨hbelow, fun _ hlast hclosed => ?_⟩
  obtain ⟨hclosed', hknown⟩ := hfound hclosed
  exact ⟨hclosed', hlast, hknown⟩

/-! ## Classes under construction -/

namespace StubState

/-- The class and its stub have one shape, in any registry that knows more. -/
structure Mirrors (last : Registry) (state : StubState) : Prop where
  closed : state.registry.Closed
  shape : state.stub.image.shape = state.stub.info.shape last

/-- The class and its stub got a member for each of the methods, and fields. -/
structure Adds (last : Registry) (methods : List MethodDecl) (before after : StubState) : Prop where
  mirrors : after.Mirrors last
  same : after.stub.info = { before.stub.info with
    fields := after.stub.info.fields, methods := after.stub.info.methods }
  entries : after.stub.info.methods
    = before.stub.info.methods ++ methods.filterMap MethodDecl.entry?
  images : after.stub.image.methods
    = before.stub.image.methods ++ methods.filterMap (MethodDecl.stubImage? last)

variable {one two three : StubState} {first rest : List MethodDecl}

theorem Adds.nil (h : two.Mirrors last)
    (hsame : two.stub.info = { one.stub.info with fields := two.stub.info.fields })
    (himages : two.stub.image.methods = one.stub.image.methods) : Adds last [] one two := by
  refine ⟨h, ?_, ?_, by simp [himages]⟩
  · rw [hsame]
  · rw [hsame]
    exact (List.append_nil _).symm

theorem Adds.trans (h : Adds last first one two) (h' : Adds last rest two three) :
    Adds last (first ++ rest) one three := by
  refine ⟨h'.mirrors, h'.same.trans (by rw [h.same]), ?_, ?_⟩
  · rw [h'.entries, h.entries, List.filterMap_append, List.append_assoc]
  · rw [h'.images, h.images, List.filterMap_append, List.append_assoc]

theorem addField_adds (field : FieldEntry) (descriptor : String) :
    (addField field descriptor).Grows last fun s _ e =>
      last.descriptor field.ty = descriptor → s.Mirrors last → s.Adds last [] e := by
  intro state
  unfold addField ClassInfo.addField Check.run
  dsimp only
  by_cases hfound : (state.stub.info.field? field.name).isSome = true
  · rw [if_pos hfound]
    exact ⟨.refl _, fun he => by cases he⟩
  · rw [if_neg hfound]
    refine ⟨.refl _, fun _ _ hdescriptor h => .nil ⟨h.closed, ?_⟩ rfl rfl⟩
    have hfields : state.stub.image.shape.fields = (state.stub.info.shape last).fields := by
      rw [h.shape]
    have hrest := h.shape
    unfold ClassImage.shape ClassImage.addField ClassInfo.shape at *
    dsimp only at *
    rw [ClassImage.mk.injEq] at hrest ⊢
    refine ⟨hrest.1, hrest.2.1, hrest.2.2.1, hrest.2.2.2.1, ?_, rfl, rfl⟩
    rw [hfields, List.map_append, List.map_singleton, hdescriptor]

end StubState

open StubState

theorem FieldDecl.stub_adds (field : FieldDecl) :
    field.stub.Grows last fun s _ e => s.Mirrors last → s.Adds last [] e := by
  unfold stub
  refine (grows_bind (grows_onRegistry (resolveName_finds true field.type).grows) fun ty =>
    grows_bind (grows_read _) fun info => grows_bind (grows_read _) fun descriptor =>
    grows_bind (grows_forM (R := fun s e => last.descriptor ty = descriptor → s.Mirrors last →
        s.Adds last [] e) (fun s _ h => .nil h rfl rfl)
      (fun s m e h h' hty hstart => (h hty hstart).trans (h' hty (h hty hstart).mirrors))
      fun name _ => addField_adds _ descriptor) fun _ => grows_pure _).mono ?_
  rintro s _ _ ⟨ty, _, ⟨registry, rfl, hresolve⟩, info, _, ⟨-, rfl⟩, descriptor, _, ⟨rfl, rfl⟩, _, e,
    hfields, -, rfl⟩ h
  obtain ⟨hclosed, hlast, hknown⟩ := hresolve h.closed
  have hadds := hfields (hlast.descriptor (hknown ty (List.mem_singleton_self ty)))
    ⟨hclosed, h.shape⟩
  exact ⟨hadds.mirrors, hadds.same, hadds.entries, hadds.images⟩

theorem addMethod_grows_eq (entry : MethodEntry) (image : MethodImage) :
    (addMethod entry image).Grows last fun s _ e => e.registry = s.registry
      ∧ e.stub.info = { s.stub.info with methods := s.stub.info.methods ++ [entry] }
      ∧ e.stub.image = s.stub.image.addMethod image := by
  intro state
  unfold addMethod ClassInfo.addMethod Check.run
  dsimp only
  by_cases hfound : state.stub.info.hasMethod entry.name entry.descriptor = true
  · rw [if_pos hfound]
    exact ⟨.refl _, fun he => by cases he⟩
  · rw [if_neg hfound]
    exact ⟨.refl _, fun _ _ => ⟨rfl, rfl, rfl⟩⟩

namespace MethodDecl

/-- What follows once the modifiers are known. -/
def stubAs (mods : Modifiers) (inInterface : Bool) (method : MethodDecl) :
    Check StubState MethodDecl := do
  let signature ← onRegistry method.resolveSignature
  let broken := modifierError? mods method.body.isSome inInterface
  Check.reportAll (broken.toList.map fun message => .invalidModifiers message method.line)
  let exceptions ← Check.read fun state => exceptionNames state.registry signature.exceptions
  addMethod
    { name := method.name
      params := signature.params
      returnTy := signature.returnTy
      exceptions := signature.exceptions
      mods
      descriptor := signature.descriptor
      line := method.line }
    { mods
      name := method.name
      descriptor := signature.descriptor
      exceptions
      code := stubCode mods signature.returnTy }
  return { method with mods, signature := some signature, state := .stubbed }

theorem stub_eq (method : MethodDecl) : method.stub = (do
    let info ← StubState.info
    Check.reportAll (method.stubModifiers info.isInterface).2
    method.stubAs (method.stubModifiers info.isInterface).1 info.isInterface) := rfl

theorem stubAs_adds (mods : Modifiers) (inInterface : Bool) (method : MethodDecl)
    (habstract : inInterface = true → mods.isAbstract = true) :
    (method.stubAs mods inInterface).Grows last fun s out e =>
      s.Mirrors last → out.Proper ∧ s.Adds last [out] e := by
  unfold stubAs
  refine (grows_bind (grows_onRegistry method.resolveSignature_finds.grows) fun signature =>
    grows_bind (grows_reportAll _) fun _ => grows_bind (grows_read _) fun exceptions =>
    grows_bind (addMethod_grows_eq _ _) fun _ => grows_pure _).mono ?_
  rintro s _ _ ⟨signature, _, ⟨registry, rfl, hresolve⟩, _, _, ⟨rfl, hbroken⟩, exceptions, _,
    ⟨rfl, rfl⟩, _, e, ⟨hregistry, hinfo, himage⟩, rfl, rfl⟩ h
  obtain ⟨hclosed, hlast, hknown⟩ := hresolve h.closed
  have hnone : modifierError? mods method.body.isSome inInterface = none := by
    simpa using hbroken
  refine ⟨⟨rfl, hasBody_of_modifierError? hnone habstract⟩, ⟨hregistry ▸ hclosed, ?_⟩, ?_, ?_, ?_⟩
  · rw [hinfo, himage]
    exact h.shape
  · rw [hinfo]
  · rw [hinfo]
    rfl
  · rw [himage]
    dsimp only [ClassImage.addMethod, List.filterMap, stubImage?, Option.map]
    rw [exceptionNames_below hlast fun ty hty => hknown ty (signature.exceptions_subset hty)]

theorem stub_adds (method : MethodDecl) :
    method.stub.Grows last fun s out e => s.Mirrors last → out.Proper ∧ s.Adds last [out] e := by
  rw [stub_eq]
  refine (grows_bind (grows_read _) fun info => grows_bind (grows_reportAll _) fun _ =>
    stubAs_adds _ _ method fun hinterface => ?_).mono ?_
  · rw [hinterface]
    exact method.isAbstract_stubModifiers
  · rintro _ _ _ ⟨_, _, ⟨-, rfl⟩, _, _, ⟨rfl, -⟩, hstub⟩ h
    exact hstub h

end MethodDecl

/-! ## Members -/

theorem stubFields_adds (members : List Member) :
    (stubFields members).Grows last fun s out e => s.Mirrors last → s.Adds last [] e
      ∧ out.filterMap Member.method? = members.filterMap Member.method? := by
  induction members with
  | nil =>
    refine (grows_pure _).mono ?_
    rintro s _ _ ⟨rfl, rfl⟩ h
    exact ⟨.nil h rfl rfl, rfl⟩
  | cons first rest ih =>
    cases first with
    | field field =>
      refine (grows_bind (FieldDecl.stub_adds field) fun _ => grows_bind ih fun _ =>
        grows_pure _).mono ?_
      rintro s _ _ ⟨_, m, hone, out, e, hrest, rfl, rfl⟩ h
      have hadds := hone h
      obtain ⟨hadds', hout⟩ := hrest hadds.mirrors
      exact ⟨hadds.trans hadds', hout⟩
    | method method =>
      refine (grows_bind ih fun _ => grows_pure _).mono ?_
      rintro s _ _ ⟨out, e, hrest, rfl, rfl⟩ h
      obtain ⟨hadds, hout⟩ := hrest h
      exact ⟨hadds, congrArg (method :: ·) hout⟩

theorem stubMethods_adds (members : List Member) :
    (stubMethods members).Grows last fun s out e => s.Mirrors last →
      s.Adds last (out.filterMap Member.method?) e
        ∧ ∀ method ∈ out.filterMap Member.method?, method.Proper := by
  induction members with
  | nil =>
    refine (grows_pure _).mono ?_
    rintro s _ _ ⟨rfl, rfl⟩ h
    exact ⟨.nil h rfl rfl, fun _ hm => (List.not_mem_nil hm).elim⟩
  | cons first rest ih =>
    cases first with
    | field field =>
      refine (grows_bind ih fun _ => grows_pure _).mono ?_
      rintro s _ _ ⟨out, e, hrest, rfl, rfl⟩ h
      exact hrest h
    | method method =>
      refine (grows_bind (MethodDecl.stub_adds method) fun _ => grows_bind ih fun _ =>
        grows_pure _).mono ?_
      rintro s _ _ ⟨one, m, hone, out, e, hrest, rfl, rfl⟩ h
      obtain ⟨hproper, hadds⟩ := hone h
      obtain ⟨hadds', hproper'⟩ := hrest hadds.mirrors
      refine ⟨hadds.trans hadds', fun other hother => ?_⟩
      rcases List.mem_cons.mp hother with rfl | hother
      · exact hproper
      · exact hproper' other hother

theorem grows_modify {σ : Type} [Knows σ] {change : σ → σ}
    (h : ∀ s, Knows.registry (change s) = Knows.registry s) :
    (Check.modify change).Grows last fun s _ e => e = change s := by
  intro s
  refine ⟨?_, fun _ _ => rfl⟩
  rw [run_modify, h]
  exact .refl _

/-- All members of a class that starts without any. -/
theorem stubMembers_shows (options : Options) (members : List Member) :
    (stubMembers options members).Grows last fun s out e => s.Mirrors last →
      s.stub.info.methods = [] → s.stub.image.methods = [] →
      e.Mirrors last
        ∧ e.stub.info = { s.stub.info with
          fields := e.stub.info.fields, methods := e.stub.info.methods }
        ∧ e.stub.info.methods = (out.filterMap Member.method?).filterMap MethodDecl.entry?
        ∧ e.stub.image.methods = e.stub.info.constructors options last
          ++ (out.filterMap Member.method?).filterMap (MethodDecl.stubImage? last)
        ∧ ∀ method ∈ out.filterMap Member.method?, method.Proper := by
  unfold stubMembers
  refine (grows_bind (stubFields_adds members) fun fields => grows_bind (grows_modify fun s => ?_)
    fun _ => stubMethods_adds fields).mono ?_
  · dsimp only
    split <;> rfl
  rintro s out e ⟨fields, m, hfields, _, m', hmiddle, hmethods⟩ h hentries himages
  obtain ⟨hadds, -⟩ := hfields h
  -- the constructor comes between the fields and the methods, and only the stub gets it
  have hconstructor : m'.Mirrors last ∧ m'.stub.info = m.stub.info
      ∧ m'.stub.image.methods = m.stub.image.methods ++ m.stub.info.constructors options last := by
    have hsuper : m.stub.image.shape.superName = last.internalName m.stub.info.superclass := by
      rw [hadds.mirrors.shape]
      rfl
    unfold ClassInfo.constructors
    rw [hmiddle, ← hsuper]
    dsimp only
    split
    · exact ⟨⟨hadds.mirrors.closed, hadds.mirrors.shape⟩, rfl, rfl⟩
    · exact ⟨hadds.mirrors, rfl, (List.append_nil _).symm⟩
  obtain ⟨hmirrors, hinfo, hconstructors⟩ := hconstructor
  obtain ⟨hadds', hproper⟩ := hmethods hmirrors
  have hsame := hadds'.same
  rw [hinfo, hadds.same] at hsame
  have hkeep : e.stub.info.constructors options last = m.stub.info.constructors options last := by
    rw [hadds'.same, hinfo]
    rfl
  refine ⟨hadds'.mirrors, hsame, ?_, ?_, hproper⟩
  · rw [hadds'.entries, hinfo, hadds.entries, hentries]
    rfl
  · rw [hadds'.images, hconstructors, hadds.images, himages, hkeep]
    rfl

/-! ## Classes -/

/-- A declaration that was stubbed, its class and its stub. -/
structure ClassStub.Shows (options : Options) (last : Registry) (decl : ClassDecl)
    (stub : ClassStub) : Prop where
  ty : decl.ty = some stub.info.ty
  isInterface : stub.info.isInterface = decl.isInterface
  shape : stub.image.shape = stub.info.shape last
  entries : stub.info.methods = decl.methods.filterMap MethodDecl.entry?
  images : stub.image.methods = stub.info.constructors options last
    ++ decl.methods.filterMap (MethodDecl.stubImage? last)
  proper : ∀ method ∈ decl.methods, method.Proper

theorem ClassDecl.mirrors_outline {decl : ClassDecl} {ty superclass : Ty} {interfaces : List Ty}
    {registry : Registry} (hclosed : registry.Closed) (hlast : registry.Below last)
    (hknown : ∀ ty ∈ superclass :: interfaces, registry.contains ty = true) :
    StubState.Mirrors last ⟨registry, decl.outline ty superclass interfaces registry⟩ := by
  refine ⟨hclosed, ?_⟩
  have hsuper := hlast.internalName (hknown superclass List.mem_cons_self)
  have hinterfaces : interfaces.map registry.internalName = interfaces.map last.internalName :=
    List.map_congr_left fun ty hty =>
      (hlast.internalName (hknown ty (List.mem_cons_of_mem _ hty))).symm
  unfold outline ClassImage.shape ClassInfo.shape
  dsimp only
  rw [hsuper, hinterfaces]
  rfl

theorem ClassDecl.stub_shows (options : Options) {decl : ClassDecl} {ty : Ty}
    (hty : decl.ty = some ty) : (decl.stub options ty).Grows last fun s out e =>
      s.Closed → e.Closed ∧ out.2.Shows options last out.1 ∧ out.1.header = decl.header := by
  have hmembers : ∀ superclass interfaces, Grows last
      (fun registry : Registry =>
        let outlined := decl.outline ty superclass interfaces registry
        let done := (stubMembers options decl.members).run { registry, stub := outlined }
        ({ value := ({ decl with members := done.value }, done.state.stub)
           state := done.state.registry
           errors := done.errors } : Checked Registry (ClassDecl × ClassStub)))
      fun s out e => s.Closed → (∀ ty ∈ superclass :: interfaces, s.contains ty = true) →
        e.Closed ∧ out.2.Shows options last out.1 ∧ out.1.header = decl.header := by
    intro superclass interfaces s
    obtain ⟨hgrow, hrel⟩ := stubMembers_shows options decl.members
      ⟨s, decl.outline ty superclass interfaces s⟩
    refine ⟨hgrow, fun he hlast hclosed hknown => ?_⟩
    obtain ⟨hmirrors, hsame, hentries, himages, hproper⟩ := hrel he hlast
      (mirrors_outline hclosed (hgrow.trans hlast) hknown) rfl rfl
    refine ⟨hmirrors.closed, ⟨?_, congrArg ClassInfo.isInterface hsame, hmirrors.shape, ?_, ?_, ?_⟩,
      rfl⟩
    · have htys := congrArg ClassInfo.ty hsame
      exact hty.trans (congrArg some htys.symm)
    · rw [methods_eq]
      exact hentries
    · rw [methods_eq]
      exact himages
    · rw [methods_eq]
      exact hproper
  have hset : ∀ superclass interfaces, (Check.modify fun registry : Registry =>
      registry.setSupertypes ty (some superclass) interfaces).Grows last fun s _ e =>
        s.Below e ∧ e = s.setSupertypes ty (some superclass) interfaces := by
    intro superclass interfaces s
    have hbelow := Registry.below_setSupertypes s ty (some superclass) interfaces
    exact ⟨hbelow, fun _ _ => ⟨hbelow, rfl⟩⟩
  unfold stub
  refine (grows_bind decl.resolveSupertypes_finds.grows fun pair =>
    grows_bind (hset pair.1 pair.2) fun _ => hmembers pair.1 pair.2).mono ?_
  rintro s out e ⟨⟨superclass, interfaces⟩, m, hfound, _, _, ⟨hbelow, rfl⟩, hshows⟩ hclosed
  obtain ⟨hclosed', -, hknown⟩ := hfound hclosed
  exact hshows (hclosed'.setSupertypes ty hknown) fun ty hty => hbelow.contains (hknown ty hty)

theorem stubClasses_shows (options : Options) {decls : List ClassDecl}
    (h : ∀ decl ∈ decls, decl.ty.isSome = true) :
    (stubClasses options decls).Grows last fun s out e => s.Closed →
      e.Closed ∧ List.Forall₂ (fun decl stub => stub.Shows options last decl) out.1 out.2
        ∧ out.1.map ClassDecl.header = decls.map ClassDecl.header := by
  induction decls with
  | nil =>
    refine (grows_pure _).mono ?_
    rintro s _ _ ⟨rfl, rfl⟩ hclosed
    exact ⟨hclosed, .nil, rfl⟩
  | cons first rest ih =>
    obtain ⟨ty, hty⟩ := Option.isSome_iff_exists.mp (h first List.mem_cons_self)
    unfold stubClasses
    rw [hty]
    refine (grows_bind (ClassDecl.stub_shows options hty) fun one => grows_bind
      (ih fun decl hdecl => h decl (List.mem_cons_of_mem _ hdecl)) fun others =>
      grows_pure _).mono ?_
    rintro s _ _ ⟨⟨decl, stub⟩, m, hone, ⟨decls, stubs⟩, e, hrest, rfl, rfl⟩ hclosed
    obtain ⟨hclosed', hshows, hsame⟩ := hone hclosed
    obtain ⟨hclosed'', hall, hsames⟩ := hrest hclosed'
    refine ⟨hclosed'', .cons hshows hall, ?_⟩
    rw [List.map_cons, List.map_cons, ← hsames]
    exact congrArg (· :: _) hsame

/-! ## Analysis -/

/-- Methods that differ in what analysis finds out. -/
def MethodDecl.SameStub (before after : MethodDecl) : Prop :=
  ∃ body frame state, after = { before with body, frame, state }
    ∧ body.isSome = before.body.isSome

namespace MethodDecl.SameStub

variable {before after : MethodDecl}

theorem refl (method : MethodDecl) : method.SameStub method := ⟨_, _, _, rfl, rfl⟩

theorem proper (h : before.SameStub after) (hproper : before.Proper) : after.Proper := by
  obtain ⟨body, frame, state, rfl, hbody⟩ := h
  exact ⟨hproper.signature, hbody.trans hproper.body⟩

theorem entry? (h : before.SameStub after) : after.entry? = before.entry? := by
  obtain ⟨body, frame, state, rfl, -⟩ := h
  rfl

theorem stubImage? (h : before.SameStub after) (registry : Registry) :
    after.stubImage? registry = before.stubImage? registry := by
  obtain ⟨body, frame, state, rfl, -⟩ := h
  rfl

end MethodDecl.SameStub

theorem MethodDecl.check_sameStub (site : Site) (method : MethodDecl) :
    (method.check site).Gives method.SameStub := by
  intro registry
  cases hsignature : method.signature with
  | none =>
    unfold check Check.run
    rw [hsignature]
    exact .refl method
  | some signature =>
    rw [run_check site hsignature]
    have hbody : (method.checkBody site signature).Gives method.SameStub := by
      rw [checkBody_eq]
      refine gives_then fun _ => gives_bind (P := fun out => out.isSome = method.body.isSome)
        ?_ fun body hbody => gives_then fun frame => gives_pure ⟨_, _, _, rfl, hbody⟩
      cases method.body with
      | none => exact gives_pure rfl
      | some body => exact gives_map fun _ => rfl
    exact hbody _

theorem filterMap_congr_forall₂ {α β : Type} {R : α → α → Prop} {f : α → Option β} {l m : List α}
    (h : List.Forall₂ R l m) (hf : ∀ a b, R a b → f b = f a) : m.filterMap f = l.filterMap f := by
  induction h with
  | nil => rfl
  | cons hfirst _ ih => rw [List.filterMap_cons, List.filterMap_cons, hf _ _ hfirst, ih]

theorem ClassStub.Shows.check {options : Options} {before after : ClassDecl} {stub : ClassStub}
    (h : stub.Shows options last before) (hrel : before.Relates MethodDecl.SameStub after)
    (hheader : after.header = before.header) : stub.Shows options last after := by
  have hmethods := hrel.methods
  have hinterface := h.isInterface.trans (ClassDecl.isInterface_of_header hheader).symm
  refine ⟨(ClassDecl.ty_of_header hheader).trans h.ty, hinterface, h.shape, ?_, ?_, fun method hmethod => ?_⟩
  · rw [filterMap_congr_forall₂ hmethods fun _ _ hsame => hsame.entry?]
    exact h.entries
  · rw [filterMap_congr_forall₂ hmethods fun _ _ hsame => hsame.stubImage? last]
    exact h.images
  · obtain ⟨origin, horigin, hsame⟩ := exists_of_forall₂ hmethods hmethod
    exact hsame.proper (h.proper origin horigin)

/-! ## Units -/

theorem nodup_of_declareClasses {package : Option String} {seen : List String}
    {decls : List ClassDecl} {registry : Registry}
    (h : ((declareClasses package seen decls).run registry).errors = []) :
    (decls.map ClassDecl.name).Nodup ∧ ∀ decl ∈ decls, decl.name ∉ seen := by
  induction decls generalizing seen registry with
  | nil => exact ⟨List.nodup_nil, fun _ hdecl => (List.not_mem_nil hdecl).elim⟩
  | cons first rest ih =>
    unfold declareClasses at h
    simp only [run_bind, run_reportAll, run_pure, List.append_eq_nil_iff] at h
    obtain ⟨hfirst, -, hrest, -⟩ := h
    have hnew : first.name ∉ seen := by
      intro hmem
      rw [if_pos (List.contains_iff_mem.mpr hmem)] at hfirst
      cases hfirst
    obtain ⟨hnodup, hunseen⟩ := ih hrest
    refine ⟨List.nodup_cons.mpr ⟨fun hmem => ?_, hnodup⟩, fun decl hdecl => ?_⟩
    · obtain ⟨decl, hdecl, heq⟩ := List.mem_map.mp hmem
      exact hunseen decl hdecl (heq ▸ List.mem_cons_self)
    · rcases List.mem_cons.mp hdecl with rfl | hdecl
      · exact hnew
      · exact fun hmem => hunseen decl hdecl (List.mem_cons_of_mem _ hmem)

/-- Classes with different handles are found by them. -/
theorem ClassTable.class?_of_mem {table : ClassTable} {info : ClassInfo}
    (h : (table.classes.map ClassInfo.ty).Nodup) (hinfo : info ∈ table.classes) :
    table.class? info.ty = some info := by
  unfold class?
  generalize table.classes = classes at h hinfo
  induction classes with
  | nil => cases hinfo
  | cons first rest ih =>
    rw [List.map_cons, List.nodup_cons] at h
    rcases List.mem_cons.mp hinfo with rfl | hinfo
    · exact List.find?_cons_of_pos (beq_self_eq_true _)
    · rw [List.find?_cons_of_neg]
      · exact ih h.2 hinfo
      · rw [beq_iff_eq]
        exact fun heq => h.1 (heq ▸ List.mem_map_of_mem hinfo)

theorem ClassDecl.checkList_shows (classes : ClassTable) {decls : List ClassDecl} :
    (checkList classes decls).Grows last fun _ out _ => List.Forall₂ (fun before after =>
      before.Relates MethodDecl.SameStub after ∧ after.header = before.header) decls out := fun registry =>
  ⟨(checkList_grows apart_empty classes none decls registry).1, fun _ _ =>
    checkList_relates (fun site method _ => method.check_sameStub site) MethodDecl.SameStub.refl
      classes decls registry⟩

namespace Compiler

variable {compiler : Compiler} {unit : CompilationUnit}

theorem analyzeDeclared_shows (options : Options) (unit : CompilationUnit)
    {declared : List ClassDecl} (h : ∀ decl ∈ declared, decl.ty.isSome = true) :
    (analyzeDeclared options unit declared).Grows last fun s out _ => s.Closed →
      ∃ stubs, out.2 = { classes := stubTable unit.package stubs
                         images := stubs.map ClassStub.image }
        ∧ List.Forall₂ (fun decl stub => stub.Shows options last decl) out.1.types stubs
        ∧ out.1.types.map ClassDecl.header = declared.map ClassDecl.header := by
  unfold analyzeDeclared
  refine (grows_bind (stubClasses_shows options h) fun stubbed =>
    grows_bind (ClassDecl.checkList_shows _) fun types => grows_pure _).mono ?_
  rintro s _ _ ⟨⟨decls, stubs⟩, m, hstubbed, types, e, hchecked, rfl, rfl⟩ hclosed
  obtain ⟨-, hshows, hsame⟩ := hstubbed hclosed
  refine ⟨stubs, rfl, ?_, (map_eq_of_forall₂ hchecked fun _ _ hdecl => hdecl.2).trans hsame⟩
  exact forall₂_of_common (fun _ _ _ hdecl h => h.check hdecl.1 hdecl.2) hchecked hshows

theorem isSome_ty_declaredTypes : ∀ decl ∈ declaredTypes unit, decl.ty.isSome = true := by
  intro decl hdecl
  obtain ⟨given, -, rfl⟩ := List.mem_map.mp hdecl
  rfl

theorem declaredRegistry_below (compiler : Compiler) (unit : CompilationUnit) :
    (declaredRegistry unit compiler.registry).Below (compiler.analysis unit).state := by
  unfold analysis
  rw [state_analyze]
  exact (@analyzeDeclared_shows compiler.registry compiler.options unit _ isSome_ty_declaredTypes _).1

/-- An analysis without errors has a stub for every declaration, and a table with all of their
classes. -/
theorem analysis_stubs (hclosed : compiler.registry.Closed)
    (herrors : (compiler.analysis unit).errors = []) :
    ∃ stubs, (compiler.analysis unit).value.2 = { classes := stubTable unit.package stubs
                                                  images := stubs.map ClassStub.image }
      ∧ List.Forall₂ (fun decl stub =>
          stub.Shows compiler.options (compiler.analysis unit).state decl)
        (compiler.analysis unit).value.1.types stubs
      ∧ (compiler.analysis unit).value.1.types.map ClassDecl.header
        = (declaredTypes unit).map ClassDecl.header := by
  have hstart : (declaredRegistry unit compiler.registry).Closed :=
    (hclosed.importClasses _).declareClasses _ _ _
  have hbelow := Registry.Below.refl (compiler.analysis unit).state
  unfold analysis at herrors hbelow ⊢
  rw [errors_analyze, List.append_eq_nil_iff, List.append_eq_nil_iff] at herrors
  rw [value_analyze]
  rw [state_analyze] at hbelow ⊢
  exact (analyzeDeclared_shows compiler.options unit isSome_ty_declaredTypes
    (declaredRegistry unit compiler.registry)).2 herrors.2.2 hbelow hstart

theorem handles_declaredTypes {types : List ClassDecl}
    (h : types.map ClassDecl.header = (declaredTypes unit).map ClassDecl.header) :
    types.map ClassDecl.ty = (unit.types.map (ClassDecl.handle unit.package)).map some := by
  have htys := congrArg (List.map ClassDecl.ty) h
  unfold declaredTypes at htys
  simp only [List.map_map] at htys ⊢
  exact htys

/-- After an analysis without errors, every class of the unit is found at its handle. -/
theorem class?_analysis (hclosed : compiler.registry.Closed)
    (hnames : HandlesApart unit.declaredNames) (herrors : (compiler.analysis unit).errors = []) :
    ∀ info ∈ (compiler.analysis unit).value.2.classes.classes,
      (compiler.analysis unit).value.2.classes.class? info.ty = some info := by
  obtain ⟨stubs, hstubs, hshows, hheaders⟩ := analysis_stubs hclosed herrors
  have hstubTys : stubs.map (fun stub => stub.info.ty)
      = unit.types.map (ClassDecl.handle unit.package) := by
    have hshown := map_eq_of_forall₂ hshows (f := ClassDecl.ty)
      (g := fun stub => some stub.info.ty) fun _ _ h => h.ty.symm
    refine List.map_injective_iff.mpr (fun _ _ h => Option.some.inj h) ?_
    rw [List.map_map]
    exact hshown.trans (handles_declaredTypes hheaders)
  have hnodup : ((stubTable unit.package stubs).classes.map ClassInfo.ty).Nodup := by
    unfold analysis at herrors
    rw [errors_analyze, List.append_eq_nil_iff, List.append_eq_nil_iff] at herrors
    have hhandles := CompilationUnit.nodup_handles (nodup_of_declareClasses herrors.2.1).1 hnames
    rw [classes_stubTable, List.map_reverse, List.nodup_reverse, List.map_map]
    exact hstubTys ▸ hhandles
  rw [hstubs]
  exact fun info hinfo => ClassTable.class?_of_mem hnodup hinfo

/-- After an analysis without errors, a class of the unit is found at its handle, and its stub and its
declaration show what it has. -/
theorem analysis_shows (hclosed : compiler.registry.Closed)
    (hnames : HandlesApart unit.declaredNames) (herrors : (compiler.analysis unit).errors = []) :
    ∃ stubs, (compiler.analysis unit).value.2.images = stubs.map ClassStub.image
      ∧ List.Forall₂ (fun decl stub =>
          stub.Shows compiler.options (compiler.analysis unit).state decl
            ∧ (compiler.analysis unit).value.2.classes.class? stub.info.ty = some stub.info)
        (compiler.analysis unit).value.1.types stubs := by
  obtain ⟨stubs, hstubs, hshows, -⟩ := analysis_stubs hclosed herrors
  have hclass := class?_analysis hclosed hnames herrors
  rw [hstubs] at hclass ⊢
  refine ⟨stubs, rfl, List.forall₂_iff_zip.mpr ⟨hshows.length_eq, fun hmem =>
    ⟨List.forall₂_zip hshows hmem, hclass _ ?_⟩⟩⟩
  rw [classes_stubTable, List.mem_reverse]
  exact List.mem_map_of_mem (List.of_mem_zip hmem).2

end Compiler

/-! ## Final classes -/

section

variable {registry : Registry}

/-- The members that a class gets when it is generated. -/
theorem generateMembers_shape {members : List Member} {image final : ClassImage}
    (h : (generateMembers registry members image).2 = .ok final) :
    final.shape = image.shape ∧ ∃ made, final.methods = image.methods ++ made
      ∧ List.Forall₂ (MethodDecl.Becomes registry) (members.filterMap Member.method?) made := by
  induction members generalizing image with
  | nil =>
    cases h
    exact ⟨rfl, [], (List.append_nil _).symm, .nil⟩
  | cons first rest ih =>
    cases first with
    | field decl => exact ih h
    | method decl =>
      unfold generateMembers at h
      split at h
      · cases h
      · next made after hmade =>
        obtain ⟨hshape, others, hmethods, hbecome⟩ := ih h
        refine ⟨hshape, made :: others, ?_, .cons ⟨after, hmade⟩ hbecome⟩
        rw [hmethods, List.append_cons]
        rfl

/-- A class is generated in the shape of its stub. -/
theorem ClassStub.Shows.generate {options : Options} {decl : ClassDecl} {stub : ClassStub}
    {classes : ClassTable} {image : ClassImage} (h : stub.Shows options last decl)
    (hclass : classes.class? stub.info.ty = some stub.info)
    (hok : (decl.generate options last classes).2 = .ok image) :
    image.shape = stub.image.shape ∧ ∃ made, image.methods = stub.info.constructors options last ++ made
      ∧ List.Forall₂ (MethodDecl.Becomes last) decl.methods made := by
  have hfound : decl.ty.bind classes.class? = some stub.info := by
    rw [h.ty]
    exact hclass
  unfold ClassDecl.generate at hok
  rw [hfound] at hok
  obtain ⟨hshape, made, hmethods, hbecome⟩ := generateMembers_shape hok
  rw [ClassInfo.shape_outline] at hshape
  rw [ClassInfo.methods_outline] at hmethods
  exact ⟨hshape.trans h.shape.symm, made, hmethods, decl.methods_eq ▸ hbecome⟩

theorem MethodDecl.Becomes.image_eq {method : MethodDecl} {image : MethodImage}
    (h : method.Becomes registry image) : ∃ signature, method.signature = some signature
      ∧ (((method.bodyCode { registry, returnTy := signature.returnTy }).run 0).result = .ok ())
      ∧ image = { mods := method.mods
                  name := method.name
                  descriptor := signature.descriptor
                  exceptions := exceptionNames registry signature.exceptions
                  code := ((method.bodyCode { registry, returnTy := signature.returnTy }).run 0).code } := by
  obtain ⟨after, h⟩ := h
  have hstate := (MethodDecl.generate_ok h).1
  unfold generate attempt header at h
  rw [hstate] at h
  cases hsignature : method.signature with
  | none =>
    rw [hsignature] at h
    cases h
  | some signature =>
    rw [hsignature] at h
    simp only [Except.map, bind, Except.bind] at h
    split at h
    · cases h
    · next done hdone =>
      cases h
      exact ⟨signature, rfl, hdone, rfl⟩

end

end ClassCompiler
