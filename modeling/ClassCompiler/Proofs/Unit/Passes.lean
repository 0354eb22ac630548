import ClassCompiler.Proofs.Unit.Classes
import ClassCompiler.Proofs.Unit.Closed
import ClassCompiler.Proofs.Unit.Methods
import Mathlib.Data.List.Forall2

/-!
# What a pass does to a unit

Each pass changes a unit method by method, whatever it reports and whatever was done before: the
classes keep their names and their order, and the members of a class stay in their places. What a
pass may do to one method is a relation on methods; all that is known of a unit after the pass
follows from it.

* `CompilationUnit.Relates`: a unit before and after a change of its methods
* `CompilationUnit.stub_relates`, `CompilationUnit.check_relates`,
  `CompilationUnit.generate_relates`: the three passes
* `CompilationUnit.generate_ok`: a generation that gives classes
-/

namespace ClassCompiler

open Check

/-! ## Changes method by method -/

/-- A member before and after a change. What happens to a field does not matter. -/
inductive Member.Relates (R : MethodDecl → MethodDecl → Prop) : Member → Member → Prop
  | field (before after : FieldDecl) : Relates R (.field before) (.field after)
  | method {before after : MethodDecl} (h : R before after) :
      Relates R (.method before) (.method after)

/-- A declaration without its members. -/
def ClassDecl.header (decl : ClassDecl) : ClassDecl := { decl with members := [] }

section

variable {one two : ClassDecl} (h : one.header = two.header)

include h

theorem ClassDecl.ty_of_header : one.ty = two.ty := by
  have hty := congrArg ClassDecl.ty h
  exact hty

theorem ClassDecl.name_of_header : one.name = two.name := by
  have hname := congrArg ClassDecl.name h
  exact hname

theorem ClassDecl.isInterface_of_header : one.isInterface = two.isInterface := by
  have hinterface := congrArg ClassDecl.isInterface h
  exact hinterface

end

structure ClassDecl.Relates (R : MethodDecl → MethodDecl → Prop) (before after : ClassDecl) :
    Prop where
  name : after.name = before.name
  members : List.Forall₂ (Member.Relates R) before.members after.members

structure CompilationUnit.Relates (R : MethodDecl → MethodDecl → Prop)
    (before after : CompilationUnit) : Prop where
  package : after.package = before.package
  types : List.Forall₂ (ClassDecl.Relates R) before.types after.types

variable {R : MethodDecl → MethodDecl → Prop}

theorem Member.relates_self (hrefl : ∀ method, R method method) (member : Member) :
    member.Relates R member := by
  cases member with
  | field decl => exact .field decl decl
  | method decl => exact .method (hrefl decl)

theorem ClassDecl.relates_self (hrefl : ∀ method, R method method) (decl : ClassDecl) :
    decl.Relates R decl :=
  ⟨rfl, List.forall₂_same.mpr fun member _ => member.relates_self hrefl⟩

theorem relates_of_eq {one two three : List Member}
    (h : List.Forall₂ (Member.Relates Eq) one two)
    (h' : List.Forall₂ (Member.Relates R) two three) :
    List.Forall₂ (Member.Relates R) one three := by
  induction h generalizing three with
  | nil => exact h'
  | cons hfirst _ ih =>
    cases h' with
    | cons hfirst' hrest' =>
      refine .cons ?_ (ih hrest')
      cases hfirst with
      | field before after =>
        cases hfirst'
        exact .field _ _
      | method heq =>
        rw [heq]
        exact hfirst'

theorem ClassDecl.Relates.methods {before after : ClassDecl} (h : before.Relates R after) :
    List.Forall₂ R before.methods after.methods := by
  unfold ClassDecl.methods
  refine List.rel_filterMap (fun one two hmember => ?_) h.members
  cases hmember with
  | field => exact .none
  | method hmethod => exact .some hmethod

namespace CompilationUnit.Relates

variable {before after : CompilationUnit}

theorem methods (h : before.Relates R after) : List.Forall₂ R before.methods after.methods :=
  List.rel_flatMap h.types fun _ _ hdecl => hdecl.methods

theorem length_methods (h : before.Relates R after) :
    after.methods.length = before.methods.length := h.methods.length_eq.symm

/-- What every change of a method leads to, holds of all methods afterwards. -/
theorem forall_methods (h : before.Relates R after) {P Q : MethodDecl → Prop}
    (hstep : ∀ one two, R one two → P one → Q two) (hbefore : ∀ method ∈ before.methods, P method) :
    ∀ method ∈ after.methods, Q method := by
  intro method hmethod
  obtain ⟨origin, horigin, hrel⟩ := exists_of_forall₂ h.methods hmethod
  exact hstep origin method hrel (hbefore origin horigin)

theorem declaredNames (h : before.Relates R after) : after.declaredNames = before.declaredNames := by
  unfold CompilationUnit.declaredNames
  refine map_eq_of_forall₂ h.types fun one two hdecl => ?_
  unfold ClassDecl.internalName
  rw [h.package, hdecl.name]

end CompilationUnit.Relates

/-! ## Stubs -/

theorem stubFields_relates (members : List Member) :
    (stubFields members).Gives (List.Forall₂ (Member.Relates Eq) members) := by
  induction members with
  | nil => exact gives_pure .nil
  | cons first rest ih =>
    cases first with
    | field field =>
      exact gives_then fun after => gives_bind ih fun out hout =>
        gives_pure (.cons (.field field after) hout)
    | method method =>
      exact gives_bind ih fun out hout => gives_pure (.cons (.method rfl) hout)

section

variable (hstub : ∀ method : MethodDecl, method.stub.Gives (R method))

include hstub

theorem stubMethods_relates (members : List Member) :
    (stubMethods members).Gives (List.Forall₂ (Member.Relates R) members) := by
  induction members with
  | nil => exact gives_pure .nil
  | cons first rest ih =>
    cases first with
    | field field =>
      exact gives_bind ih fun out hout => gives_pure (.cons (.field field field) hout)
    | method method =>
      exact gives_bind (hstub method) fun one hone => gives_bind ih fun out hout =>
        gives_pure (.cons (.method hone) hout)

theorem ClassDecl.stub_relates (options : Options) (ty : Ty) (decl : ClassDecl) :
    (decl.stub options ty).Gives fun out => decl.Relates R out.1 ∧ out.1.ty = decl.ty := by
  have hmembers : (stubMembers options decl.members).Gives
      (List.Forall₂ (Member.Relates R) decl.members) :=
    gives_bind (stubFields_relates decl.members) fun fields hfields => gives_then fun _ =>
      (stubMethods_relates hstub fields).mono fun out hout => relates_of_eq hfields hout
  unfold stub
  exact gives_then fun supertypes => gives_then fun _ state => ⟨⟨rfl, hmembers _⟩, rfl⟩

/-- Stubs of declared classes. -/
theorem stubClasses_relates (options : Options) {decls : List ClassDecl}
    (h : ∀ decl ∈ decls, decl.ty.isSome = true) :
    (stubClasses options decls).Gives fun out => List.Forall₂ (fun before after =>
      before.Relates R after ∧ after.ty = before.ty) decls out.1 := by
  induction decls with
  | nil => exact gives_pure .nil
  | cons first rest ih =>
    obtain ⟨ty, hty⟩ := Option.isSome_iff_exists.mp (h first List.mem_cons_self)
    unfold stubClasses
    rw [hty]
    exact gives_bind (ClassDecl.stub_relates hstub options ty first) fun one hone =>
      gives_bind (ih fun decl hdecl => h decl (List.mem_cons_of_mem _ hdecl)) fun out hout =>
      gives_pure (.cons hone hout)

end

theorem CompilationUnit.value_stub (options : Options) (unit : CompilationUnit)
    (registry : Registry) :
    ((unit.stub options).run registry).value
      = let done := (stubClasses options (Compiler.declaredTypes unit)).run
          (Compiler.declaredRegistry unit registry)
        ({ unit with types := done.value.1 },
          { classes := stubTable unit.package done.value.2
            images := done.value.2.map ClassStub.image }) := by
  unfold stub
  rw [run_bind, run_bind, value_declareClasses]
  rfl

/-- After a pass over stubs every method is stubbed. -/
theorem CompilationUnit.stub_relates (options : Options) (unit : CompilationUnit)
    (registry : Registry) :
    unit.Relates (fun _ after => after.state = .stubbed)
        ((unit.stub options).run registry).value.1
      ∧ ∀ decl ∈ ((unit.stub options).run registry).value.1.types,
        decl.ty = some (decl.handle unit.package) := by
  have hdeclared : ∀ decl ∈ Compiler.declaredTypes unit, decl.ty.isSome = true := by
    intro decl hdecl
    obtain ⟨given, -, rfl⟩ := List.mem_map.mp hdecl
    rfl
  have hclasses := stubClasses_relates
    (fun method => (method.stub_gives).mono fun _ hone => hone.isStubbed) options hdeclared
    (Compiler.declaredRegistry unit registry)
  rw [value_stub]
  refine ⟨⟨rfl, ?_⟩, fun decl hdecl => ?_⟩
  · exact (List.forall₂_map_left_iff.mp hclasses).imp fun before after h =>
      ⟨h.1.name, h.1.members⟩
  · obtain ⟨origin, horigin, hrel, hty⟩ := exists_of_forall₂ hclasses hdecl
    obtain ⟨given, -, rfl⟩ := List.mem_map.mp horigin
    rw [hty]
    unfold ClassDecl.handle ClassDecl.internalName
    rw [hrel.name]

/-! ## Names of stubs -/

/-- The handle has an entry under one of the names, and it is the handle of that name. -/
def Registry.Names (registry : Registry) (names : List String) (ty : Ty) : Prop :=
  ∃ entry, registry.get? ty = some entry ∧ entry.internalName ∈ names
    ∧ Ty.named entry.internalName = ty

theorem Registry.Names.below {small large : Registry} {names : List String} {ty : Ty}
    (h : small.Names names ty) (hbelow : small.Below large) : large.Names names ty := by
  obtain ⟨entry, hentry, hname, hty⟩ := h
  obtain ⟨later, hlater, heq, -⟩ := hbelow.entries ty entry hentry
  exact ⟨later, hlater, by rwa [heq], by rwa [heq]⟩

section

variable {package : Option String} {names : List String}

theorem ClassDecl.names_declare (registry : Registry) {decl : ClassDecl} (hdecl : decl.internalName package ∈ names) :
    ((decl.declare package).run registry).state.Names names (decl.handle package)
      ∧ ∀ ty, registry.Names names ty → ((decl.declare package).run registry).state.Names names ty := by
  unfold Registry.Names
  constructor
  · rw [get?_declare, handle, if_pos rfl]
    exact ⟨_, rfl, hdecl, rfl⟩
  · rintro ty ⟨entry, hentry, hname, hty⟩
    rw [get?_declare]
    split
    · next heq => exact ⟨_, rfl, hdecl, heq.symm⟩
    · exact ⟨entry, hentry, hname, hty⟩

theorem declareClasses_names (registry : Registry) (seen : List String) {decls : List ClassDecl}
    (hnames : ∀ decl ∈ decls, decl.internalName package ∈ names) :
    (∀ decl ∈ decls, ((declareClasses package seen decls).run registry).state.Names names
        (decl.handle package))
      ∧ ∀ ty, registry.Names names ty →
        ((declareClasses package seen decls).run registry).state.Names names ty := by
  induction decls generalizing seen registry with
  | nil => exact ⟨fun _ h => (List.not_mem_nil h).elim, fun _ h => h⟩
  | cons first rest ih =>
    obtain ⟨hown, hkeeps⟩ := ClassDecl.names_declare registry (hnames first List.mem_cons_self)
    obtain ⟨hrest, hkeeps'⟩ := ih ((first.declare package).run registry).state (first.name :: seen)
      fun decl hdecl => hnames decl (List.mem_cons_of_mem _ hdecl)
    rw [run_declareClasses_cons]
    refine ⟨fun decl hdecl => ?_, fun ty hty => hkeeps' ty (hkeeps ty hty)⟩
    rcases List.mem_cons.mp hdecl with rfl | hdecl
    · exact hkeeps' _ hown
    · exact hrest decl hdecl

end

/-! ### Members leave the name of their class alone -/

namespace StubState

def SameClass (before after : StubState) : Prop :=
  after.stub.info.ty = before.stub.info.ty
    ∧ after.stub.info.internalName = before.stub.info.internalName

instance : IsPreorder StubState SameClass where
  refl _ := ⟨rfl, rfl⟩
  trans _ _ _ h h' := ⟨h'.1.trans h.1, h'.2.trans h.2⟩

theorem onRegistry_same {α : Type} (step : Check Registry α) :
    (onRegistry step).Keeps SameClass := fun _ => ⟨rfl, rfl⟩

theorem addField_same (field : FieldEntry) (descriptor : String) :
    (addField field descriptor).Keeps SameClass := by
  intro state
  unfold addField ClassInfo.addField Check.run
  dsimp only
  by_cases hfound : (state.stub.info.field? field.name).isSome = true
  · rw [if_pos hfound]
    exact ⟨rfl, rfl⟩
  · rw [if_neg hfound]
    exact ⟨rfl, rfl⟩

theorem addMethod_same (method : MethodEntry) (image : MethodImage) :
    (addMethod method image).Keeps SameClass := by
  intro state
  unfold addMethod ClassInfo.addMethod Check.run
  dsimp only
  by_cases hfound : state.stub.info.hasMethod method.name method.descriptor = true
  · rw [if_pos hfound]
    exact ⟨rfl, rfl⟩
  · rw [if_neg hfound]
    exact ⟨rfl, rfl⟩

end StubState

open StubState

theorem FieldDecl.stub_same (field : FieldDecl) : field.stub.Keeps SameClass := by
  have hnames : ∀ (make : String → FieldEntry) (descriptor : String) (names : List String),
      (names.forM fun name => addField (make name) descriptor).Keeps SameClass := by
    intro make descriptor names
    induction names with
    | nil => exact keeps_pure _
    | cons first rest ih => exact keeps_bind (addField_same _ _) fun _ => ih
  unfold stub
  exact keeps_bind (onRegistry_same _) fun ty => keeps_bind (keeps_read _) fun info =>
    keeps_bind (keeps_read _) fun descriptor => keeps_bind (hnames _ _ _) fun _ => keeps_pure _

theorem MethodDecl.stub_same (method : MethodDecl) : method.stub.Keeps SameClass := by
  unfold stub
  exact keeps_bind (keeps_read _) fun info => keeps_bind (keeps_of_state_eq fun _ => rfl) fun _ =>
    keeps_bind (onRegistry_same _) fun signature => keeps_bind (keeps_of_state_eq fun _ => rfl)
    fun _ => keeps_bind (keeps_read _) fun exceptions => keeps_bind (addMethod_same _ _) fun _ =>
    keeps_pure _

theorem stubFields_same (members : List Member) : (stubFields members).Keeps SameClass := by
  induction members with
  | nil => exact keeps_pure _
  | cons first rest ih =>
    cases first with
    | field field =>
      exact keeps_bind (FieldDecl.stub_same field) fun _ => keeps_bind ih fun _ => keeps_pure _
    | method method => exact keeps_bind ih fun _ => keeps_pure _

theorem stubMethods_same (members : List Member) : (stubMethods members).Keeps SameClass := by
  induction members with
  | nil => exact keeps_pure _
  | cons first rest ih =>
    cases first with
    | field field => exact keeps_bind ih fun _ => keeps_pure _
    | method method =>
      exact keeps_bind (MethodDecl.stub_same method) fun _ => keeps_bind ih fun _ => keeps_pure _

theorem stubMembers_same (options : Options) (members : List Member) :
    (stubMembers options members).Keeps SameClass := by
  refine keeps_bind (stubFields_same members) fun fields =>
    keeps_bind (fun state => ?_) fun _ => stubMethods_same fields
  show state.SameClass (if hasImplicitConstructor options state.stub.info then _ else _)
  split <;> exact ⟨rfl, rfl⟩

/-! ### Classes under their names -/

/-- A class of a table that has the handle of its name, which is one of the given names. -/
structure ClassInfo.Named (names : List String) (info : ClassInfo) : Prop where
  mem : info.internalName ∈ names
  ty : info.ty = Ty.named info.internalName

theorem apart_empty : Registry.empty.Apart := by
  intro ty h
  cases h

theorem ClassDecl.stub_named (options : Options) {ty : Ty} (decl : ClassDecl)
    {registry : Registry} {names : List String} (h : registry.Names names ty) :
    ((decl.stub options ty).run registry).value.2.info.Named names
      ∧ registry.Below ((decl.stub options ty).run registry).state := by
  have hsupertypes := (ClassDecl.resolveSupertypes_grows apart_empty decl registry).1
  unfold stub
  rw [run_bind]
  generalize (decl.resolveSupertypes.run registry) = found at hsupertypes ⊢
  have hset : registry.Below (found.state.setSupertypes ty (some found.value.1) found.value.2) :=
    hsupertypes.trans (Registry.below_setSupertypes _ ty _ _)
  generalize hlater : found.state.setSupertypes ty (some found.value.1) found.value.2 = later at hset
  obtain ⟨entry, hentry, hname, hty⟩ := h.below hset
  have hsame := stubMembers_same options decl.members
    ⟨later, decl.outline ty found.value.1 found.value.2 later⟩
  have hgrows := (stubMembers_grows apart_empty options decl.members
    ⟨later, decl.outline ty found.value.1 found.value.2 later⟩).1
  have hinternal : later.internalName ty = entry.internalName := by
    unfold Registry.internalName
    rw [hentry]
    rfl
  obtain ⟨hinfoTy, hinfoName⟩ := hsame
  have hinfoName' := hinfoName.trans hinternal
  subst hlater
  refine ⟨⟨?_, ?_⟩, hset.trans hgrows⟩
  · exact hinfoName' ▸ hname
  · exact hinfoTy.trans (hty.symm.trans (congrArg Ty.named hinfoName'.symm))

theorem stubClasses_named (options : Options) {names : List String} {decls : List ClassDecl}
    {registry : Registry}
    (h : ∀ decl ∈ decls, ∃ ty, decl.ty = some ty ∧ registry.Names names ty) :
    ∀ stub ∈ ((stubClasses options decls).run registry).value.2, stub.info.Named names := by
  induction decls generalizing registry with
  | nil => exact fun _ hstub => (List.not_mem_nil hstub).elim
  | cons first rest ih =>
    obtain ⟨ty, hty, hnames⟩ := h first List.mem_cons_self
    obtain ⟨hfirst, hbelow⟩ := first.stub_named options hnames
    have hlater : ∀ decl ∈ rest, ∃ ty', decl.ty = some ty'
        ∧ ((first.stub options ty).run registry).state.Names names ty' := by
      intro decl hdecl
      obtain ⟨ty', hty', hnames'⟩ := h decl (List.mem_cons_of_mem _ hdecl)
      exact ⟨ty', hty', hnames'.below hbelow⟩
    have hrest := ih hlater
    unfold stubClasses
    rw [hty]
    intro stub hstub
    rcases List.mem_cons.mp hstub with rfl | hstub
    · exact hfirst
    · exact hrest stub hstub

theorem CompilationUnit.stub_named (options : Options) (unit : CompilationUnit)
    (registry : Registry) :
    ∀ info ∈ ((unit.stub options).run registry).value.2.classes.classes,
      info.Named unit.declaredNames := by
  have hdeclared : ∀ decl ∈ Compiler.declaredTypes unit, ∃ ty, decl.ty = some ty
      ∧ (Compiler.declaredRegistry unit registry).Names unit.declaredNames ty := by
    intro decl hdecl
    obtain ⟨given, hgiven, rfl⟩ := List.mem_map.mp hdecl
    exact ⟨_, rfl, (declareClasses_names _ _ fun other hother =>
      List.mem_map.mpr ⟨other, hother, rfl⟩).1 given hgiven⟩
  intro info hinfo
  rw [value_stub] at hinfo
  rw [classes_stubTable, List.mem_reverse] at hinfo
  obtain ⟨stub, hstub, rfl⟩ := List.mem_map.mp hinfo
  exact stubClasses_named options hdeclared stub hstub

/-! ## Bodies -/

/-- A pass over bodies changes stubbed methods alone. -/
def MethodDecl.MayCheck (before after : MethodDecl) : Prop :=
  before.state = .stubbed ∨ after = before

section

variable (hcheck : ∀ (site : Site) (method : MethodDecl), method.state = .stubbed →
    (method.check site).Gives (R method)) (hrefl : ∀ method, R method method)

include hcheck hrefl

theorem Member.checkList_relates (site : Site) (members : List Member) :
    (checkList site members).Gives (List.Forall₂ (Member.Relates R) members) := by
  induction members with
  | nil => exact gives_pure .nil
  | cons first rest ih =>
    refine gives_bind (P := fun out => first.Relates R out) ?_ fun one hone =>
      gives_bind ih fun out hout => gives_pure (.cons hone hout)
    cases first with
    | field field => exact gives_pure (.field field field)
    | method method =>
      by_cases hstate : method.state = .stubbed
      · have hmember : Member.check site (.method method) = .method <$> method.check site :=
          if_pos hstate
        rw [hmember]
        exact gives_map ((hcheck site method hstate).mono fun _ hrel => .method hrel)
      · have hmember : Member.check site (.method method) = pure (.method method) :=
          if_neg hstate
        rw [hmember]
        exact gives_pure (.method (hrefl method))

theorem ClassDecl.checkList_relates (classes : ClassTable) (decls : List ClassDecl) :
    (checkList classes decls).Gives fun out => List.Forall₂ (fun before after =>
      before.Relates R after ∧ after.header = before.header) decls out := by
  induction decls with
  | nil => exact gives_pure .nil
  | cons first rest ih =>
    refine gives_bind (P := fun out => first.Relates R out ∧ out.header = first.header)
      ?_ fun one hone => gives_bind ih fun out hout => gives_pure (.cons hone hout)
    unfold check
    split
    · exact gives_pure ⟨first.relates_self hrefl, rfl⟩
    · exact gives_bind (Member.checkList_relates hcheck hrefl _ _) fun members hmembers =>
        gives_pure ⟨⟨rfl, hmembers⟩, rfl⟩

end

/-- The handles of two lists of classes, one by one. -/
theorem forall_ty_of_forall₂ {before after : List ClassDecl} {package : Option String}
    (h : List.Forall₂ (fun one two => one.Relates R two ∧ two.ty = one.ty) before after)
    (hty : ∀ decl ∈ before, decl.ty = some (decl.handle package)) :
    ∀ decl ∈ after, decl.ty = some (decl.handle package) := by
  intro decl hdecl
  obtain ⟨origin, horigin, hrel, heq⟩ := exists_of_forall₂ h hdecl
  rw [heq, hty origin horigin]
  unfold ClassDecl.handle ClassDecl.internalName
  rw [hrel.name]

theorem CompilationUnit.check_relates (classes : ClassTable) (unit : CompilationUnit)
    (registry : Registry) :
    unit.Relates MethodDecl.MayCheck ((unit.check classes).run registry).value
      ∧ ∀ package, (∀ decl ∈ unit.types, decl.ty = some (decl.handle package)) →
        ∀ decl ∈ ((unit.check classes).run registry).value.types,
          decl.ty = some (decl.handle package) := by
  have h := ClassDecl.checkList_relates (R := MethodDecl.MayCheck)
    (fun _ _ hstate _ => .inl hstate) (fun _ => .inr rfl) classes unit.types registry
  exact ⟨⟨rfl, h.imp fun _ _ hdecl => hdecl.1⟩, fun package hty => forall_ty_of_forall₂
    (h.imp fun _ _ hdecl => ⟨hdecl.1, ClassDecl.ty_of_header hdecl.2⟩) hty⟩

/-! ## Classes -/

/-- A pass over classes generates analyzed methods and changes no other. -/
def MethodDecl.MayGenerate (before after : MethodDecl) : Prop :=
  before.state = .analyzed ∧ after.state = .generated ∨ after = before

theorem MethodDecl.generate_ok {registry : Registry} {method after : MethodDecl}
    {image : MethodImage} (h : method.generate registry = .ok (image, after)) :
    method.state = .analyzed ∧ after.state = .generated := by
  cases hstate : method.state with
  | analyzed =>
    refine ⟨rfl, ?_⟩
    unfold MethodDecl.generate at h
    cases hattempt : method.attempt registry with
    | error error =>
      rw [hattempt] at h
      cases h
    | ok made =>
      obtain ⟨header, result⟩ := made
      rw [hattempt] at h
      cases result with
      | error error => cases h
      | ok done =>
        cases h
        rfl
  | unresolved | stubbed | generated =>
    unfold MethodDecl.generate MethodDecl.attempt MethodDecl.header at h
    rw [hstate] at h
    cases h

section

variable (registry : Registry)

theorem generateMembers_relates (members : List Member) (image : ClassImage) :
    List.Forall₂ (Member.Relates MethodDecl.MayGenerate) members
      (generateMembers registry members image).1 := by
  induction members generalizing image with
  | nil => exact .nil
  | cons first rest ih =>
    cases first with
    | field field => exact .cons (.field field field) (ih image)
    | method method =>
      unfold generateMembers
      split
      · exact List.forall₂_same.mpr fun member _ => member.relates_self fun _ => .inr rfl
      · next made after hmade =>
        exact .cons (.method (.inl (MethodDecl.generate_ok hmade))) (ih _)

theorem generateMembers_done {members : List Member} {image final : ClassImage}
    (h : (generateMembers registry members image).2 = .ok final) :
    List.Forall₂ (Member.Relates fun before after =>
        before.state = .analyzed ∧ after.state = .generated) members
        (generateMembers registry members image).1
      ∧ final.name = image.name := by
  induction members generalizing image with
  | nil =>
    cases h
    exact ⟨.nil, rfl⟩
  | cons first rest ih =>
    cases first with
    | field field =>
      obtain ⟨hrest, hname⟩ := ih h
      exact ⟨.cons (.field field field) hrest, hname⟩
    | method method =>
      unfold generateMembers at h ⊢
      cases hmade : method.generate registry with
      | error error =>
        rw [hmade] at h
        cases h
      | ok made =>
        obtain ⟨methodImage, after⟩ := made
        rw [hmade] at h
        obtain ⟨hrest, hname⟩ := ih h
        exact ⟨.cons (.method (MethodDecl.generate_ok hmade)) hrest, hname⟩

variable (options : Options) (classes : ClassTable)

theorem ClassDecl.generate_relates (decl : ClassDecl) :
    decl.Relates MethodDecl.MayGenerate (decl.generate options registry classes).1
      ∧ (decl.generate options registry classes).1.ty = decl.ty := by
  unfold ClassDecl.generate
  split
  · exact ⟨decl.relates_self fun _ => .inr rfl, rfl⟩
  · next info _ => exact ⟨⟨rfl, generateMembers_relates registry _ _⟩, rfl⟩

theorem generateClasses_relates (decls : List ClassDecl) :
    List.Forall₂ (fun before after => before.Relates MethodDecl.MayGenerate after
      ∧ after.ty = before.ty) decls (generateClasses options registry classes decls).1 := by
  induction decls with
  | nil => exact .nil
  | cons first rest ih =>
    have hfirst := first.generate_relates registry options classes
    unfold generateClasses
    split
    · next after error hmade =>
      rw [hmade] at hfirst
      exact .cons hfirst (List.forall₂_same.mpr fun decl _ =>
        ⟨decl.relates_self fun _ => .inr rfl, rfl⟩)
    · next after image hmade =>
      rw [hmade] at hfirst
      exact .cons hfirst ih

theorem CompilationUnit.generate_relates (unit : CompilationUnit) :
    unit.Relates MethodDecl.MayGenerate (unit.generate options registry classes).1
      ∧ ∀ package, (∀ decl ∈ unit.types, decl.ty = some (decl.handle package)) →
        ∀ decl ∈ (unit.generate options registry classes).1.types,
          decl.ty = some (decl.handle package) := by
  have h := generateClasses_relates registry options classes unit.types
  exact ⟨⟨rfl, h.imp fun _ _ hdecl => hdecl.1⟩, fun package hty => forall_ty_of_forall₂ h hty⟩

/-- The image has the name of the class that the table has for the declaration. -/
def ClassDecl.Makes (classes : ClassTable) (decl : ClassDecl) (image : ClassImage) : Prop :=
  ∃ info, decl.ty.bind classes.class? = some info ∧ image.name = info.internalName

variable {registry options classes}

theorem ClassDecl.generate_ok {decl : ClassDecl} {image : ClassImage}
    (h : (decl.generate options registry classes).2 = .ok image) :
    decl.Makes classes image
      ∧ decl.Relates (fun before after => before.state = .analyzed ∧ after.state = .generated)
        (decl.generate options registry classes).1 := by
  unfold ClassDecl.generate at h ⊢
  cases hinfo : decl.ty.bind classes.class? with
  | none =>
    rw [hinfo] at h
    cases h
  | some info =>
    rw [hinfo] at h
    obtain ⟨hmembers, hname⟩ := generateMembers_done registry h
    refine ⟨⟨info, hinfo, hname.trans ?_⟩, rfl, hmembers⟩
    unfold ClassInfo.outline
    dsimp only
    split <;> rfl

/-- Where a pass over classes succeeds, it gives one class for every declaration. All methods were
analyzed, and are generated now. -/
theorem CompilationUnit.generate_ok {unit : CompilationUnit} {images : List ClassImage}
    (h : (unit.generate options registry classes).2 = .ok images) :
    List.Forall₂ (ClassDecl.Makes classes) unit.types images
      ∧ unit.Relates (fun before after => before.state = .analyzed ∧ after.state = .generated)
        (unit.generate options registry classes).1 := by
  have hclasses : ∀ (decls : List ClassDecl) (images : List ClassImage),
      (generateClasses options registry classes decls).2 = .ok images →
      List.Forall₂ (ClassDecl.Makes classes) decls images
        ∧ List.Forall₂ (ClassDecl.Relates fun before after =>
          before.state = .analyzed ∧ after.state = .generated) decls
          (generateClasses options registry classes decls).1 := by
    intro decls
    induction decls with
    | nil =>
      rintro images h
      cases h
      exact ⟨.nil, .nil⟩
    | cons first rest ih =>
      intro images h
      unfold generateClasses at h ⊢
      split at h
      · cases h
      · next after image hmade =>
        have hok : (first.generate options registry classes).2 = .ok image := by rw [hmade]
        obtain ⟨hmakes, hfirst⟩ := ClassDecl.generate_ok hok
        cases hrest : (generateClasses options registry classes rest).2 with
        | error error =>
          dsimp only at h
          rw [hrest] at h
          cases h
        | ok others =>
          dsimp only at h
          rw [hrest] at h
          cases h
          obtain ⟨hmakes', hall⟩ := ih others hrest
          rw [hmade] at hfirst
          exact ⟨.cons hmakes hmakes', .cons hfirst hall⟩
  obtain ⟨hmakes, hrelates⟩ := hclasses unit.types images h
  exact ⟨hmakes, rfl, hrelates⟩

end

end ClassCompiler
