import ClassCompiler.Proofs.Errors
import ClassCompiler.Proofs.Unit.Bodies

/-!
# Errors of units

Whatever is wrong with a unit, if its names are ordinary: its stubs and the analysis of its bodies
report errors of the source alone, every method that is analyzed has a signature, and the registry
stays sound.

* `MethodDecl.stub_regular`, `MethodDecl.check_regular`
* `stubClasses_regular`, `ClassDecl.checkList_regular`
-/

namespace ClassCompiler

open Check BodyState StubState

/-! ## Resolving -/

theorem resolveName_regular {name : TypeName} (hname : name.Ordinary) (valueOnly : Bool) :
    (resolveName valueOnly name).Regular := fun _ => Registry.resolveOrAny_regular hname valueOnly

theorem resolveSupertype_regular {name : TypeName} (hname : name.Ordinary)
    (interfaceWanted : Bool) : (resolveSupertype interfaceWanted name).Regular := by
  intro registry
  unfold resolveSupertype Check.run
  dsimp only
  split
  · next error herror =>
    exact ⟨inSource_singleton (Registry.kind_of_resolve herror), Registry.Extends.refl _⟩
  · next ty resolved hresolve =>
    have hextends := Registry.extends_of_resolve hname hresolve
    generalize (if interfaceWanted then TypeKind.interface else .plainClass) = wanted
    split
    · exact ⟨inSource_nil, hextends⟩
    · exact ⟨inSource_singleton (by simp [CompileError.kind]), hextends⟩

theorem resolveInterfaces_regular {names : List TypeName} (hnames : ∀ name ∈ names, name.Ordinary) :
    (resolveInterfaces names).Regular := by
  induction names with
  | nil => exact regular_pure _
  | cons first rest ih =>
    exact regular_bind (resolveSupertype_regular (hnames first List.mem_cons_self) true) fun _ =>
      regular_bind (ih fun name hname => hnames name (List.mem_cons_of_mem _ hname)) fun _ =>
      regular_pure _

theorem resolveExceptions_regular (line : Nat) {names : List TypeName}
    (hnames : ∀ name ∈ names, name.Ordinary) : (resolveExceptions line names).Regular := by
  induction names with
  | nil => exact regular_pure _
  | cons first rest ih =>
    unfold resolveExceptions
    refine regular_bind (resolveName_regular (hnames first List.mem_cons_self) false) fun ty => ?_
    have hrest := regular_bind (ih fun name hname => hnames name (List.mem_cons_of_mem _ hname))
      fun others => regular_pure (ty :: others)
    intro registry
    obtain ⟨herrors, hextends⟩ := hrest registry
    refine ⟨InSource.append inSource_nil (InSource.append ?_ herrors), hextends⟩
    exact inSource_ite inSource_nil (inSource_singleton (by simp [CompileError.kind]))

theorem resolveParams_regular {params : List FormalParam}
    (hnames : ∀ param ∈ params, param.type.Ordinary) : (resolveParams params).Regular := by
  induction params with
  | nil => exact regular_pure _
  | cons first rest ih =>
    exact regular_bind (resolveName_regular (hnames first List.mem_cons_self) true) fun _ =>
      regular_bind (ih fun param hparam => hnames param (List.mem_cons_of_mem _ hparam)) fun _ =>
      regular_pure _

/-! ## Stubs of members -/

theorem regular_onRegistry {α : Type} {step : Check Registry α} (h : step.Regular) :
    (onRegistry step).Regular := fun state => h state.registry

theorem addField_regular (field : FieldEntry) (descriptor : String) :
    (addField field descriptor).Regular := by
  intro state
  unfold addField Check.run
  dsimp only
  split
  · next error herror =>
    refine ⟨inSource_singleton ?_, Registry.Extends.refl _⟩
    unfold ClassInfo.addField at herror
    split at herror
    · cases herror
      simp [CompileError.kind]
    · cases herror
  · exact ⟨inSource_nil, Registry.Extends.refl _⟩

theorem addMethod_regular (method : MethodEntry) (image : MethodImage) :
    (addMethod method image).Regular := by
  intro state
  refine ⟨?_, Registry.Extends.refl _⟩
  unfold addMethod Check.run
  dsimp only
  unfold ClassInfo.addMethod
  split
  · exact inSource_nil
  · next error herror =>
    split at herror
    · cases herror
      exact inSource_singleton (by simp [CompileError.kind])
    · cases herror

theorem FieldDecl.stub_regular {field : FieldDecl} (hname : field.type.Ordinary) :
    field.stub.Regular := by
  unfold stub
  exact regular_bind (regular_onRegistry (resolveName_regular hname true)) fun _ =>
    regular_bind (regular_read _) fun _ => regular_bind (regular_read _) fun _ =>
    regular_bind (regular_forM fun _ _ => addField_regular _ _) fun _ => regular_pure _

theorem MethodDecl.resolveSignature_regular {method : MethodDecl}
    (hnames : ∀ name ∈ method.typeNames, name.Ordinary) : method.resolveSignature.Regular := by
  have hexceptions : ∀ name ∈ method.exceptions, name.Ordinary := fun name hname =>
    hnames name (by simp [typeNames, hname])
  have hparams : ∀ param ∈ method.params, param.type.Ordinary := fun param hparam =>
    hnames param.type (List.mem_append_left _ (List.mem_append_right _
      (List.mem_map_of_mem hparam)))
  have hreturn : method.returnType.Ordinary := hnames _ (by simp [typeNames])
  unfold resolveSignature
  exact regular_bind (resolveExceptions_regular method.line hexceptions) fun _ =>
    regular_bind (resolveParams_regular hparams) fun _ =>
    regular_bind (resolveName_regular hreturn false) fun _ =>
    regular_bind (regular_read _) fun _ => regular_pure _

theorem MethodDecl.inSource_stubModifiers (inInterface : Bool) (method : MethodDecl) :
    InSource (method.stubModifiers inInterface).2 := by
  unfold stubModifiers
  split
  · exact inSource_ite (inSource_singleton (by simp [CompileError.kind])) inSource_nil
  · exact inSource_nil

theorem MethodDecl.stub_regular {method : MethodDecl}
    (hnames : ∀ name ∈ method.typeNames, name.Ordinary) : method.stub.Regular := by
  unfold stub
  refine regular_bind (regular_read _) fun info => regular_bind (regular_reportAll ?_) fun _ =>
    regular_bind (regular_onRegistry (resolveSignature_regular hnames)) fun _ =>
    regular_bind (regular_reportAll ?_) fun _ => regular_bind (regular_read _) fun _ =>
    regular_bind (addMethod_regular _ _) fun _ => regular_pure _
  · exact inSource_stubModifiers info.isInterface method
  · intro error herror
    obtain ⟨message, -, rfl⟩ := List.mem_map.mp herror
    simp [CompileError.kind]

theorem stubFields_regular {members : List Member}
    (hnames : ∀ name ∈ members.flatMap Member.typeNames, name.Ordinary) :
    (stubFields members).Regular := by
  induction members with
  | nil => exact regular_pure _
  | cons first rest ih =>
    rw [List.flatMap_cons] at hnames
    have hrest := ih fun name hname => hnames name (List.mem_append_right _ hname)
    cases first with
    | field field =>
      have hname : field.type.Ordinary :=
        hnames field.type (List.mem_append_left _ List.mem_cons_self)
      exact regular_bind (FieldDecl.stub_regular hname) fun _ =>
        regular_bind hrest fun _ => regular_pure _
    | method decl => exact regular_bind hrest fun _ => regular_pure _

/-- The methods are among those of a list of members. -/
def MethodsAmong (members out : List Member) : Prop :=
  ∀ method, .method method ∈ out → .method method ∈ members

theorem methodsAmong_stubFields (members : List Member) (state : StubState) :
    MethodsAmong members ((stubFields members).run state).value := by
  induction members generalizing state with
  | nil => exact fun _ h => h
  | cons first rest ih =>
    intro method h
    cases first with
    | field field =>
      refine List.mem_cons_of_mem _ (ih (field.stub.run state).state method ?_)
      rcases List.mem_cons.mp h with h | h
      · cases h
      · exact h
    | method decl =>
      rcases List.mem_cons.mp h with h | h
      · rw [h]
        exact List.mem_cons_self
      · exact List.mem_cons_of_mem _ (ih state method h)

theorem stubMethods_regular {members : List Member}
    (hnames : ∀ method, .method method ∈ members → ∀ name ∈ method.typeNames, name.Ordinary) :
    (stubMethods members).Regular := by
  induction members with
  | nil => exact regular_pure _
  | cons first rest ih =>
    have hrest := ih fun method h => hnames method (List.mem_cons_of_mem _ h)
    cases first with
    | field field => exact regular_bind hrest fun _ => regular_pure _
    | method decl =>
      exact regular_bind (MethodDecl.stub_regular (hnames decl List.mem_cons_self)) fun _ =>
        regular_bind hrest fun _ => regular_pure _

theorem stubMembers_regular (options : Options) {members : List Member}
    (hnames : ∀ name ∈ members.flatMap Member.typeNames, name.Ordinary) :
    (stubMembers options members).Regular := by
  unfold stubMembers
  refine regular_bind_of (MethodsAmong members) (stubFields_regular hnames)
    (methodsAmong_stubFields members) fun fields hfields => regular_bind ?_ fun _ =>
      stubMethods_regular fun method h name hname => hnames name
        (List.mem_flatMap.mpr ⟨.method method, hfields method h, hname⟩)
  intro state
  rw [run_modify]
  refine ⟨inSource_nil, ?_⟩
  dsimp only
  split <;> exact Registry.Extends.refl _

/-! ## Stubs of classes -/

/-- The methods have signatures, as far as they wait for an analysis. -/
def MembersSigned (members : List Member) : Prop :=
  ∀ method, .method method ∈ members →
    method.signature.isSome ∧ ∀ name ∈ method.typeNames, name.Ordinary

/-- A class has such methods, if it was declared. -/
def ClassDecl.Signed (decl : ClassDecl) : Prop := decl.ty.isSome → MembersSigned decl.members

theorem stubMethods_signed {members : List Member}
    (hnames : ∀ method, .method method ∈ members → ∀ name ∈ method.typeNames, name.Ordinary)
    (state : StubState) : MembersSigned ((stubMethods members).run state).value := by
  induction members generalizing state with
  | nil => exact fun _ h => (List.not_mem_nil h).elim
  | cons first rest ih =>
    have hrest := ih fun method h => hnames method (List.mem_cons_of_mem _ h)
    intro method h
    cases first with
    | field field =>
      rcases List.mem_cons.mp h with h | h
      · cases h
      · exact hrest state method h
    | method decl =>
      rcases List.mem_cons.mp h with h | h
      · cases h
        exact ⟨rfl, hnames decl List.mem_cons_self⟩
      · exact hrest (decl.stub.run state).state method h

theorem stubMembers_signed (options : Options) {members : List Member}
    (hnames : ∀ name ∈ members.flatMap Member.typeNames, name.Ordinary) (state : StubState) :
    MembersSigned ((stubMembers options members).run state).value := by
  refine stubMethods_signed (fun method h name hname => ?_) _
  exact hnames name (List.mem_flatMap.mpr
    ⟨.method method, methodsAmong_stubFields members state method h, hname⟩)

theorem ClassDecl.resolveSupertypes_regular {decl : ClassDecl}
    (hnames : ∀ name ∈ decl.typeNames, name.Ordinary) : decl.resolveSupertypes.Regular := by
  have hrest : ∀ superclass : Option Ty, (do
      let interfaces ← resolveInterfaces decl.interfaces
      pure (superclass.getD .object, interfaces)).Regular := fun superclass =>
    regular_bind (resolveInterfaces_regular fun name hname => hnames name
      (List.mem_append_left _ (List.mem_append_right _ hname))) fun _ => regular_pure _
  unfold resolveSupertypes
  dsimp only
  split
  · next name _ hname =>
    refine regular_bind (resolveSupertype_regular (hnames name ?_) false) hrest
    rw [typeNames, hname]
    exact List.mem_cons_self
  · exact hrest none

theorem ClassDecl.stub_regular (options : Options) {ty : Ty} (hty : ty.isReference = true)
    {decl : ClassDecl} (hnames : ∀ name ∈ decl.typeNames, name.Ordinary) :
    (decl.stub options ty).Regular := by
  unfold stub
  refine regular_bind (resolveSupertypes_regular hnames) fun pair =>
    regular_bind (fun registry => ⟨inSource_nil, Registry.below_setSupertypes registry _ _ _,
      fun _ hsound => hsound.setSupertypes hty _ _⟩) fun _ => ?_
  intro registry
  exact stubMembers_regular options (fun name hname => hnames name (List.mem_append_right _ hname))
    ⟨registry, decl.outline ty pair.1 pair.2 registry⟩

theorem stubClasses_regular (options : Options) {decls : List ClassDecl}
    (hnames : ∀ name ∈ decls.flatMap ClassDecl.typeNames, name.Ordinary)
    (hty : ∀ decl ∈ decls, ∀ ty, decl.ty = some ty → ty.isReference = true) :
    (stubClasses options decls).Regular := by
  induction decls with
  | nil => exact regular_pure _
  | cons first rest ih =>
    rw [List.flatMap_cons] at hnames
    have hrest := ih (fun name hname => hnames name (List.mem_append_right _ hname))
      fun decl hdecl => hty decl (List.mem_cons_of_mem _ hdecl)
    unfold stubClasses
    split
    · exact regular_bind hrest fun _ => regular_pure _
    · next ty hfirst =>
      exact regular_bind (ClassDecl.stub_regular options (hty first List.mem_cons_self ty hfirst)
        fun name hname => hnames name (List.mem_append_left _ hname)) fun _ =>
        regular_bind hrest fun _ => regular_pure _

theorem stubClasses_signed (options : Options) {decls : List ClassDecl}
    (hnames : ∀ name ∈ decls.flatMap ClassDecl.typeNames, name.Ordinary) (registry : Registry) :
    ∀ decl ∈ ((stubClasses options decls).run registry).value.1, decl.Signed := by
  induction decls generalizing registry with
  | nil => exact fun _ h => (List.not_mem_nil h).elim
  | cons first rest ih =>
    rw [List.flatMap_cons] at hnames
    have hrest := ih fun name hname => hnames name (List.mem_append_right _ hname)
    unfold stubClasses
    split
    · next hnone =>
      intro decl hdecl
      rcases List.mem_cons.mp hdecl with rfl | hdecl
      · intro hsome
        rw [hnone] at hsome
        cases hsome
      · exact hrest registry decl hdecl
    · next ty hsome =>
      intro decl hdecl
      rcases List.mem_cons.mp hdecl with rfl | hdecl
      · exact fun _ => stubMembers_signed options
          (fun name hname => hnames name (List.mem_append_left _ (List.mem_append_right _ hname))) _
      · exact hrest _ decl hdecl

/-! ## Bodies -/

section

variable (site : Site)

theorem declareParams_regular (params : List (FormalParam × Ty)) :
    (declareParams params).Regular := by
  induction params with
  | nil => exact regular_pure _
  | cons first rest ih =>
    obtain ⟨param, ty⟩ := first
    refine regular_bind (fun state => ?_) fun _ => ih
    unfold declareParam Check.run
    dsimp only
    split
    · exact ⟨inSource_nil, Registry.Extends.refl _⟩
    · next error herror =>
      refine ⟨inSource_singleton ?_, Registry.Extends.refl _⟩
      unfold Scope.declareParam at herror
      split at herror
      · cases herror
        simp [CompileError.kind]
      · cases herror

theorem Block.check_regular (name : String) (line : Nat) {body : Block}
    (hnames : ∀ decl ∈ Stmt.declsList body.stmts, decl.type.Ordinary) :
    (body.check site name line).Regular := by
  unfold check
  refine regular_bind (Stmt.checkList_regular site (fun s _ => Stmt.check_regular site s) hnames)
    fun stmts state => ⟨?_, Registry.Extends.refl _⟩
  exact inSource_ite inSource_nil (inSource_singleton (by simp [CompileError.kind]))

theorem MethodDecl.check_regular {method : MethodDecl} (hsignature : method.signature.isSome)
    (hnames : ∀ name ∈ method.typeNames, name.Ordinary) : (method.check site).Regular := by
  obtain ⟨signature, hsome⟩ := Option.isSome_iff_exists.mp hsignature
  have hbody : (method.checkBody site signature).Regular := by
    rw [checkBody_eq]
    refine regular_bind (declareParams_regular _) fun _ => regular_bind
      (regular_optional _ fun body hb => Block.check_regular site _ _ fun decl hdecl => ?_) fun _ =>
      regular_bind (regular_read _) fun _ => regular_pure _
    refine hnames decl.type (List.mem_append_right _ (List.mem_map_of_mem ?_))
    rw [hb]
    simpa using hdecl
  intro registry
  rw [run_check site hsome]
  exact hbody ⟨registry, Scope.start signature.returnTy signature.exceptions method.mods.isStatic⟩

theorem Member.checkList_regular {members : List Member} (hsigned : MembersSigned members) :
    (checkList site members).Regular := by
  induction members with
  | nil => exact regular_pure _
  | cons first rest ih =>
    refine regular_bind ?_ fun _ =>
      regular_bind (ih fun method h => hsigned method (List.mem_cons_of_mem _ h)) fun _ =>
      regular_pure _
    cases first with
    | field decl => exact regular_pure _
    | method decl =>
      obtain ⟨hsignature, hnames⟩ := hsigned decl List.mem_cons_self
      show (if decl.state = .stubbed then method <$> decl.check site
        else pure (method decl)).Regular
      split
      · exact regular_map _ (MethodDecl.check_regular site hsignature hnames)
      · exact regular_pure _

end

theorem ClassDecl.checkList_regular (classes : ClassTable) {decls : List ClassDecl}
    (hsigned : ∀ decl ∈ decls, decl.Signed) : (checkList classes decls).Regular := by
  induction decls with
  | nil => exact regular_pure _
  | cons first rest ih =>
    refine regular_bind ?_ fun _ =>
      regular_bind (ih fun decl hdecl => hsigned decl (List.mem_cons_of_mem _ hdecl)) fun _ =>
      regular_pure _
    unfold check
    split
    · exact regular_pure _
    · next owner howner =>
      have hmembers := hsigned first List.mem_cons_self (by rw [howner]; rfl)
      exact regular_bind (Member.checkList_regular _ hmembers) fun _ => regular_pure _

end ClassCompiler
