import ClassCompiler.Proofs.Body.Method
import ClassCompiler.Unit.Stubs

/-!
# Stubs are sound

Declaring the names of a unit and resolving its signatures keeps the registry sound, if the names of
the unit are ordinary. The members that a class gets have types that code can be generated for, and
every method has a signature that its analysis may start from.

* `CompilationUnit.typeNames`: every type name that is written in a unit
* `MethodDecl.Stubbed`: a method that is ready for its analysis
* `ClassDecl.stub_grows`, `stubClasses_grows`
-/

namespace ClassCompiler

open Check

/-! ## Type names of a unit -/

def MethodDecl.typeNames (method : MethodDecl) : List TypeName :=
  method.returnType :: method.exceptions ++ method.params.map FormalParam.type
    ++ (method.body.toList.flatMap fun body => Stmt.declsList body.stmts).map LocalDecl.type

def Member.typeNames : Member → List TypeName
  | field decl => [decl.type]
  | method decl => decl.typeNames

def ClassDecl.typeNames (decl : ClassDecl) : List TypeName :=
  decl.superclass.toList ++ decl.interfaces ++ decl.members.flatMap Member.typeNames

def CompilationUnit.typeNames (unit : CompilationUnit) : List TypeName :=
  unit.types.flatMap ClassDecl.typeNames

namespace MethodSignature

variable (signature : MethodSignature)

/-- What the type names of a signature mean. -/
def types : List Ty := signature.exceptions ++ (signature.params ++ [signature.returnTy])

theorem exceptions_subset : signature.exceptions ⊆ signature.types := List.subset_append_left _ _

theorem params_subset : signature.params ⊆ signature.types :=
  List.subset_append_of_subset_right _ (List.subset_append_left _ _)

theorem returnTy_mem : signature.returnTy ∈ signature.types :=
  List.mem_append_right _ (List.mem_append_right _ (List.mem_singleton_self _))

end MethodSignature

/-! ## Resolving -/

variable {last : Registry}

theorem resolveName_grows (hapart : last.Apart) (name : TypeName) (valueOnly : Bool) :
    (resolveName valueOnly name).Grows last fun s ty e => name.Ordinary → s.Sound →
      e.Sound ∧ ty ≠ .any ∧ (valueOnly = true → ty ≠ .void) := by
  intro registry
  refine ⟨Registry.below_resolveOrAny _ _ _, fun he hlast hname hsound => ?_⟩
  obtain ⟨hresolve, hvoid⟩ := Registry.resolve_of_resolveOrAny he
  obtain ⟨hsound', hany⟩ := hsound.resolve hname hresolve (hlast.apart hapart)
  exact ⟨hsound', hany, hvoid⟩

theorem resolveSupertype_grows (hapart : last.Apart) (name : TypeName) (interfaceWanted : Bool) :
    (resolveSupertype interfaceWanted name).Grows last fun s _ e =>
      name.Ordinary → s.Sound → e.Sound := by
  intro registry
  unfold resolveSupertype Check.run
  dsimp only
  split
  · exact ⟨Registry.Below.refl _, fun he => by cases he⟩
  · next ty resolved hresolve =>
    have hbelow := Registry.below_resolve hresolve
    generalize (if interfaceWanted then TypeKind.interface else .plainClass) = wanted
    split
    · exact ⟨hbelow, fun _ hlast hname hsound =>
        (hsound.resolve hname hresolve (hlast.apart hapart)).1⟩
    · exact ⟨hbelow, fun he => by cases he⟩

theorem resolveInterfaces_grows (hapart : last.Apart) (names : List TypeName) :
    (resolveInterfaces names).Grows last fun s _ e =>
      (∀ name ∈ names, name.Ordinary) → s.Sound → e.Sound := by
  induction names with
  | nil =>
    refine (grows_pure _).mono ?_
    rintro s _ _ ⟨rfl, rfl⟩ _ hsound
    exact hsound
  | cons first rest ih =>
    refine (grows_bind (resolveSupertype_grows hapart first true) fun a =>
      grows_bind ih fun b => grows_pure _).mono ?_
    rintro s _ _ ⟨_, m, hfirst, _, _, hrest, -, rfl⟩ hnames hsound
    have hsound' := hfirst (hnames first List.mem_cons_self) hsound
    exact hrest (fun name hname => hnames name (List.mem_cons_of_mem _ hname)) hsound'

theorem resolveExceptions_grows (hapart : last.Apart) (line : Nat) (names : List TypeName) :
    (resolveExceptions line names).Grows last fun s _ e =>
      (∀ name ∈ names, name.Ordinary) → s.Sound → e.Sound := by
  induction names with
  | nil =>
    refine (grows_pure _).mono ?_
    rintro s _ _ ⟨rfl, rfl⟩ _ hsound
    exact hsound
  | cons first rest ih =>
    refine (grows_bind (resolveName_grows hapart first false) fun a =>
      grows_bind (grows_read _) fun errors => grows_bind (grows_reportAll errors) fun _ =>
      grows_bind ih fun b => grows_pure _).mono ?_
    rintro s _ _ ⟨_, m, hfirst, _, _, ⟨-, rfl⟩, _, _, ⟨rfl, -⟩, _, _, hrest, -, rfl⟩ hnames hsound
    have hsound' := (hfirst (hnames first List.mem_cons_self) hsound).1
    exact hrest (fun name hname => hnames name (List.mem_cons_of_mem _ hname)) hsound'

theorem resolveParams_grows (hapart : last.Apart) (params : List FormalParam) :
    (resolveParams params).Grows last fun s out e =>
      (∀ param ∈ params, param.type.Ordinary) → s.Sound →
      e.Sound ∧ out.length = params.length ∧ ∀ ty ∈ out, ty.IsValue := by
  induction params with
  | nil =>
    refine (grows_pure _).mono ?_
    rintro s _ _ ⟨rfl, rfl⟩ _ hsound
    exact ⟨hsound, rfl, by simp⟩
  | cons first rest ih =>
    refine (grows_bind (resolveName_grows hapart first.type true) fun a =>
      grows_bind ih fun b => grows_pure _).mono ?_
    rintro s _ _ ⟨a, m, hfirst, b, _, hrest, rfl, rfl⟩ hnames hsound
    obtain ⟨hsound', hany, hvoid⟩ := hfirst (hnames first List.mem_cons_self) hsound
    obtain ⟨hsound'', hlength, hvalues⟩ :=
      hrest (fun param hparam => hnames param (List.mem_cons_of_mem _ hparam)) hsound'
    refine ⟨hsound'', congrArg (· + 1) hlength, fun ty hty => ?_⟩
    rcases List.mem_cons.mp hty with rfl | hty
    · exact ⟨hany, hvoid rfl⟩
    · exact hvalues ty hty

/-! ## Methods -/

theorem MethodDecl.resolveSignature_grows (hapart : last.Apart) (method : MethodDecl) :
    method.resolveSignature.Grows last fun s signature e =>
      (∀ name ∈ method.typeNames, name.Ordinary) → s.Sound →
      e.Sound ∧ signature.Sound method.params := by
  unfold resolveSignature
  refine (grows_bind (resolveExceptions_grows hapart method.line method.exceptions) fun _ =>
    grows_bind (resolveParams_grows hapart method.params) fun _ =>
    grows_bind (resolveName_grows hapart method.returnType false) fun _ =>
    grows_bind (grows_read _) fun _ => grows_pure _).mono ?_
  rintro s _ _ ⟨_, m, hone, params, m', htwo, returnTy, m'', hthree, _, _, ⟨rfl, rfl⟩, rfl, rfl⟩
    hnames hsound
  have hexceptions : ∀ name ∈ method.exceptions, name.Ordinary := fun name hname =>
    hnames name (by simp [typeNames, hname])
  have hparams : ∀ param ∈ method.params, param.type.Ordinary := fun param hparam =>
    hnames param.type (List.mem_append_left _ (List.mem_append_right _
      (List.mem_map_of_mem hparam)))
  have hreturn : method.returnType.Ordinary := hnames _ (by simp [typeNames])
  obtain ⟨hsound', hlength, hvalues⟩ := htwo hparams (hone hexceptions hsound)
  obtain ⟨hsound'', hany, -⟩ := hthree hreturn hsound'
  exact ⟨hsound'', hlength.symm, hvalues, hany, _, hsound'', rfl⟩

structure StubState.Good (state : StubState) : Prop where
  registry : state.registry.Sound
  info : state.stub.info.Sound

namespace StubState

theorem grows_onRegistry {α : Type} {step : Check Registry α} {R : Registry → α → Registry → Prop}
    (h : step.Grows last R) :
    (onRegistry step).Grows last fun s a e =>
      ∃ registry, e = { s with registry } ∧ R s.registry a registry := fun state =>
  ⟨(h state.registry).1, fun he hlast => ⟨_, rfl, (h state.registry).2 he hlast⟩⟩

/-- A step keeps a state good, and its class in place. -/
def Keeps (before after : StubState) : Prop :=
  before.Good → after.Good ∧ after.stub.info.ty = before.stub.info.ty
    ∧ after.stub.info.internalName = before.stub.info.internalName

theorem Keeps.refl (state : StubState) : state.Keeps state := fun hgood => ⟨hgood, rfl, rfl⟩

theorem Keeps.trans {one two three : StubState} (h : one.Keeps two) (h' : two.Keeps three) :
    one.Keeps three := by
  intro hgood
  obtain ⟨hgood', hty, hname⟩ := h hgood
  obtain ⟨hgood'', hty', hname'⟩ := h' hgood'
  exact ⟨hgood'', hty'.trans hty, hname'.trans hname⟩

theorem addField_grows {field : FieldEntry} (descriptor : String) :
    (addField field descriptor).Grows last fun s _ e => field.ty.IsValue → s.Keeps e := by
  intro state
  unfold addField Check.run
  dsimp only
  split
  · exact ⟨Registry.Below.refl _, fun he => by cases he⟩
  · next info hinfo =>
    refine ⟨Registry.Below.refl _, fun _ _ hty hgood => ?_⟩
    unfold ClassInfo.addField at hinfo
    split at hinfo
    · cases hinfo
    · cases hinfo
      refine ⟨⟨hgood.registry, hgood.info.ty, fun f hf => ?_, hgood.info.methods⟩, rfl, rfl⟩
      rcases List.mem_append.mp hf with hf | hf
      · exact hgood.info.fields f hf
      · rw [List.mem_singleton.mp hf]
        exact hty

theorem addMethod_grows {method : MethodEntry} (image : MethodImage) :
    (addMethod method image).Grows last fun s _ e => method.Sound → s.Keeps e := by
  intro state
  unfold addMethod Check.run
  dsimp only
  refine ⟨Registry.Below.refl _, fun he _ hmethod hgood => ?_⟩
  unfold ClassInfo.addMethod at he ⊢
  split at he
  · next info _ hinfo =>
    split at hinfo
    · cases hinfo
    · cases hinfo
      refine ⟨⟨hgood.registry, hgood.info.ty, hgood.info.fields, fun m hm => ?_⟩, rfl, rfl⟩
      rcases List.mem_append.mp hm with hm | hm
      · exact hgood.info.methods m hm
      · rw [List.mem_singleton.mp hm]
        exact hmethod
  · cases he

end StubState

open StubState

theorem FieldDecl.stub_grows (hapart : last.Apart) (field : FieldDecl) :
    field.stub.Grows last fun s _ e => field.type.Ordinary → s.Keeps e := by
  unfold stub
  refine (grows_bind (grows_onRegistry (resolveName_grows hapart field.type true)) fun ty =>
    grows_bind (grows_read _) fun info => grows_bind (grows_read _) fun descriptor =>
    grows_bind (grows_forM (R := fun s e => ty.IsValue → s.Keeps e) (fun s _ => Keeps.refl s)
      (fun s m e h h' hty => (h hty).trans (h' hty)) fun name _ => addField_grows descriptor)
    fun _ => grows_pure _).mono ?_
  rintro s _ _ ⟨ty, _, ⟨registry, rfl, hresolve⟩, info, _, ⟨-, rfl⟩, descriptor, _, ⟨-, rfl⟩, _, _,
    hfields, -, rfl⟩ hname hgood
  obtain ⟨hsound, hany, hvoid⟩ := hresolve hname hgood.registry
  exact hfields ⟨hany, hvoid rfl⟩ ⟨hsound, hgood.info⟩

theorem MethodDecl.stub_grows (hapart : last.Apart) (method : MethodDecl) :
    method.stub.Grows last fun s out e => (∀ name ∈ method.typeNames, name.Ordinary) →
      s.Keeps e ∧ (s.Good → ∃ signature, out.Stubbed signature) := by
  unfold stub
  refine (grows_bind (grows_read _) fun info => grows_bind (grows_reportAll _) fun _ =>
    grows_bind (grows_onRegistry (resolveSignature_grows hapart method)) fun signature =>
    grows_bind (grows_reportAll _) fun _ => grows_bind (grows_read _) fun exceptions =>
    grows_bind (addMethod_grows _) fun _ => grows_pure _).mono ?_
  rintro s _ _ ⟨info, _, ⟨-, rfl⟩, _, _, ⟨rfl, -⟩, signature, _, ⟨registry, rfl, hresolve⟩, _, _,
    ⟨rfl, -⟩, exceptions, _, ⟨-, rfl⟩, _, e, hadd, rfl, rfl⟩ hnames
  have hbody : method.BodyOrdinary := by
    intro body hb decl hdecl
    refine hnames decl.type (List.mem_append_right _ (List.mem_map_of_mem ?_))
    rw [hb]
    simpa using hdecl
  constructor
  · intro hgood
    obtain ⟨hsound, hsignature⟩ := hresolve hnames hgood.registry
    exact hadd ⟨hsignature.values, hsignature.ne_any, hsignature.descriptor⟩
      ⟨hsound, hgood.info⟩
  · intro hgood
    exact ⟨signature, rfl, rfl, (hresolve hnames hgood.registry).2, hbody⟩

/-! ## Members -/

/-- The methods among the members are ready for their analysis. -/
def MembersStubbed (members : List Member) : Prop :=
  ∀ method, .method method ∈ members → ∃ signature, method.Stubbed signature

theorem stubFields_grows (hapart : last.Apart) (members : List Member) :
    (stubFields members).Grows last fun s out e =>
      (∀ field, .field field ∈ members → field.type.Ordinary) →
      s.Keeps e ∧ ∀ method, .method method ∈ out → .method method ∈ members := by
  induction members with
  | nil =>
    refine (grows_pure _).mono ?_
    rintro s _ _ ⟨rfl, rfl⟩ _
    exact ⟨Keeps.refl _, fun _ h => h⟩
  | cons first rest ih =>
    cases first with
    | field field =>
      refine (grows_bind (FieldDecl.stub_grows hapart field) fun field =>
        grows_bind ih fun out => grows_pure _).mono ?_
      rintro s _ _ ⟨field', m, hone, out, _, hrest, rfl, rfl⟩ hnames
      obtain ⟨hkeeps, hmem⟩ := hrest fun field h => hnames field (List.mem_cons_of_mem _ h)
      refine ⟨(hone (hnames field List.mem_cons_self)).trans hkeeps,
        fun method h => List.mem_cons_of_mem _ (hmem method ?_)⟩
      rcases List.mem_cons.mp h with h | h
      · cases h
      · exact h
    | method decl =>
      refine (grows_bind ih fun out => grows_pure _).mono ?_
      rintro s _ _ ⟨out, _, hrest, rfl, rfl⟩ hnames
      obtain ⟨hkeeps, hmem⟩ := hrest fun field h => hnames field (List.mem_cons_of_mem _ h)
      refine ⟨hkeeps, fun method h => ?_⟩
      rcases List.mem_cons.mp h with h | h
      · rw [h]
        exact List.mem_cons_self
      · exact List.mem_cons_of_mem _ (hmem method h)

theorem stubMethods_grows (hapart : last.Apart) (members : List Member) :
    (stubMethods members).Grows last fun s out e =>
      (∀ method, .method method ∈ members → ∀ name ∈ method.typeNames, name.Ordinary) →
      s.Keeps e ∧ (s.Good → MembersStubbed out) := by
  induction members with
  | nil =>
    refine (grows_pure _).mono ?_
    rintro s _ _ ⟨rfl, rfl⟩ _
    exact ⟨Keeps.refl _, fun _ _ h => (List.not_mem_nil h).elim⟩
  | cons first rest ih =>
    cases first with
    | field field =>
      refine (grows_bind ih fun out => grows_pure _).mono ?_
      rintro s _ _ ⟨out, _, hrest, rfl, rfl⟩ hnames
      obtain ⟨hkeeps, hmem⟩ := hrest fun method h => hnames method (List.mem_cons_of_mem _ h)
      refine ⟨hkeeps, fun hgood method h => hmem hgood method ?_⟩
      rcases List.mem_cons.mp h with h | h
      · cases h
      · exact h
    | method decl =>
      refine (grows_bind (MethodDecl.stub_grows hapart decl) fun decl =>
        grows_bind ih fun out => grows_pure _).mono ?_
      rintro s _ _ ⟨decl', m, hone, out, _, hrest, rfl, rfl⟩ hnames
      obtain ⟨hkeeps, hstubbed⟩ := hone (hnames decl List.mem_cons_self)
      obtain ⟨hkeeps', hmem⟩ := hrest fun method h => hnames method (List.mem_cons_of_mem _ h)
      refine ⟨hkeeps.trans hkeeps', fun hgood method h => ?_⟩
      rcases List.mem_cons.mp h with h | h
      · cases h
        exact hstubbed hgood
      · exact hmem (hkeeps hgood).1 method h

theorem stubMembers_grows (hapart : last.Apart) (options : Options) (members : List Member) :
    (stubMembers options members).Grows last fun s out e =>
      (∀ name ∈ members.flatMap Member.typeNames, name.Ordinary) →
      s.Keeps e ∧ (s.Good → MembersStubbed out) := by
  unfold stubMembers
  have hmodify : ∀ change : StubState → StubState,
      (∀ s, (change s).registry = s.registry ∧ (change s).stub.info = s.stub.info) →
      (Check.modify change).Grows last fun s _ e => s.Keeps e := by
    intro change hchange s
    obtain ⟨hregistry, hinfo⟩ := hchange s
    have hrun : ((Check.modify change).run s).state = change s := rfl
    rw [hrun]
    refine ⟨?_, fun _ _ hgood => ⟨⟨?_, ?_⟩, ?_, ?_⟩⟩
    · show s.registry.Below (change s).registry
      rw [hregistry]
      exact Registry.Below.refl _
    · rw [hregistry]
      exact hgood.registry
    · rw [hinfo]
      exact hgood.info
    · rw [hinfo]
    · rw [hinfo]
  refine (grows_bind (stubFields_grows hapart members) fun fields =>
    grows_bind (hmodify _ fun s => ?_) fun _ => stubMethods_grows hapart fields).mono ?_
  · dsimp only
    split <;> exact ⟨rfl, rfl⟩
  · rintro s out e ⟨fields, m, hfields, _, m', hmiddle, hmethods⟩ hnames
    obtain ⟨hkeeps, hmem⟩ := hfields fun field h => hnames field.type
      (List.mem_flatMap.mpr ⟨.field field, h, List.mem_cons_self⟩)
    obtain ⟨hkeeps', hstubbed⟩ := hmethods fun method h name hname => hnames name
      (List.mem_flatMap.mpr ⟨.method method, hmem method h, hname⟩)
    have hstart := hkeeps.trans hmiddle
    exact ⟨hstart.trans hkeeps', fun hgood => hstubbed (hstart hgood).1⟩

/-! ## Classes -/

theorem ClassDecl.resolveSupertypes_grows (hapart : last.Apart) (decl : ClassDecl) :
    decl.resolveSupertypes.Grows last fun s _ e =>
      (∀ name ∈ decl.typeNames, name.Ordinary) → s.Sound → e.Sound := by
  have hrest : ∀ superclass : Option Ty, (do
      let interfaces ← resolveInterfaces decl.interfaces
      pure (superclass.getD .object, interfaces)).Grows last fun s _ e =>
        (∀ name ∈ decl.typeNames, name.Ordinary) → s.Sound → e.Sound := by
    intro superclass
    refine (grows_bind (resolveInterfaces_grows hapart decl.interfaces) fun _ =>
      grows_pure _).mono ?_
    rintro s _ _ ⟨_, _, hinterfaces, -, rfl⟩ hnames
    exact hinterfaces fun name hname => hnames name
      (List.mem_append_left _ (List.mem_append_right _ hname))
  unfold resolveSupertypes
  dsimp only
  split
  · next name _ hname =>
    refine (grows_bind (resolveSupertype_grows hapart name false) hrest).mono ?_
    rintro s _ e ⟨_, m, hone, htwo⟩ hnames hsound
    refine htwo hnames (hone (hnames name ?_) hsound)
    exact List.mem_append_left _ (List.mem_append_left _ (by rw [hname]; exact List.mem_singleton_self name))
  · exact hrest none

/-- A class of a unit with a stub. -/
structure ClassDecl.Stubbed (package : Option String) (decl : ClassDecl) (info : ClassInfo) :
    Prop where
  ty_eq : decl.ty = some (Ty.named (decl.internalName package))
  info_ty : info.ty = Ty.named (decl.internalName package)
  internalName : info.internalName = decl.internalName package
  sound : info.Sound
  members : MembersStubbed decl.members

/-- A class that is known under its name. -/
structure ClassDecl.Declared (package : Option String) (registry : Registry) (decl : ClassDecl) :
    Prop where
  ty_eq : decl.ty = some (Ty.named (decl.internalName package))
  isReference : (Ty.named (decl.internalName package)).isReference = true
  contains : registry.contains (Ty.named (decl.internalName package)) = true
  internalName : registry.internalName (Ty.named (decl.internalName package))
    = decl.internalName package

theorem ClassDecl.Declared.below {package : Option String} {small large : Registry}
    {decl : ClassDecl} (h : decl.Declared package small) (hbelow : small.Below large) :
    decl.Declared package large := by
  refine ⟨h.ty_eq, h.isReference, hbelow.contains h.contains, ?_⟩
  rw [hbelow.internalName h.contains, h.internalName]

theorem grows_setSupertypes (ty : Ty) (superclass : Option Ty) (interfaces : List Ty) :
    (Check.modify fun registry : Registry =>
      registry.setSupertypes ty superclass interfaces).Grows last fun s _ e =>
        s.Below e ∧ (ty.isReference = true → s.Sound → e.Sound) := by
  intro s
  have hbelow := Registry.below_setSupertypes s ty superclass interfaces
  exact ⟨hbelow, fun _ _ => ⟨hbelow, fun href hsound => hsound.setSupertypes href _ _⟩⟩

theorem ClassDecl.stub_grows (hapart : last.Apart) (options : Options) (package : Option String)
    (decl : ClassDecl) :
    (decl.stub options (Ty.named (decl.internalName package))).Grows last fun s out e =>
      (∀ name ∈ decl.typeNames, name.Ordinary) → decl.Declared package s → s.Sound →
      e.Sound ∧ out.1.Stubbed package out.2.info ∧ out.1.name = decl.name := by
  unfold stub
  generalize hty : Ty.named (decl.internalName package) = ty
  have hmembers : ∀ superclass interfaces, Grows last
      (fun registry : Registry =>
        let outlined := decl.outline ty superclass interfaces registry
        let done := (stubMembers options decl.members).run { registry, stub := outlined }
        ({ value := ({ decl with members := done.value }, done.state.stub)
           state := done.state.registry
           errors := done.errors } : Checked Registry (ClassDecl × ClassStub)))
      fun s out e => (∀ name ∈ decl.typeNames, name.Ordinary) → ty.isReference = true →
        s.Sound → e.Sound ∧ out.1 = { decl with members := out.1.members }
          ∧ out.2.info.ty = ty ∧ out.2.info.internalName = s.internalName ty
          ∧ out.2.info.Sound ∧ MembersStubbed out.1.members := by
    intro superclass interfaces s
    obtain ⟨hgrow, hrel⟩ := stubMembers_grows hapart options decl.members
      ⟨s, decl.outline ty superclass interfaces s⟩
    refine ⟨hgrow, fun he hlast hnames href hsound => ?_⟩
    obtain ⟨hkeeps, hstubbed⟩ := hrel he hlast fun name hname =>
      hnames name (List.mem_append_right _ hname)
    have hgood : StubState.Good ⟨s, decl.outline ty superclass interfaces s⟩ :=
      ⟨hsound, href, fun _ h => (List.not_mem_nil h).elim, fun _ h => (List.not_mem_nil h).elim⟩
    obtain ⟨hgood', hinfoTy, hname⟩ := hkeeps hgood
    exact ⟨hgood'.registry, rfl, hinfoTy, hname, hgood'.info, hstubbed hgood⟩
  refine (grows_bind (resolveSupertypes_grows hapart decl).below fun pair =>
    grows_bind (grows_setSupertypes ty (some pair.1) pair.2) fun _ => hmembers pair.1 pair.2).mono ?_
  rintro s ⟨out, stub⟩ e ⟨pair, m, ⟨hbelow, hone⟩, _, m', ⟨hbelow', htwo⟩, hthree⟩ hnames hdeclared
    hsound
  subst hty
  obtain ⟨hsound', heq, hinfoTy, hname, hinfo, hmembers⟩ :=
    hthree hnames hdeclared.isReference (htwo hdeclared.isReference (hone hnames hsound))
  dsimp only at heq
  have hknown := (hbelow.trans hbelow').internalName hdeclared.contains
  refine ⟨hsound', ⟨?_, ?_, ?_, hinfo, hmembers⟩, ?_⟩
  · rw [heq]
    exact hdeclared.ty_eq
  · rw [heq]
    exact hinfoTy
  · rw [heq]
    exact hname.trans (hknown.trans hdeclared.internalName)
  · rw [heq]

theorem stubClasses_grows (hapart : last.Apart) (options : Options) (package : Option String)
    (decls : List ClassDecl) (hty : ∀ decl ∈ decls,
      decl.ty = some (Ty.named (decl.internalName package))) :
    (stubClasses options decls).Grows last fun s out e =>
      (∀ name ∈ decls.flatMap ClassDecl.typeNames, name.Ordinary) →
      (∀ decl ∈ decls, decl.Declared package s) → s.Sound →
      e.Sound ∧ List.Forall₂ (ClassDecl.Stubbed package) out.1 (out.2.map ClassStub.info)
        ∧ out.1.map ClassDecl.name = decls.map ClassDecl.name := by
  induction decls with
  | nil =>
    refine (grows_pure _).mono ?_
    rintro s _ _ ⟨rfl, rfl⟩ _ _ hsound
    exact ⟨hsound, .nil, rfl⟩
  | cons first rest ih =>
    have hrest := ih fun decl hdecl => hty decl (List.mem_cons_of_mem _ hdecl)
    unfold stubClasses
    rw [hty first List.mem_cons_self]
    refine (grows_bind (ClassDecl.stub_grows hapart options package first).below fun one =>
      grows_bind hrest fun others => grows_pure _).mono ?_
    rintro s _ _ ⟨⟨decl, stub⟩, m, ⟨hbelow, hone⟩, ⟨decls', stubs⟩, _, hothers, rfl, rfl⟩ hnames
      hdeclared hsound
    rw [List.flatMap_cons] at hnames
    obtain ⟨hsound', hstubbed, hname⟩ :=
      hone (fun name hname => hnames name (List.mem_append_left _ hname))
        (hdeclared first List.mem_cons_self) hsound
    obtain ⟨hsound'', hall, hmap⟩ :=
      hothers (fun name hname => hnames name (List.mem_append_right _ hname))
        (fun decl hdecl => (hdeclared decl (List.mem_cons_of_mem _ hdecl)).below hbelow) hsound'
    refine ⟨hsound'', .cons hstubbed hall, ?_⟩
    rw [List.map_cons, List.map_cons, hmap]
    exact congrArg (· :: _) hname

end ClassCompiler
