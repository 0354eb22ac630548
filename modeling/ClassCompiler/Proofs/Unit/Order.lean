import ClassCompiler.Proofs.Agreement
import ClassCompiler.Proofs.Unit.Additions
import ClassCompiler.Proofs.Unit.Methods

/-!
# Stubs in any order

A class is stubbed alike in all registries that the base has grown into: its supertypes, its members
and its errors do not depend on the classes that were stubbed before it. There is one exception. The
test of a `throws` clause reads supertypes, and those of the unit's own classes may not be set yet;
its errors count only for types that inherit from no class of the unit.

* `Setting.Settles`: the `throws` clauses whose test does not depend on the order
* `ClassDecl.stub_agrees`, `stubClasses_run`
-/

namespace ClassCompiler

open Check

namespace Setting

variable {setting : Setting} {s t : Registry} {known : List Ty} {name : TypeName}

/-- Two admitted registries that know the types. -/
structure Both (setting : Setting) (known : List Ty) (s t : Registry) : Prop where
  one : setting.Admits s
  two : setting.Admits t
  contains : ∀ ty ∈ known, s.contains ty = true ∧ t.contains ty = true

/-- The type inherits from no class of the unit. -/
def Outside (setting : Setting) (name : TypeName) : Prop :=
  ∀ ty known, setting.base.resolve name = .ok (ty, known) →
    ∀ ancestor, known.Inherits ty ancestor → ancestor ∉ setting.classes

/-- Either the errors of `throws` clauses do not count, or the type has nothing to do with the
classes of the unit. -/
def Settles (setting : Setting) (counts : CompileError → Bool) (name : TypeName) : Prop :=
  (∀ type line, counts (.invalidThrowsType type line) = false) ∨ setting.Outside name

namespace Both

theorem less (h : setting.Both known s t) {fewer : List Ty}
    (hfewer : ∀ ty ∈ fewer, ty ∈ known ∨ setting.base.contains ty = true) :
    setting.Both fewer s t := by
  refine ⟨h.one, h.two, fun ty hty => ?_⟩
  rcases hfewer ty hty with hty | hty
  · exact h.contains ty hty
  · exact ⟨h.one.contains hty, h.two.contains hty⟩

section

variable (hsetting : setting.Regular) (h : setting.Both known s t) {ty : Ty} (hty : ty ∈ known)

include hsetting h hty

theorem descriptor : t.descriptor ty = s.descriptor ty :=
  h.one.descriptor hsetting h.two (h.contains ty hty).1 (h.contains ty hty).2

theorem internalName : t.internalName ty = s.internalName ty :=
  h.one.internalName hsetting h.two (h.contains ty hty).1 (h.contains ty hty).2

theorem kind? : t.kind? ty = s.kind? ty :=
  h.one.kind? hsetting h.two (h.contains ty hty).1 (h.contains ty hty).2

theorem displayName : t.displayName ty = s.displayName ty :=
  h.one.displayName hsetting h.two (h.contains ty hty).1 (h.contains ty hty).2

theorem isAssignableFrom_throwable (hname : setting.Allows name) (hout : setting.Outside name)
    (hresolve : ∃ known, setting.base.resolve name = .ok (ty, known)) :
    t.isAssignableFrom .throwable ty = s.isAssignableFrom .throwable ty := by
  obtain ⟨start, hstart⟩ := hresolve
  have hclasses := hout ty start hstart
  obtain ⟨error, herror, -⟩ | ⟨ty', _, later, -, hlater, hadmits, hcontains⟩ :=
    hsetting.admits_base.resolve hsetting hname
  · rw [herror] at hstart
    cases hstart
  cases hlater.symm.trans hstart
  rw [hadmits.isAssignableFrom_throwable hsetting h.two hcontains (h.contains ty hty).2 hclasses,
    hadmits.isAssignableFrom_throwable hsetting h.one hcontains (h.contains ty hty).1 hclasses]

end

theorem resolve (hsetting : setting.Regular) (h : setting.Both known s t)
    (hname : setting.Allows name) :
    (∃ error, s.resolve name = .error error ∧ t.resolve name = .error error)
      ∨ ∃ ty s' t', s.resolve name = .ok (ty, s') ∧ t.resolve name = .ok (ty, t')
        ∧ setting.Both (ty :: known) s' t'
        ∧ ∃ start, setting.base.resolve name = .ok (ty, start) := by
  obtain ⟨error, hbase, hs⟩ | ⟨ty, start, s', hbase, hs, hadmits, hcontains⟩ :=
    h.one.resolve hsetting hname <;>
  obtain ⟨error', hbase', ht⟩ | ⟨ty', start', t', hbase', ht, hadmits', hcontains'⟩ :=
    h.two.resolve hsetting hname <;>
  cases hbase.symm.trans hbase'
  · exact .inl ⟨error, hs, ht⟩
  · refine .inr ⟨ty, s', t', hs, ht, ⟨hadmits, hadmits', fun other hother => ?_⟩, start, hbase⟩
    rcases List.mem_cons.mp hother with rfl | hother
    · exact ⟨hcontains, hcontains'⟩
    · obtain ⟨hone, htwo⟩ := h.contains other hother
      exact ⟨(Registry.below_resolve hs).contains hone, (Registry.below_resolve ht).contains htwo⟩

end Both

end Setting

/-! ## Resolving -/

namespace Registry

variable {registry later : Registry} {name : TypeName} {ty : Ty} {error : CompileError}

theorem resolveOrAny_of_error (valueOnly : Bool) (h : registry.resolve name = .error error) :
    registry.resolveOrAny valueOnly name = (.any, registry, [error]) := by
  unfold resolveOrAny resolveValue
  cases valueOnly <;> simp [h]

theorem resolveOrAny_of_ok (valueOnly : Bool) (h : registry.resolve name = .ok (ty, later)) :
    registry.resolveOrAny valueOnly name = if valueOnly = true ∧ ty = .void
      then (.any, registry, [.typeMismatch "'void' is not a valid type here" name.line])
      else (ty, later, []) := by
  unfold resolveOrAny resolveValue
  cases valueOnly
  · simp [h]
  · by_cases hvoid : ty = .void <;> simp [h, hvoid]

end Registry

variable {setting : Setting} {counts : CompileError → Bool}

section

variable (hsetting : setting.Regular) (known : List Ty)

include hsetting

theorem resolveName_agrees {name : TypeName} (hname : setting.Allows name) (valueOnly : Bool) :
    (resolveName valueOnly name).Agrees counts (setting.Both known) fun ty s t =>
      setting.Both (ty :: known) s t
        ∧ (ty ≠ .any → ∃ start, setting.base.resolve name = .ok (ty, start)) := by
  intro s t h
  have hany : setting.Both (.any :: known) s t := h.less fun ty hty => by
    rcases List.mem_cons.mp hty with rfl | hty
    · exact .inr (hsetting.closed.roots .any (by simp))
    · exact .inl hty
  unfold resolveName Check.run
  dsimp only
  obtain ⟨error, hs, ht⟩ | ⟨ty, s', t', hs, ht, hboth, hbase⟩ := h.resolve hsetting hname
  · rw [s.resolveOrAny_of_error valueOnly hs, t.resolveOrAny_of_error valueOnly ht]
    exact ⟨rfl, rfl, hany, fun hne => absurd rfl hne⟩
  · rw [s.resolveOrAny_of_ok valueOnly hs, t.resolveOrAny_of_ok valueOnly ht]
    split
    · exact ⟨rfl, rfl, hany, fun hne => absurd rfl hne⟩
    · exact ⟨rfl, rfl, hboth, fun _ => hbase⟩

theorem resolveSupertype_agrees {name : TypeName} (hname : setting.Allows name)
    (interfaceWanted : Bool) :
    (resolveSupertype interfaceWanted name).Agrees counts (setting.Both known) fun out =>
      setting.Both (out.toList ++ known) := by
  intro s t h
  unfold resolveSupertype Check.run
  dsimp only
  obtain ⟨error, hs, ht⟩ | ⟨ty, s', t', hs, ht, hboth, -⟩ := h.resolve hsetting hname
  · rw [hs, ht]
    exact ⟨rfl, rfl, h⟩
  · rw [hs, ht]
    dsimp only
    rw [hboth.kind? hsetting List.mem_cons_self, hboth.displayName hsetting List.mem_cons_self]
    generalize (if interfaceWanted then TypeKind.interface else .plainClass) = wanted
    split
    · exact ⟨rfl, rfl, hboth⟩
    · exact ⟨rfl, rfl, hboth.less fun ty hty => .inl (List.mem_cons_of_mem _ hty)⟩

theorem resolveInterfaces_agrees {names : List TypeName}
    (hnames : ∀ name ∈ names, setting.Allows name) :
    (resolveInterfaces names).Agrees counts (setting.Both known) fun out =>
      setting.Both (out ++ known) := by
  induction names generalizing known with
  | nil => exact agrees_pure fun _ _ h => h
  | cons first rest ih =>
    refine agrees_bind (resolveSupertype_agrees hsetting known (hnames first List.mem_cons_self) true)
      fun a => agrees_bind (ih _ fun name hname => hnames name (List.mem_cons_of_mem _ hname))
      fun b => agrees_pure fun s t h => h.less fun ty hty => .inl ?_
    simp only [List.mem_append] at hty ⊢
    tauto

theorem resolveParams_agrees {params : List FormalParam}
    (hnames : ∀ param ∈ params, setting.Allows param.type) :
    (resolveParams params).Agrees counts (setting.Both known) fun out =>
      setting.Both (out ++ known) := by
  induction params generalizing known with
  | nil => exact agrees_pure fun _ _ h => h
  | cons first rest ih =>
    refine agrees_bind ((resolveName_agrees hsetting known
      (hnames first List.mem_cons_self) true).mono fun _ _ _ h => h.1)
      fun a => agrees_bind (ih _ fun name hname => hnames name (List.mem_cons_of_mem _ hname))
      fun b => agrees_pure fun s t h => h.less fun ty hty => .inl ?_
    simp only [List.cons_append, List.mem_append, List.mem_cons] at hty ⊢
    tauto

theorem resolveExceptions_agrees (line : Nat) {names : List TypeName}
    (hnames : ∀ name ∈ names, setting.Allows name ∧ setting.Settles counts name) :
    (resolveExceptions line names).Agrees counts (setting.Both known) fun out =>
      setting.Both (out ++ known) := by
  induction names generalizing known with
  | nil => exact agrees_pure fun _ _ h => h
  | cons first rest ih =>
    obtain ⟨hallows, hsettles⟩ := hnames first List.mem_cons_self
    refine agrees_bind (resolveName_agrees hsetting known hallows false) fun a =>
      agrees_reportFound (fun s t h => ?_) (agrees_bind ((ih (a :: known) fun name hname =>
        hnames name (List.mem_cons_of_mem _ hname)).of_imp fun _ _ h => h.1)
      fun b => agrees_pure fun s t h => h.less fun ty hty => .inl ?_)
    · obtain ⟨hboth, hbase⟩ := h
      by_cases hany : a = .any
      · rw [if_pos (.inl hany), if_pos (.inl hany)]
      obtain hdropped | hout := hsettles
      · have hnone : ∀ registry : Registry,
            (if a = .any ∨ registry.isAssignableFrom .throwable a = true then []
              else [CompileError.invalidThrowsType (registry.displayName a) line]).filter counts
              = [] := by
          intro registry
          split
          · rfl
          · exact List.filter_cons_of_neg (by simp [hdropped])
        rw [hnone, hnone]
      · rw [hboth.displayName hsetting List.mem_cons_self,
          hboth.isAssignableFrom_throwable hsetting List.mem_cons_self hallows hout (hbase hany)]
    · simp only [List.cons_append, List.mem_append, List.mem_cons] at hty ⊢
      tauto

end

/-! ## Members -/

/-- The type names of a method in a setting, and the settled ones of its `throws` clause. -/
structure Setting.CoversMethod (setting : Setting) (counts : CompileError → Bool)
    (method : MethodDecl) : Prop where
  names : ∀ name ∈ method.typeNames, setting.Allows name
  exceptions : ∀ name ∈ method.exceptions, setting.Settles counts name

/-- The type names of a class in a setting, and its methods. -/
structure Setting.Covers (setting : Setting) (counts : CompileError → Bool) (decl : ClassDecl) :
    Prop where
  names : ∀ name ∈ decl.typeNames, setting.Allows name
  methods : MethodsHave (setting.CoversMethod counts) decl.members

section

variable (hsetting : setting.Regular) {ty : Ty}

include hsetting

theorem FieldDecl.stub_agrees {field : FieldDecl} (hname : setting.Allows field.type) :
    field.stub.Agrees counts (StubState.Alike ty (setting.Both []))
      fun _ => StubState.Alike ty (setting.Both []) := by
  unfold stub
  refine agrees_bind (StubState.agrees_onRegistry
      (Q := fun a => setting.Both [a])
      ((resolveName_agrees hsetting [] hname true).mono fun _ _ _ h => h.1)) fun a =>
    agrees_bind StubState.agrees_info fun info =>
    agrees_bind (agrees_read fun s t h => h.2.2.descriptor hsetting List.mem_cons_self)
      fun descriptor => agrees_bind (agrees_forM fun _ _ => StubState.agrees_addField _ _)
      fun _ => agrees_pure ?_
  rintro s t ⟨hstub, hty, h⟩
  exact ⟨hstub, hty, h.less fun _ hmem => (List.not_mem_nil hmem).elim⟩

theorem MethodDecl.resolveSignature_agrees {method : MethodDecl}
    (hcovers : setting.CoversMethod counts method) :
    method.resolveSignature.Agrees counts (setting.Both []) fun signature =>
      setting.Both signature.exceptions := by
  unfold resolveSignature
  have hparams : ∀ param ∈ method.params, setting.Allows param.type := fun param hparam =>
    hcovers.names param.type (List.mem_append_left _ (List.mem_append_right _
      (List.mem_map_of_mem hparam)))
  refine agrees_bind (resolveExceptions_agrees hsetting [] method.line fun name hname =>
      ⟨hcovers.names name (by simp [typeNames, hname]), hcovers.exceptions name hname⟩)
      fun exceptions =>
    agrees_bind (resolveParams_agrees hsetting _ hparams) fun params =>
    agrees_bind ((resolveName_agrees hsetting _
      (hcovers.names method.returnType (by simp [typeNames])) false).mono fun _ _ _ h => h.1)
      fun returnTy =>
    agrees_bind (agrees_read fun s t h => ?_) fun _ => agrees_pure fun s t h =>
      h.less fun other hother => .inl (by simp [hother])
  have hdescriptors : params.map t.descriptor = params.map s.descriptor :=
    List.map_congr_left fun param hparam => h.descriptor hsetting (by simp [hparam])
  unfold Registry.methodDescriptor
  rw [h.descriptor hsetting List.mem_cons_self, hdescriptors]

theorem MethodDecl.stub_agrees {method : MethodDecl} (hcovers : setting.CoversMethod counts method) :
    method.stub.Agrees counts (StubState.Alike ty (setting.Both []))
      fun _ => StubState.Alike ty (setting.Both []) := by
  unfold stub
  refine agrees_bind StubState.agrees_info fun info => agrees_bind (agrees_reportAll _) fun _ =>
    agrees_bind (StubState.agrees_onRegistry (resolveSignature_agrees hsetting hcovers))
      fun signature => agrees_bind (agrees_reportAll _) fun _ =>
    agrees_bind (agrees_read fun s t h => ?_) fun exceptions =>
    agrees_bind (StubState.agrees_addMethod _ _) fun _ => agrees_pure ?_
  · refine List.map_congr_left fun thrown hthrown => ?_
    exact h.2.2.internalName hsetting (List.mem_filter.mp hthrown).1
  · rintro s t ⟨hstub, hty, h⟩
    exact ⟨hstub, hty, h.less fun _ hmem => (List.not_mem_nil hmem).elim⟩

theorem stubFields_agrees {members : List Member}
    (hnames : ∀ field, .field field ∈ members → setting.Allows field.type) :
    (stubFields members).Agrees counts (StubState.Alike ty (setting.Both []))
      fun _ => StubState.Alike ty (setting.Both []) := by
  induction members with
  | nil => exact agrees_pure fun _ _ h => h
  | cons first rest ih =>
    have hrest := ih fun field h => hnames field (List.mem_cons_of_mem _ h)
    cases first with
    | field field =>
      exact agrees_bind (FieldDecl.stub_agrees hsetting (hnames field List.mem_cons_self))
        fun _ => agrees_bind hrest fun _ => agrees_pure fun _ _ h => h
    | method method => exact agrees_bind hrest fun _ => agrees_pure fun _ _ h => h

theorem stubMethods_agrees {members : List Member}
    (hmethods : MethodsHave (setting.CoversMethod counts) members) :
    (stubMethods members).Agrees counts (StubState.Alike ty (setting.Both []))
      fun _ => StubState.Alike ty (setting.Both []) := by
  induction members with
  | nil => exact agrees_pure fun _ _ h => h
  | cons first rest ih =>
    have hrest := ih hmethods.tail
    cases first with
    | field field => exact agrees_bind hrest fun _ => agrees_pure fun _ _ h => h
    | method method =>
      exact agrees_bind (MethodDecl.stub_agrees hsetting (hmethods method List.mem_cons_self))
        fun _ => agrees_bind hrest fun _ => agrees_pure fun _ _ h => h

theorem stubMembers_agrees {decl : ClassDecl} (options : Options)
    (hcovers : setting.Covers counts decl) :
    (stubMembers options decl.members).Agrees counts (StubState.Alike ty (setting.Both []))
      fun _ => StubState.Alike ty (setting.Both []) := by
  unfold stubMembers
  have hfields : ∀ field, .field field ∈ decl.members → setting.Allows field.type :=
    fun field hfield => hcovers.names field.type (List.mem_append_right _
      (List.mem_flatMap.mpr ⟨.field field, hfield, List.mem_cons_self⟩))
  refine agrees_bind_gives (stubFields_agrees hsetting hfields) (stubFields_have hcovers.methods)
    fun members hmembers => agrees_bind (agrees_modify ?_) fun _ =>
      stubMethods_agrees hsetting hmembers
  rintro s t ⟨hstub, hty, h⟩
  dsimp only
  rw [hstub]
  split
  · exact ⟨rfl, hty, h⟩
  · exact ⟨hstub, hty, h⟩

end

/-! ## Classes -/

namespace ClassDecl

section

variable (hsetting : setting.Regular) {decl : ClassDecl} (hcovers : setting.Covers counts decl)

include hsetting hcovers

theorem resolveSupertypes_agrees :
    decl.resolveSupertypes.Agrees counts (setting.Both []) fun out =>
      setting.Both (out.1 :: out.2) := by
  have hinterfaces : ∀ name ∈ decl.interfaces, setting.Allows name := fun name hname =>
    hcovers.names name (List.mem_append_left _ (List.mem_append_right _ hname))
  have hrest : ∀ superclass : Option Ty, (do
      let interfaces ← resolveInterfaces decl.interfaces
      pure (superclass.getD .object, interfaces)).Agrees counts
        (setting.Both superclass.toList) fun out => setting.Both (out.1 :: out.2) := by
    intro superclass
    refine agrees_bind (resolveInterfaces_agrees hsetting _ hinterfaces) fun interfaces =>
      agrees_pure fun s t h => h.less fun other hother => ?_
    rcases List.mem_cons.mp hother with rfl | hother
    · cases superclass with
      | none => exact .inr (hsetting.closed.roots .object (by simp))
      | some superclass => exact .inl (by simp)
    · exact .inl (List.mem_append_left _ hother)
  unfold resolveSupertypes
  dsimp only
  split
  · next name _ hname =>
    have hallows : setting.Allows name := hcovers.names name
      (List.mem_append_left _ (List.mem_append_left _ (by rw [hname]; exact List.mem_singleton_self name)))
    refine agrees_bind (resolveSupertype_agrees hsetting [] hallows false) fun superclass =>
      (hrest superclass).of_imp fun s t h => ?_
    rwa [List.append_nil] at h
  · exact hrest none

theorem stub_agrees (options : Options) {ty : Ty} (hty : ty ∈ setting.classes) :
    (decl.stub options ty).Agrees counts (setting.Both []) fun out s t =>
      setting.Both [] s t ∧ out.2.info.ty = ty := by
  unfold stub
  refine agrees_bind (resolveSupertypes_agrees hsetting hcovers) fun pair => ?_
  obtain ⟨superclass, interfaces⟩ := pair
  have hset : (Check.modify fun registry : Registry =>
      registry.setSupertypes ty (some superclass) interfaces).Agrees counts
        (setting.Both (superclass :: interfaces)) fun _ =>
          setting.Both (ty :: superclass :: interfaces) := by
    refine agrees_modify fun s t h => ⟨h.one.setSupertypes hty hsetting _ _,
      h.two.setSupertypes hty hsetting _ _, fun other hother => ?_⟩
    have hbase : s.contains other = true ∧ t.contains other = true := by
      rcases List.mem_cons.mp hother with rfl | hother
      · exact ⟨h.one.contains (hsetting.classes _ hty), h.two.contains (hsetting.classes _ hty)⟩
      · exact h.contains other hother
    exact ⟨(Registry.below_setSupertypes s ty _ _).contains hbase.1,
      (Registry.below_setSupertypes t ty _ _).contains hbase.2⟩
  refine agrees_bind hset fun _ s t h => ?_
  have houtline : decl.outline ty superclass interfaces t
      = decl.outline ty superclass interfaces s := by
    have hinterfaces : interfaces.map t.internalName = interfaces.map s.internalName :=
      List.map_congr_left fun interface hmem => h.internalName hsetting (by simp [hmem])
    unfold outline
    rw [h.internalName hsetting List.mem_cons_self,
      h.internalName hsetting (List.mem_cons_of_mem _ List.mem_cons_self), hinterfaces]
  have hstart : StubState.Alike ty (setting.Both [])
      ⟨s, decl.outline ty superclass interfaces s⟩ ⟨t, decl.outline ty superclass interfaces t⟩ :=
    ⟨houtline, rfl, h.less fun _ hmem => (List.not_mem_nil hmem).elim⟩
  obtain ⟨hvalue, herrors, hstub, hinfo, hboth⟩ :=
    stubMembers_agrees hsetting options hcovers _ _ hstart
  unfold Check.run at hvalue herrors hstub hinfo hboth ⊢
  dsimp only
  rw [hvalue, hstub]
  exact ⟨rfl, herrors, hboth, hinfo⟩

end

/-- The class with its handle. -/
def declared (package : Option String) (decl : ClassDecl) : ClassDecl :=
  { decl with ty := some (Ty.named (decl.internalName package)) }

/-- What stubbing a class comes to as the first of its unit. -/
def stubFirst (options : Options) (package : Option String) (base : Registry) (decl : ClassDecl) :
    Checked Registry (ClassDecl × ClassStub) :=
  ((decl.declared package).stub options (Ty.named (decl.internalName package))).run base

end ClassDecl

/-- Every class of a unit is stubbed as if it were the first. -/
theorem stubClasses_run (hsetting : setting.Regular) (options : Options) (package : Option String)
    {decls : List ClassDecl} (hcovers : ∀ decl ∈ decls, setting.Covers counts decl)
    (hclasses : ∀ decl ∈ decls, Ty.named (decl.internalName package) ∈ setting.classes)
    {registry : Registry} (h : setting.Admits registry) :
    let done := (stubClasses options (decls.map (ClassDecl.declared package))).run registry
    let alone := ClassDecl.stubFirst options package setting.base
    done.value.1 = decls.map (fun decl => (alone decl).value.1)
      ∧ done.value.2 = decls.map (fun decl => (alone decl).value.2)
      ∧ done.errors.filter counts = decls.flatMap fun decl => (alone decl).errors.filter counts := by
  induction decls generalizing registry with
  | nil => exact ⟨rfl, rfl, rfl⟩
  | cons first rest ih =>
    have hcover : setting.Covers counts (first.declared package) :=
      ⟨(hcovers first List.mem_cons_self).names, (hcovers first List.mem_cons_self).methods⟩
    obtain ⟨hvalue, herrors, hboth, -⟩ := ClassDecl.stub_agrees hsetting hcover options
      (hclasses first List.mem_cons_self) setting.base registry
      ⟨hsetting.admits_base, h, fun _ hmem => (List.not_mem_nil hmem).elim⟩
    obtain ⟨hdecls, hstubs, hrest⟩ := ih
      (fun decl hdecl => hcovers decl (List.mem_cons_of_mem _ hdecl))
      (fun decl hdecl => hclasses decl (List.mem_cons_of_mem _ hdecl)) hboth.two
    refine ⟨congrArg₂ List.cons (congrArg Prod.fst hvalue) hdecls,
      congrArg₂ List.cons (congrArg Prod.snd hvalue) hstubs, ?_⟩
    rw [List.flatMap_cons, ← hrest]
    refine Eq.trans ?_ (congrArg (· ++ _) herrors)
    rw [← List.filter_append]
    refine congrArg (List.filter counts) ?_
    exact congrArg _ (List.append_nil _)

end ClassCompiler
