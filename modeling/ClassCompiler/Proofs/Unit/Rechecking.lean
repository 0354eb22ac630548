import ClassCompiler.Proofs.Code.Registries
import ClassCompiler.Proofs.Unit.Redeclaring

/-!
# Units analyzed and generated again

The stubs of a unit that was analyzed, with the bodies that the analysis left behind, are analyzed
once more. If no local has an initializer and everything in the bodies lasts, they come out as they
were. Classes generated from them are the same again, since the registry has the same entries.

* `ClassDecl.checkList_repeats`
* `CompilationUnit.generate_same`
-/

namespace ClassCompiler

open Check

/-! ## Registries with the same entries -/

namespace Registry.PartOf

variable {s t : Registry} (h : s.PartOf t) (h' : t.PartOf s)

include h h'

theorem get?_eq (ty : Ty) : t.get? ty = s.get? ty := by
  cases hs : s.get? ty with
  | some entry => exact h.entries ty entry hs
  | none =>
    cases ht : t.get? ty with
    | none => rfl
    | some entry => cases hs.symm.trans (h'.entries ty entry ht)

theorem kind?_eq : t.kind? = s.kind? := by
  funext ty
  unfold Registry.kind?
  rw [h.get?_eq h']

theorem internalName_eq : t.internalName = s.internalName := by
  funext ty
  unfold Registry.internalName
  rw [h.get?_eq h']

theorem descriptor_eq : t.descriptor = s.descriptor := by
  funext ty
  unfold Registry.descriptor
  rw [h.get?_eq h']

theorem ancestors_eq : t.ancestors = s.ancestors := by
  funext ty
  refine ancestors_congr fun ancestor _ => ?_
  unfold Registry.supertypes
  rw [h.get?_eq h']

/-- The nesting of arrays ends for types that both know; of others no elements are known. -/
theorem isAssignableFrom_eq (hs : s.Founded) (ht : t.Nested) :
    t.isAssignableFrom = s.isAssignableFrom := by
  funext target source
  have hunknown : ∀ ty, s.contains ty ≠ true → s.elementType? ty = none
      ∧ t.elementType? ty = none := by
    intro ty hty
    have hnone : s.get? ty = none := by
      cases hget : s.get? ty with
      | none => rfl
      | some entry => exact absurd (contains_iff.mpr ⟨entry, hget⟩) hty
    unfold Registry.elementType?
    rw [h.kind?_eq h']
    unfold Registry.kind?
    rw [hnone]
    exact ⟨rfl, rfl⟩
  have hplain : (s.elementType? target = none ∧ t.elementType? target = none)
      ∨ (s.elementType? source = none ∧ t.elementType? source = none) →
      t.isAssignableFrom target source = s.isAssignableFrom target source := by
    intro hnone
    unfold Registry.isAssignableFrom
    rw [isAssignableWithin_plain (hnone.imp And.left And.left),
      isAssignableWithin_plain (hnone.imp And.right And.right), h.ancestors_eq h']
  by_cases htarget : s.contains target = true
  · by_cases hsource : s.contains source = true
    · exact (h.agree hs ht).isAssignableFrom target source (h.share htarget) (h.share hsource)
    · exact hplain (.inr (hunknown source hsource))
  · exact hplain (.inl (hunknown target htarget))

end Registry.PartOf

/-- Whether a node lasts is told from the entries. -/
theorem Expr.lasts_same {s t : Registry} (h : s.PartOf t) (h' : t.PartOf s) (hs : s.Founded)
    (ht : t.Nested) (site : Site) (hidden : List String) (e : Expr) :
    e.lasts ⟨site, t⟩ hidden = e.lasts ⟨site, s⟩ hidden := by
  have hhierarchy : site.classes.hierarchy t = site.classes.hierarchy s := by
    funext ty
    unfold ClassTable.hierarchy
    rw [h.ancestors_eq h']
  have hfield : (ExprEnv.mk site t).field? = (ExprEnv.mk site s).field? := by
    funext ty name
    unfold ExprEnv.field? ClassTable.lookupField?
    rw [hhierarchy]
  have hmethod : (ExprEnv.mk site t).method? = (ExprEnv.mk site s).method? := by
    funext ty name args
    unfold ExprEnv.method? ClassTable.lookupMethod? ClassTable.candidates MethodEntry.acceptsWidened
    rw [hhierarchy, h.isAssignableFrom_eq h' hs ht]
  unfold lasts
  rw [hfield, hmethod]

/-! ## Bodies -/

namespace MethodDecl

/-- The locals of a method that are declared in its body. -/
def declarators (method : MethodDecl) : List Declarator :=
  method.body.toList.flatMap fun body =>
    (Stmt.declsList body.stmts).flatMap LocalDecl.declarators

def localNames (method : MethodDecl) : List String :=
  method.params.map FormalParam.name ++ method.declarators.map Declarator.name

/-- The names of the fields that are selected where a simple name could not stand. -/
def hiddenNames (method : MethodDecl) : List String :=
  method.nodes.filterMap (Expr.hiding? method.localNames)

/-- No local has an initializer. -/
def Bare (method : MethodDecl) : Prop := ∀ d ∈ method.declarators, d.init = none

instance (method : MethodDecl) : Decidable method.Bare :=
  inferInstanceAs (Decidable (∀ d ∈ method.declarators, d.init = none))

/-- What the analysis made of a method lasts. -/
def Lasts (site : Site) (last : Registry) (before after : MethodDecl) : Prop :=
  after.Lasting site last before.hiddenNames

instance (site : Site) (last : Registry) (before after : MethodDecl) :
    Decidable (before.Lasts site last after) :=
  inferInstanceAs (Decidable (∀ d ∈ after.nodes, d.lasts ⟨site, last⟩ before.hiddenNames = true))

theorem Bare.repeatable {method : MethodDecl} (h : method.Bare) :
    method.Repeatable method.localNames method.hiddenNames := by
  refine ⟨fun param hparam => List.mem_append_left _ (List.mem_map_of_mem hparam),
    fun body hbody s hs => ⟨fun d hd text htext => ?_, fun decl hdecl d hd => ?_⟩⟩
  · exact List.mem_filterMap.mpr ⟨d, List.mem_flatMap.mpr ⟨body, Option.mem_toList.mpr hbody,
      Stmt.mem_nodesList.mpr ⟨s, hs, hd⟩⟩, htext⟩
  · have hlocal : d ∈ method.declarators := List.mem_flatMap.mpr ⟨body, Option.mem_toList.mpr hbody,
      List.mem_flatMap.mpr ⟨decl, Stmt.mem_declsList.mpr ⟨s, hs, hdecl⟩, hd⟩⟩
    exact ⟨h d hlocal, List.mem_append_right _ (List.mem_map_of_mem hlocal)⟩

/-- A method that is ready for an analysis which can be repeated. -/
structure Awaits (registry : Registry) (method : MethodDecl) : Prop where
  isStubbed : method.state = .stubbed
  bare : method.Bare
  signed : method.SignedIn registry

theorem Awaits.learn {s t : Registry} {method : MethodDecl} (h : method.Awaits s)
    (hpart : s.PartOf t) : method.Awaits t := by
  obtain ⟨signature, hsignature, hknown⟩ := h.signed
  exact ⟨h.isStubbed, h.bare, signature, hsignature, fun ty hty => hpart.contains (hknown ty hty)⟩

end MethodDecl

/-- Everything that an analysis left in the methods of a class lasts. -/
def ClassDecl.Lasts (classes : ClassTable) (last : Registry) (before after : ClassDecl) : Prop :=
  ∀ owner ∈ after.ty,
    List.Forall₂ (MethodDecl.Lasts ⟨classes, owner⟩ last) before.methods after.methods

instance (classes : ClassTable) (last : Registry) (before after : ClassDecl) :
    Decidable (before.Lasts classes last after) :=
  inferInstanceAs (Decidable (∀ owner ∈ after.ty,
    List.Forall₂ (MethodDecl.Lasts ⟨classes, owner⟩ last) before.methods after.methods))

section

variable {last : Registry} (hlast : last.Nested)

include hlast

theorem Member.checkList_repeats {site : Site} {s : Registry} (hs : s.Founded)
    (hsite : site.Among fun ty => s.contains ty = true) {members : List Member}
    (hmembers : MethodsHave (MethodDecl.Awaits s) members) :
    (checkList site members).Clean s fun out e => s.PartOf e ∧ e.Founded
      ∧ Member.SameStubs members out ∧ (e.PartOf last →
        List.Forall₂ (MethodDecl.Lasts site last) (members.filterMap Member.method?)
          (out.filterMap Member.method?) →
        (checkList site (out.map Member.restubbed)).Answers last out last) := by
  induction members generalizing s with
  | nil => exact clean_pure ⟨.refl s, hs, .nil, fun _ _ => answers_pure⟩
  | cons first rest ih =>
    cases first with
    | field field =>
      refine clean_bind (Q := fun one m => one = .field field ∧ m = s) (clean_pure ⟨rfl, rfl⟩)
        fun one m hone => ?_
      obtain ⟨rfl, rfl⟩ := hone
      refine clean_bind (ih hs hsite hmembers.tail) fun others e hothers => clean_pure ?_
      obtain ⟨hpart, hfounded, hsame, hagain⟩ := hothers
      exact ⟨hpart, hfounded, .cons (.field field) hsame, fun hlater hlasts =>
        answers_bind answers_pure (answers_bind (hagain hlater hlasts) answers_pure)⟩
    | method method =>
      have hmethod := hmembers method List.mem_cons_self
      have hcheck : ∀ method : MethodDecl, method.state = .stubbed →
          Member.check site (.method method) = .method <$> method.check site :=
        fun _ hstate => if_pos hstate
      unfold checkList
      rw [hcheck method hmethod.isStubbed]
      refine clean_bind (clean_map (f := Member.method) (S := fun one m => ∃ after,
          one = .method after ∧ method.SameStub after ∧ s.PartOf m ∧ m.Founded
          ∧ (m.PartOf last → method.Lasts site last after →
            (after.restubbed.check site).Answers last after last))
        (((method.check_repeats hlast hs hsite hmethod.bare.repeatable hmethod.signed).and_value
          (method.check_sameStub site s)).mono fun after m hone =>
            ⟨after, rfl, hone.2, hone.1⟩)) fun one m hone => ?_
      obtain ⟨after, rfl, hsame, hpart, hfounded, hagain⟩ := hone
      refine clean_bind (ih hfounded (hsite.mono fun _ => hpart.contains)
        fun other hother => (hmembers.tail other hother).learn hpart) fun others e hothers =>
        clean_pure ?_
      obtain ⟨hpart', hfounded', hsame', hagain'⟩ := hothers
      refine ⟨hpart.trans hpart', hfounded', .cons (.method hsame) hsame', fun hlater hlasts => ?_⟩
      cases hlasts with
      | cons hfirst hrest =>
        have hone : (Member.check site (.method after.restubbed)).Answers last (.method after) last := by
          rw [hcheck after.restubbed rfl]
          exact answers_map Member.method (hagain (hpart'.trans hlater) hfirst)
        exact answers_bind hone (answers_bind (hagain' hlater hrest) answers_pure)

/-- A declaration whose methods are ready for an analysis which can be repeated. -/
structure ClassDecl.Awaits (registry : Registry) (decl : ClassDecl) : Prop where
  ty : ∃ ty, decl.ty = some ty ∧ registry.contains ty = true
  methods : MethodsHave (MethodDecl.Awaits registry) decl.members

omit hlast in
theorem ClassDecl.Awaits.learn {s t : Registry} {decl : ClassDecl} (h : decl.Awaits s)
    (hpart : s.PartOf t) : decl.Awaits t := by
  obtain ⟨ty, hty, hknown⟩ := h.ty
  exact ⟨⟨ty, hty, hpart.contains hknown⟩,
    fun method hmethod => (h.methods method hmethod).learn hpart⟩

theorem ClassDecl.check_repeats {classes : ClassTable} {s : Registry} (hs : s.Founded)
    (hclasses : ∀ info ∈ classes.classes, info.Among fun ty => s.contains ty = true)
    {decl : ClassDecl} (hdecl : decl.Awaits s) :
    (decl.check classes).Clean s fun out e => s.PartOf e ∧ e.Founded ∧ decl.SameStubs out
      ∧ (e.PartOf last → decl.Lasts classes last out →
        (out.restubbed.check classes).Answers last out last) := by
  obtain ⟨owner, howner, hknown⟩ := hdecl.ty
  have hsite : (Site.mk classes owner).Among fun ty => s.contains ty = true := ⟨hclasses, hknown⟩
  rw [check_declared classes howner]
  refine clean_bind (Member.checkList_repeats hlast hs hsite hdecl.methods)
    fun members e hmembers => clean_pure ?_
  obtain ⟨hpart, hfounded, hsame, hagain⟩ := hmembers
  refine ⟨hpart, hfounded, ⟨members, rfl, hsame⟩, fun hlater hlasts => ?_⟩
  have howner' : (restubbed { decl with members }).ty = some owner := howner
  rw [check_declared classes howner']
  have hmethods := hlasts owner howner
  rw [decl.methods_eq, ClassDecl.methods_eq] at hmethods
  exact answers_bind (hagain hlater hmethods) answers_pure

theorem ClassDecl.checkList_repeats {classes : ClassTable} {s : Registry} (hs : s.Founded)
    (hclasses : ∀ info ∈ classes.classes, info.Among fun ty => s.contains ty = true)
    {decls : List ClassDecl} (hdecls : ∀ decl ∈ decls, decl.Awaits s) :
    (checkList classes decls).Clean s fun out e => s.PartOf e ∧ e.Founded
      ∧ List.Forall₂ ClassDecl.SameStubs decls out
      ∧ (e.PartOf last → List.Forall₂ (ClassDecl.Lasts classes last) decls out →
        (checkList classes (out.map ClassDecl.restubbed)).Answers last out last) := by
  induction decls generalizing s with
  | nil => exact clean_pure ⟨.refl s, hs, .nil, fun _ _ => answers_pure⟩
  | cons first rest ih =>
    refine clean_bind (check_repeats hlast hs hclasses (hdecls first List.mem_cons_self))
      fun one m hone => ?_
    obtain ⟨hpart, hfounded, hsame, hagain⟩ := hone
    refine clean_bind (ih hfounded (fun info hinfo => (hclasses info hinfo).mono fun _ =>
      hpart.contains) fun decl hdecl => (hdecls decl (List.mem_cons_of_mem _ hdecl)).learn hpart)
      fun others e hothers => clean_pure ?_
    obtain ⟨hpart', hfounded', hsame', hagain'⟩ := hothers
    refine ⟨hpart.trans hpart', hfounded', .cons hsame hsame', fun hlater hlasts => ?_⟩
    cases hlasts with
    | cons hfirst hrest =>
      exact answers_bind (hagain (hpart'.trans hlater) hfirst)
        (answers_bind (hagain' hlater hrest) answers_pure)

end

/-! ## Generation -/

/-- A method whose code was generated. -/
def MethodDecl.generated (method : MethodDecl) : MethodDecl := { method with state := .generated }

def Member.generated : Member → Member
  | field decl => field decl
  | method decl => method decl.generated

def ClassDecl.generated (decl : ClassDecl) : ClassDecl :=
  { decl with members := decl.members.map Member.generated }

section

variable {s t : Registry} (h : s.PartOf t) (h' : t.PartOf s)

include h h'

theorem Expr.uses_same (e : Expr) : e.uses t = e.uses s := by
  have hplace : Place.uses t = Place.uses s := by
    funext place
    cases place <;> simp only [Place.uses, FieldRef.use, h.internalName_eq h', h.descriptor_eq h']
  have hmethod : MethodRef.use t = MethodRef.use s := by
    funext name method
    unfold MethodRef.use
    rw [h.internalName_eq h']
  unfold uses
  rw [hplace, hmethod]

theorem MethodDecl.generate_same {method after : MethodDecl} {image : MethodImage}
    (hok : method.generate s = .ok (image, after)) :
    method.generate t = .ok (image, method.generated) := by
  obtain ⟨signature, hsignature, hdone, rfl⟩ := Becomes.image_eq ⟨after, hok⟩
  have hcode := method.bodyCode_same signature.returnTy (fun d _ => d.uses_same h h') 0 () hdone
  have hnames : exceptionNames t = exceptionNames s := by
    unfold exceptionNames
    rw [h.internalName_eq h']
  unfold generate attempt header generated
  rw [(MethodDecl.generate_ok hok).1, hsignature, hnames]
  simp only [Except.map, bind, Except.bind]
  rw [hcode, hdone]
  rfl

/-- Where a class gets all its methods, it gets the same ones again. -/
theorem generateMembers_same {members : List Member} {image final : ClassImage}
    (hok : (generateMembers s members image).2 = .ok final) :
    generateMembers t members image = (members.map Member.generated, .ok final) := by
  induction members generalizing image with
  | nil =>
    cases hok
    rfl
  | cons first rest ih =>
    cases first with
    | field field =>
      unfold generateMembers at hok ⊢
      rw [ih hok]
      rfl
    | method method =>
      unfold generateMembers at hok ⊢
      cases hmade : method.generate s with
      | error error =>
        rw [hmade] at hok
        cases hok
      | ok made =>
        rw [hmade] at hok
        rw [MethodDecl.generate_same h h' hmade]
        dsimp only
        rw [ih hok]
        rfl

theorem ClassDecl.generate_same {options : Options} {classes : ClassTable} {decl : ClassDecl}
    {image : ClassImage} (hok : (decl.generate options s classes).2 = .ok image) :
    decl.generate options t classes = (decl.generated, .ok image) := by
  have houtline : ClassInfo.outline options t = ClassInfo.outline options s := by
    unfold ClassInfo.outline
    rw [h.internalName_eq h', h.descriptor_eq h']
  unfold generate at hok ⊢
  rw [houtline]
  cases hinfo : decl.ty.bind classes.class? with
  | none =>
    rw [hinfo] at hok
    cases hok
  | some info =>
    rw [hinfo] at hok
    dsimp only at hok ⊢
    rw [generateMembers_same h h' hok]
    rfl

theorem generateClasses_same {options : Options} {classes : ClassTable} {decls : List ClassDecl}
    {images : List ClassImage} (hok : (generateClasses options s classes decls).2 = .ok images) :
    generateClasses options t classes decls = (decls.map ClassDecl.generated, .ok images) := by
  induction decls generalizing images with
  | nil =>
    cases hok
    rfl
  | cons first rest ih =>
    unfold generateClasses at hok ⊢
    cases hmade : first.generate options s classes with
    | mk after result =>
      rw [hmade] at hok
      cases result with
      | error error => cases hok
      | ok image =>
        rw [ClassDecl.generate_same h h' (by rw [hmade])]
        cases hrest : (generateClasses options s classes rest).2 with
        | error error =>
          dsimp only at hok
          rw [hrest] at hok
          cases hok
        | ok others =>
          dsimp only at hok ⊢
          rw [hrest] at hok
          cases hok
          rw [ih hrest]
          rfl

/-- The classes of a unit, from a registry with the same entries. -/
theorem CompilationUnit.generate_same {options : Options} {classes : ClassTable}
    {unit : CompilationUnit} {images : List ClassImage}
    (hok : (unit.generate options s classes).2 = .ok images) :
    unit.generate options t classes
      = ({ unit with types := unit.types.map ClassDecl.generated }, .ok images) := by
  unfold generate
  rw [generateClasses_same h h' hok]

end

end ClassCompiler
