import ClassCompiler.Proofs.Code.Success
import ClassCompiler.Proofs.Tree.Resolved
import ClassCompiler.Proofs.Unit.Analysis

/-!
# Classes of analyzed units

An analyzed unit gives all of its classes, in the order of its declarations. Every method of these
classes is an implicit constructor or comes from a declared method.

* `ClassDecl.Analyzed.generate`, `generateClasses_ok`
* `generateClasses_methods`
-/

namespace ClassCompiler

/-! ## Generation -/

/-- All methods among the members are generated. -/
def MembersGenerated (members : List Member) : Prop :=
  ∀ method, .method method ∈ members → method.state = .generated

theorem generateMembers_ok {last : Registry} (registry : Registry) {owner : Ty} {members : List Member}
    (h : MembersAnalyzed last owner members) (image : ClassImage) :
    ∃ final, (generateMembers registry members image).2 = .ok final ∧ final.name = image.name
      ∧ MembersGenerated (generateMembers registry members image).1 := by
  induction members generalizing image with
  | nil => exact ⟨image, rfl, rfl, fun _ h => (List.not_mem_nil h).elim⟩
  | cons first rest ih =>
    have hrest : MembersAnalyzed last owner rest := fun method hm =>
      h method (List.mem_cons_of_mem _ hm)
    cases first with
    | field decl =>
      obtain ⟨final, hok, hname, hgenerated⟩ := ih hrest image
      refine ⟨final, hok, hname, fun method hm => ?_⟩
      rcases List.mem_cons.mp hm with hm | hm
      · cases hm
      · exact hgenerated method hm
    | method decl =>
      obtain ⟨signature, frame, hanalyzed⟩ := h decl List.mem_cons_self
      unfold generateMembers
      rw [hanalyzed.generate registry]
      dsimp only
      obtain ⟨final, hok, hname, hgenerated⟩ := ih hrest (image.addMethod
        { mods := decl.mods
          name := decl.name
          descriptor := signature.descriptor
          exceptions := exceptionNames registry signature.exceptions
          code := ((decl.bodyCode { registry, returnTy := signature.returnTy }).run 0).code })
      refine ⟨final, hok, hname, fun method hm => ?_⟩
      rcases List.mem_cons.mp hm with hm | hm
      · cases hm
        rfl
      · exact hgenerated method hm

namespace ClassDecl

variable {last registry : Registry} {package : Option String} {decl : ClassDecl}
  {classes : ClassTable}

theorem Analyzed.generate (h : decl.Analyzed last package)
    (hlists : classes.Lists (decl.internalName package)) (options : Options)
    (registry : Registry) :
    ∃ image, (decl.generate options registry classes).2 = .ok image
      ∧ image.name = decl.internalName package
      ∧ MembersGenerated (decl.generate options registry classes).1.members := by
  obtain ⟨info, hinfo, hname⟩ := hlists
  obtain ⟨image, hok, himage, hgenerated⟩ :=
    generateMembers_ok registry h.members (info.outline options registry)
  have hfound : decl.ty.bind classes.class? = some info := by
    rw [h.ty_eq]
    exact hinfo
  unfold ClassDecl.generate
  rw [hfound]
  refine ⟨image, hok, ?_, hgenerated⟩
  rw [himage, ← hname]
  unfold ClassInfo.outline
  dsimp only
  split <;> rfl

end ClassDecl

theorem generateClasses_ok {last : Registry} {package : Option String} {decls : List ClassDecl}
    {classes : ClassTable} (h : ∀ decl ∈ decls, decl.Analyzed last package)
    (hlists : ∀ decl ∈ decls, classes.Lists (decl.internalName package)) (options : Options)
    (registry : Registry) :
    ∃ images, (generateClasses options registry classes decls).2 = .ok images
      ∧ images.map ClassImage.name = decls.map (ClassDecl.internalName package)
      ∧ ∀ decl ∈ (generateClasses options registry classes decls).1,
        MembersGenerated decl.members := by
  induction decls with
  | nil => exact ⟨[], rfl, rfl, fun _ h => (List.not_mem_nil h).elim⟩
  | cons first rest ih =>
    obtain ⟨image, hok, hname, hgenerated⟩ :=
      (h first List.mem_cons_self).generate (hlists first List.mem_cons_self) options registry
    obtain ⟨images, hoks, hnames, hall⟩ := ih (fun decl hdecl => h decl (List.mem_cons_of_mem _ hdecl))
      fun decl hdecl => hlists decl (List.mem_cons_of_mem _ hdecl)
    have heq : first.generate options registry classes
        = ((first.generate options registry classes).1, .ok image) := Prod.ext rfl hok
    unfold generateClasses
    rw [heq]
    dsimp only
    rw [hoks]
    refine ⟨image :: images, rfl, ?_, fun decl hdecl => ?_⟩
    · rw [List.map_cons, List.map_cons, hname, hnames]
    · rcases List.mem_cons.mp hdecl with rfl | hdecl
      · exact hgenerated
      · exact hall decl hdecl

/-! ## Methods of classes -/

/-- The method of a class that a declared one becomes. -/
def MethodDecl.Becomes (registry : Registry) (method : MethodDecl) (image : MethodImage) : Prop :=
  ∃ after, method.generate registry = .ok (image, after)

section

variable {registry : Registry}

theorem generateMembers_methods {members : List Member} {image final : ClassImage}
    (h : (generateMembers registry members image).2 = .ok final) :
    final.superName = image.superName ∧ ∀ m ∈ final.methods, m ∈ image.methods
      ∨ ∃ method, .method method ∈ members ∧ method.Becomes registry m := by
  induction members generalizing image with
  | nil =>
    cases h
    exact ⟨rfl, fun m hm => .inl hm⟩
  | cons first rest ih =>
    cases first with
    | field decl =>
      obtain ⟨hsuper, hmethods⟩ := ih h
      refine ⟨hsuper, fun m hm => (hmethods m hm).imp id ?_⟩
      rintro ⟨method, hmethod, hbecomes⟩
      exact ⟨method, List.mem_cons_of_mem _ hmethod, hbecomes⟩
    | method decl =>
      unfold generateMembers at h
      split at h
      · cases h
      · next made after hmade =>
        obtain ⟨hsuper, hmethods⟩ := ih h
        refine ⟨hsuper, fun m hm => ?_⟩
        rcases hmethods m hm with hm | ⟨method, hmethod, hbecomes⟩
        · rcases List.mem_append.mp hm with hm | hm
          · exact .inl hm
          · rw [List.mem_singleton.mp hm]
            exact .inr ⟨decl, List.mem_cons_self, after, hmade⟩
        · exact .inr ⟨method, List.mem_cons_of_mem _ hmethod, hbecomes⟩

/-- Every method of a class is its implicit constructor or was declared. -/
theorem ClassDecl.generate_methods {options : Options} {classes : ClassTable} {decl : ClassDecl}
    {image : ClassImage} (h : (decl.generate options registry classes).2 = .ok image) :
    ∀ m ∈ image.methods, m = implicitConstructor image.superName
      ∨ ∃ method, .method method ∈ decl.members ∧ method.Becomes registry m := by
  unfold ClassDecl.generate at h
  split at h
  · cases h
  · next info _ =>
    obtain ⟨hsuper, hmethods⟩ := generateMembers_methods h
    intro m hm
    refine (hmethods m hm).imp (fun hm => ?_) id
    rw [hsuper]
    unfold ClassInfo.outline at hm ⊢
    dsimp only at hm ⊢
    split at hm
    · next himplicit =>
      rw [if_pos himplicit]
      exact List.mem_singleton.mp hm
    · exact (List.not_mem_nil hm).elim

/-- A unit that gives its classes gives one for each declaration. -/
theorem generateClasses_forall₂ {options : Options} {classes : ClassTable}
    {decls : List ClassDecl} {images : List ClassImage}
    (h : (generateClasses options registry classes decls).2 = .ok images) :
    List.Forall₂ (fun decl image => (decl.generate options registry classes).2 = .ok image)
      decls images := by
  induction decls generalizing images with
  | nil =>
    cases h
    exact .nil
  | cons first rest ih =>
    unfold generateClasses at h
    split at h
    · cases h
    · next after image hgenerated =>
      have hfirst : (first.generate options registry classes).2 = .ok image := by rw [hgenerated]
      cases hrest : (generateClasses options registry classes rest).2 with
      | error error =>
        dsimp only at h
        rw [hrest] at h
        cases h
      | ok others =>
        dsimp only at h
        rw [hrest] at h
        cases h
        exact .cons hfirst (ih hrest)

theorem generateClasses_methods {options : Options} {classes : ClassTable}
    {decls : List ClassDecl} {images : List ClassImage}
    (h : (generateClasses options registry classes decls).2 = .ok images) :
    ∀ image ∈ images, ∃ decl ∈ decls, ∀ m ∈ image.methods,
      m = implicitConstructor image.superName
        ∨ ∃ method, .method method ∈ decl.members ∧ method.Becomes registry m := by
  intro image himage
  obtain ⟨decl, hdecl, hok⟩ := exists_of_forall₂ (generateClasses_forall₂ h) himage
  exact ⟨decl, hdecl, ClassDecl.generate_methods hok⟩

end

end ClassCompiler
