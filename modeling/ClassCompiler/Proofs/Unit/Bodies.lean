import ClassCompiler.Proofs.Unit.Names
import ClassCompiler.Unit.Bodies

/-!
# Analysis of units accepts

A unit with ordinary names that is stubbed and analyzed without an error: all of its methods are
accepted against the registry that the analysis ends with, and the table of its classes has each of
them under its own name.

* `ClassDecl.Analyzed`: a class all of whose methods are analyzed
* `ClassTable.Lists`: the classes of a unit can be found
* `CompilationUnit.stub_check_grows`
-/

namespace ClassCompiler

open Check

variable {last : Registry}

/-! ## Members -/

theorem Member.check_grows (hapart : last.Apart) (site : Site) (member : Member) :
    (member.check site).Grows last fun s out e =>
      MembersStubbed [member] → site.Sound → s.Sound → e.Sound ∧
        ∀ method, out = .method method →
          ∃ signature frame, method.Analyzed last site.owner signature frame := by
  cases member with
  | field decl =>
    refine (grows_pure _).mono ?_
    rintro s _ _ ⟨rfl, rfl⟩ _ _ hsound
    exact ⟨hsound, fun method h => by cases h⟩
  | method decl =>
    have hcases : Member.check site (.method decl)
        = if decl.state = .stubbed then method <$> decl.check site else pure (method decl) := rfl
    rw [hcases]
    split
    · refine (grows_map (MethodDecl.check_grows site hapart decl)).mono ?_
      rintro s _ e ⟨out, rfl, hcheck⟩ hstubbed hsite hsound
      obtain ⟨signature, hsignature⟩ := hstubbed decl List.mem_cons_self
      obtain ⟨hsound', frame, hanalyzed⟩ := hcheck signature hsignature hsite hsound
      refine ⟨hsound', fun method h => ?_⟩
      cases h
      exact ⟨signature, frame, hanalyzed⟩
    · next hstate =>
      refine (grows_pure _).mono ?_
      rintro s _ _ ⟨rfl, rfl⟩ hstubbed _ _
      obtain ⟨signature, hsignature⟩ := hstubbed decl List.mem_cons_self
      exact absurd hsignature.isStubbed hstate

/-- The methods among the members have gone through an analysis without errors. -/
def MembersAnalyzed (registry : Registry) (owner : Ty) (members : List Member) : Prop :=
  ∀ method, .method method ∈ members →
    ∃ signature frame, method.Analyzed registry owner signature frame

theorem Member.checkList_grows (hapart : last.Apart) (site : Site) (members : List Member) :
    (checkList site members).Grows last fun s out e =>
      MembersStubbed members → site.Sound → s.Sound →
      e.Sound ∧ MembersAnalyzed last site.owner out := by
  induction members with
  | nil =>
    refine (grows_pure _).mono ?_
    rintro s _ _ ⟨rfl, rfl⟩ _ _ hsound
    exact ⟨hsound, fun _ h => (List.not_mem_nil h).elim⟩
  | cons first rest ih =>
    refine (grows_bind (first.check_grows hapart site) fun one =>
      grows_bind ih fun others => grows_pure _).mono ?_
    rintro s _ _ ⟨one, m, hone, others, _, hothers, rfl, rfl⟩ hstubbed hsite hsound
    obtain ⟨hsound', hfirst⟩ := hone (fun method h =>
      hstubbed method (List.mem_cons.mpr (.inl (List.mem_singleton.mp h)))) hsite hsound
    obtain ⟨hsound'', hrest⟩ := hothers (fun method h =>
      hstubbed method (List.mem_cons_of_mem _ h)) hsite hsound'
    refine ⟨hsound'', fun method h => ?_⟩
    rcases List.mem_cons.mp h with h | h
    · exact hfirst method h.symm
    · exact hrest method h

/-! ## Classes -/

theorem ClassDecl.mem_methods {decl : ClassDecl} {method : MethodDecl} :
    method ∈ decl.methods ↔ .method method ∈ decl.members := by
  unfold methods
  rw [List.mem_filterMap]
  constructor
  · rintro ⟨member, hmember, heq⟩
    cases member with
    | field => cases heq
    | method decl =>
      cases heq
      exact hmember
  · exact fun h => ⟨_, h, rfl⟩

theorem CompilationUnit.mem_methods {unit : CompilationUnit} {method : MethodDecl} :
    method ∈ unit.methods ↔ ∃ decl ∈ unit.types, .method method ∈ decl.members := by
  unfold methods
  rw [List.mem_flatMap]
  simp only [ClassDecl.mem_methods]

namespace ClassDecl

/-- A class after an analysis without errors. -/
structure Analyzed (registry : Registry) (package : Option String) (decl : ClassDecl) : Prop where
  ty_eq : decl.ty = some (Ty.named (decl.internalName package))
  isReference : (Ty.named (decl.internalName package)).isReference = true
  members : MembersAnalyzed registry (Ty.named (decl.internalName package)) decl.members

theorem check_grows (hapart : last.Apart) (classes : ClassTable) (package : Option String)
    (decl : ClassDecl) :
    (decl.check classes).Grows last fun s out e => ∀ info, decl.Stubbed package info →
      classes.Sound → s.Sound → e.Sound ∧ out.Analyzed last package ∧ out.name = decl.name := by
  unfold check
  split
  · next hnone =>
    refine (grows_pure _).mono ?_
    rintro s _ _ ⟨rfl, rfl⟩ info hstubbed
    rw [hstubbed.ty_eq] at hnone
    cases hnone
  · next owner hsome =>
    refine (grows_bind (Member.checkList_grows hapart _ decl.members) fun _ =>
      grows_pure _).mono ?_
    rintro s _ _ ⟨out, _, hmembers, rfl, rfl⟩ info hstubbed hclasses hsound
    have howner := hstubbed.ty_eq
    rw [hsome] at howner
    cases howner
    have href : (Ty.named (decl.internalName package)).isReference = true := by
      rw [← hstubbed.info_ty]
      exact hstubbed.sound.ty
    obtain ⟨hsound', hanalyzed⟩ := hmembers hstubbed.members ⟨hclasses, href⟩ hsound
    exact ⟨hsound', ⟨hsome, href, hanalyzed⟩, rfl⟩

theorem checkList_grows (hapart : last.Apart) (classes : ClassTable) (package : Option String)
    (decls : List ClassDecl) :
    (checkList classes decls).Grows last fun s out e => ∀ infos,
      List.Forall₂ (Stubbed package) decls infos → classes.Sound → s.Sound →
      e.Sound ∧ (∀ decl ∈ out, decl.Analyzed last package)
        ∧ out.map ClassDecl.name = decls.map ClassDecl.name := by
  induction decls with
  | nil =>
    refine (grows_pure _).mono ?_
    rintro s _ _ ⟨rfl, rfl⟩ _ _ _ hsound
    exact ⟨hsound, fun _ h => (List.not_mem_nil h).elim, rfl⟩
  | cons decl rest ih =>
    refine (grows_bind (check_grows hapart classes package decl) fun one =>
      grows_bind ih fun others => grows_pure _).mono ?_
    rintro s _ _ ⟨one, m, hone, others, _, hothers, rfl, rfl⟩ _ hstubbed hclasses hsound
    cases hstubbed with
    | @cons _ info _ infos hfirst hrest =>
      obtain ⟨hsound', hanalyzed, hname⟩ := hone info hfirst hclasses hsound
      obtain ⟨hsound'', hall, hmap⟩ := hothers infos hrest hclasses hsound'
      refine ⟨hsound'', fun decl hdecl => ?_, ?_⟩
      · rcases List.mem_cons.mp hdecl with rfl | hdecl
        · exact hanalyzed
        · exact hall decl hdecl
      · rw [List.map_cons, List.map_cons, hname, hmap]

end ClassDecl

end ClassCompiler
