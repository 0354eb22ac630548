import ClassCompiler.Proofs.DefiniteReturn
import ClassCompiler.Proofs.Unit.Outlines

/-!
# Stubs agree with final classes

A unit that compiles has a stub and a final class for every declaration. Both have the same name,
supertypes, modifiers and fields, and methods that differ in their code alone. The code of a method
is empty if it is abstract, in both of them, and only then: a body that owes nothing ends with a
return of its own, and a body that owes a result has a statement that returns.

A result of the recovery type is never asked for. Such a method may have a body without statements,
and then its code is empty as well. A source can name this type if a class has its name.

* `ClassImage.Matches`: a stub and the final class
* `Compiler.stubs_match`
-/

namespace ClassCompiler

open Check

/-! ## Code that is not empty -/

namespace Emit

variable {α β : Type}

/-- Some code, whenever the piece succeeds. -/
def Emits (piece : Emit α) : Prop :=
  ∀ next a, (piece.run next).result = .ok a → (piece.run next).code ≠ []

theorem emits_instr (i : Instr) : (instr i).Emits := fun _ _ _ => List.cons_ne_nil i []

theorem emits_bind {first : Emit α} {rest : α → Emit β} (h : first.Emits ∨ ∀ a, (rest a).Emits) :
    (first >>= rest).Emits := by
  intro next b hok
  cases hfirst : (first.run next).result with
  | error error =>
    rw [run_bind_error hfirst] at hok
    cases hok
  | ok a =>
    rw [run_bind_ok hfirst] at hok ⊢
    intro hnil
    obtain ⟨hone, htwo⟩ := List.append_eq_nil_iff.mp hnil
    rcases h with h | h
    · exact h next a hfirst hone
    · exact h a _ b hok htwo

/-- The first of two pieces has the code. -/
theorem emits_first {first : Emit α} {rest : α → Emit β} (h : first.Emits) :
    (first >>= rest).Emits := emits_bind (.inl h)

theorem emits_then {first : Emit α} {rest : α → Emit β} (h : ∀ a, (rest a).Emits) :
    (first >>= rest).Emits := emits_bind (.inr h)

end Emit

open Emit

variable {env : CodeEnv}

theorem returnCode_emits (value : Option Expr) : (returnCode env value).Emits := by
  cases value with
  | none => exact emits_instr _
  | some value => exact emits_then fun _ => emits_instr _

namespace Stmt

theorem listCode_emits {stmts : List Stmt}
    (h : ∀ s ∈ stmts, s.returns = true → ∀ loop, (s.code env loop).Emits)
    (hreturns : listReturns stmts = true) (loop : Option LoopLabels) :
    (listCode env loop stmts).Emits := by
  induction stmts with
  | nil => cases hreturns
  | cons first rest ih =>
    unfold listReturns at hreturns
    rcases Bool.or_eq_true_iff.mp hreturns with hfirst | hrest
    · exact emits_first (h first List.mem_cons_self hfirst loop)
    · exact emits_then fun _ => ih (fun s hs => h s (List.mem_cons_of_mem _ hs)) hrest

/-- A statement that returns has code. -/
theorem code_emits (s : Stmt) :
    s.returns = true → ∀ loop : Option LoopLabels, (s.code env loop).Emits := by
  induction s using Stmt.induction with
  | block stmts line ih =>
    intro hreturns loop
    unfold returns at hreturns
    unfold code
    exact listCode_emits ih hreturns loop
  | branch condition onTrue onFalse line ihTrue _ =>
    intro hreturns loop
    unfold returns at hreturns
    rw [code_branch]
    exact emits_then fun _ => emits_then fun _ =>
      emits_first (ihTrue (Bool.and_eq_true_iff.mp hreturns).1 loop)
  | whileLoop condition body line _ =>
    intro _ loop
    unfold code
    exact emits_then fun _ => emits_then fun _ => emits_first (emits_instr _)
  | forLoop init condition update body line _ =>
    intro _ loop
    rw [code_forLoop]
    exact emits_then fun _ => emits_then fun _ => emits_then fun _ => emits_then fun _ =>
      emits_first (emits_instr _)
  | ret value line =>
    intro _ loop
    unfold code
    exact returnCode_emits value
  | declare | expr | breakOut | continueOn | empty =>
    intro hreturns
    unfold returns at hreturns
    cases hreturns

end Stmt

namespace MethodDecl

variable {method : MethodDecl}

/-- The code of a method with a body that returns as the method declares. -/
theorem bodyCode_emits {registry : Registry} {returnTy : Ty} {body : Block}
    (hbody : method.body = some body) (hreturns : body.Returns returnTy) (hany : returnTy ≠ .any)
    (habstract : method.mods.isAbstract = false) :
    (method.bodyCode { registry, returnTy }).Emits := by
  unfold bodyCode
  rw [hbody]
  rcases hreturns with rfl | hbad | hreturns
  · refine emits_then fun _ => ?_
    rw [if_pos ⟨rfl, by rw [habstract]; rfl⟩]
    exact emits_instr _
  · exact absurd hbad hany
  · exact emits_first (Stmt.listCode_emits (fun s _ => s.code_emits) hreturns none)

/-- An abstract method without a body has no code. -/
theorem bodyCode_abstract (env : CodeEnv) (hbody : method.body = none)
    (habstract : method.mods.isAbstract = true) : ((method.bodyCode env).run 0).code = [] := by
  unfold bodyCode
  rw [hbody, habstract]
  rw [if_neg (by simp)]
  rfl

end MethodDecl

theorem stubCode_eq_nil_iff (mods : Modifiers) (returnTy : Ty) :
    stubCode mods returnTy = [] ↔ mods.isAbstract = true := by
  unfold stubCode
  split
  · next habstract => exact iff_of_true rfl habstract
  · next habstract => exact iff_of_false (by simp) habstract

/-! ## Stubs and final classes -/

/-- A method of a stub, and the method of the final class that stands in its place. -/
structure MethodImage.Matches (stub final : MethodImage) : Prop where
  mods : final.mods = stub.mods
  name : final.name = stub.name
  descriptor : final.descriptor = stub.descriptor
  exceptions : final.exceptions = stub.exceptions
  stub_empty : stub.code = [] ↔ stub.isAbstract = true
  final_empty : final.code = [] ↔ final.isAbstract = true

structure ClassImage.Matches (stub final : ClassImage) : Prop where
  mods : final.mods = stub.mods
  name : final.name = stub.name
  superName : final.superName = stub.superName
  interfaces : final.interfaces = stub.interfaces
  fields : final.fields = stub.fields
  methods : List.Forall₂ MethodImage.Matches stub.methods final.methods

/-- The declared result is not the recovery type. -/
def MethodDecl.ReturnsKnown (method : MethodDecl) : Prop :=
  method.signature.map MethodSignature.returnTy ≠ some .any

instance (method : MethodDecl) : Decidable method.ReturnsKnown :=
  inferInstanceAs (Decidable (_ ≠ _))

variable {last : Registry}

theorem MethodDecl.Becomes.matches {parsed method : MethodDecl} {final : MethodImage}
    (h : method.Becomes last final) (hchecked : parsed.CheckedFrom [] method)
    (hproper : method.Proper) (hknown : method.ReturnsKnown) :
    ∃ stub, method.stubImage? last = some stub ∧ stub.Matches final.relabelled := by
  obtain ⟨signature, hsignature, hok, rfl⟩ := h.image_eq
  have hstub : method.stubImage? last = some
      { mods := method.mods
        name := method.name
        descriptor := signature.descriptor
        exceptions := exceptionNames last signature.exceptions
        code := stubCode method.mods signature.returnTy } := by
    unfold stubImage?
    rw [hsignature]
    rfl
  refine ⟨_, hstub, rfl, rfl, rfl, rfl, stubCode_eq_nil_iff _ _, ?_⟩
  show relabelCode [] _ = [] ↔ method.mods.isAbstract = true
  rw [relabelCode_eq_nil]
  have hbody := hproper.body
  cases habstract : method.mods.isAbstract with
  | true =>
    rw [habstract] at hbody
    have hnone : method.body = none := by simpa using hbody
    exact iff_of_true (bodyCode_abstract _ hnone habstract) rfl
  | false =>
    rw [habstract] at hbody
    obtain ⟨body, hsome⟩ := Option.isSome_iff_exists.mp hbody
    have hany : signature.returnTy ≠ .any := by
      rintro heq
      exact hknown (by rw [hsignature, Option.map_some, heq])
    refine iff_of_false ?_ Bool.false_ne_true
    exact bodyCode_emits hsome (hchecked.returns hsignature body hsome) hany habstract 0 () hok

theorem MethodImage.matches_constructor (superName : String) :
    (implicitConstructor superName).Matches (implicitConstructor superName).relabelled := by
  have habstract : ¬ Modifiers.accPublic.isAbstract = true := by decide
  exact ⟨rfl, rfl, rfl, rfl, iff_of_false (List.cons_ne_nil _ _) habstract,
    iff_of_false (List.cons_ne_nil _ _) habstract⟩

/-- A class is generated as its stub says. -/
theorem ClassStub.Shows.matches {options : Options} {decl : ClassDecl} {stub : ClassStub}
    {classes : ClassTable} {image : ClassImage} (h : stub.Shows options last decl)
    (hclass : classes.class? stub.info.ty = some stub.info)
    (hok : (decl.generate options last classes).2 = .ok image)
    (hmethods : ∀ method ∈ decl.methods, method.ReturnsKnown
      ∧ ∃ parsed : MethodDecl, parsed.CheckedFrom [] method) :
    stub.image.Matches image.relabelled := by
  obtain ⟨hshape, made, hmade, hbecome⟩ := h.generate hclass hok
  have hown : List.Forall₂ MethodImage.Matches
      (decl.methods.filterMap (MethodDecl.stubImage? last)) (made.map MethodImage.relabelled) := by
    have hproper := h.proper
    clear hmade
    generalize decl.methods = methods at hmethods hbecome hproper
    induction hbecome with
    | nil => exact .nil
    | cons hfirst _ ih =>
      obtain ⟨hknown, parsed, hchecked⟩ := hmethods _ List.mem_cons_self
      obtain ⟨own, hstub, hmatches⟩ := hfirst.matches hchecked
        (hproper _ List.mem_cons_self) hknown
      rw [List.filterMap_cons_some hstub]
      exact .cons hmatches (ih (fun method hm => hmethods method (List.mem_cons_of_mem _ hm))
        fun method hm => hproper method (List.mem_cons_of_mem _ hm))
  have hconstructors : List.Forall₂ MethodImage.Matches (stub.info.constructors options last)
      ((stub.info.constructors options last).map MethodImage.relabelled) := by
    unfold ClassInfo.constructors
    split
    · exact .cons (MethodImage.matches_constructor _) .nil
    · exact .nil
  obtain ⟨hmods, hname, hsuper, hinterfaces, hfields⟩ := ClassImage.shape_eq_iff.mp hshape
  refine ⟨by simpa using hmods, by simpa using hname, by simpa using hsuper,
    by simpa using hinterfaces, by simpa using hfields, ?_⟩
  rw [h.images, ClassImage.methods_relabelled, hmade, List.map_append]
  exact List.rel_append hconstructors hown

/-! ## Units -/

namespace Compiler

variable {compiler : Compiler} {unit : CompilationUnit} {output : Recorder}

theorem stubs_compile (compiler : Compiler) (unit : CompilationUnit) (output : Recorder) :
    (compiler.compile unit output).stubs = (compiler.analysis unit).value.2.images := by
  unfold compile
  dsimp only
  split
  · rfl
  · split <;> rfl

/-- A unit that compiles has no errors, and gives its classes. -/
theorem images_of_success (h : (compiler.compile unit output).isSuccess = true) :
    (compiler.analysis unit).errors = []
      ∧ ∃ images, (compiler.generation unit).2 = .ok images := by
  have hcode := (Bool.and_eq_true_iff.mp h).1
  have herrors : (compiler.analysis unit).errors = [] := by
    by_contra hsome
    rw [(compile_of_errors output hsome).2.1] at hcode
    cases hcode
  refine ⟨herrors, ?_⟩
  cases hgeneration : (compiler.generation unit).2 with
  | ok images => exact ⟨images, rfl⟩
  | error error =>
    have hgenerated : ((analyze compiler.options unit).run compiler.registry).value.1.generate
        compiler.options ((analyze compiler.options unit).run compiler.registry).state
        ((analyze compiler.options unit).run compiler.registry).value.2.classes
          = ((compiler.generation unit).1, .error error) := Prod.ext rfl hgeneration
    unfold compile at hcode
    dsimp only at hcode
    split at hcode
    · cases hcode
    · rw [hgenerated] at hcode
      cases hcode

/-- The stubs and the final classes of a unit that compiles agree, class by class and member by member.
Methods have empty code where they are abstract, and nowhere else. -/
theorem stubs_match (hclosed : compiler.registry.Closed)
    (hnames : HandlesApart unit.declaredNames)
    (hsuccess : (compiler.compile unit output).isSuccess = true)
    (hknown : ∀ method ∈ (compiler.analysis unit).value.1.methods, method.ReturnsKnown) :
    ∃ finals, (compiler.compile unit output).output.classes = output.classes ++ finals
      ∧ List.Forall₂ ClassImage.Matches (compiler.compile unit output).stubs finals := by
  obtain ⟨herrors, images, hok⟩ := images_of_success hsuccess
  obtain ⟨-, houtput, -, -⟩ := compile_of_images output herrors hok
  obtain ⟨stubs, hstubs, hshows⟩ := analysis_shows hclosed hnames herrors
  have hmethods := analyze_methods compiler.options unit compiler.registry
  refine ⟨images.map ClassImage.relabelled, ?_, ?_⟩
  · rw [houtput, Recorder.classes_replayAll]
  · rw [stubs_compile, hstubs, List.forall₂_map_left_iff, List.forall₂_map_right_iff]
    have hgenerated := generateClasses_forall₂ hok
    refine forall₂_of_common (fun decl stub image hdecl hmake => ?_)
      ((List.forall₂_and_left _ _).mpr ⟨fun decl hdecl => hdecl, hshows⟩) hgenerated
    obtain ⟨hdecl, hshow, hclass⟩ := hdecl
    refine hshow.matches hclass hmake fun method hmethod => ?_
    have hmem := CompilationUnit.mem_methods.mpr ⟨decl, hdecl, ClassDecl.mem_methods.mp hmethod⟩
    obtain ⟨parsed, -, hchecked⟩ := hmethods method hmem
    change parsed.CheckedFrom (compiler.analysis unit).errors method at hchecked
    rw [herrors] at hchecked
    exact ⟨hknown method hmem, parsed, hchecked⟩

end Compiler

theorem stubs_match_twice :
    Registry.builtin.Closed ∧ HandlesApart twiceUnit.declaredNames
      ∧ (Compiler.compile {} twiceUnit .empty).isSuccess = true
      ∧ (∀ method ∈ (Compiler.analysis {} twiceUnit).value.1.methods, method.ReturnsKnown)
      ∧ ∃ finals, (Compiler.compile {} twiceUnit .empty).output.classes
          = Recorder.empty.classes ++ finals
        ∧ List.Forall₂ ClassImage.Matches (Compiler.compile {} twiceUnit .empty).stubs finals := by
  have hnames : HandlesApart twiceUnit.declaredNames := by decide +kernel
  have hsuccess : (Compiler.compile {} twiceUnit .empty).isSuccess = true := by decide +kernel
  have hknown : ∀ method ∈ (Compiler.analysis {} twiceUnit).value.1.methods,
      method.ReturnsKnown := by decide +kernel
  exact ⟨Registry.closed_builtin, hnames, hsuccess, hknown,
    Compiler.stubs_match Registry.closed_builtin hnames hsuccess hknown⟩

/-! ### A result of the recovery type -/

/-- `class <any> {}` and `class Main { static <any> m() {} }` -/
def recoveryUnit : CompilationUnit where
  file := "Main.java"
  package := none
  imports := []
  types :=
    [{ line := 1
       mods := .empty
       name := "<any>"
       isInterface := false
       superclass := none
       interfaces := []
       members := [] },
      { line := 1
        mods := .accPublic
        name := "Main"
        isInterface := false
        superclass := none
        interfaces := []
        members :=
          [.method
            { line := 2
              mods := .accStatic
              name := "m"
              returnType := ⟨"<any>", 0, 2⟩
              params := []
              exceptions := []
              body := some ⟨[], 2⟩ }] }]

/-- Which methods of a class have no code. -/
def ClassImage.empties (image : ClassImage) : List Bool :=
  image.methods.map fun method => method.code.isEmpty

theorem ClassImage.Matches.empties {stub final : ClassImage} (h : stub.Matches final) :
    final.empties = stub.empties := by
  refine map_eq_of_forall₂ h.methods fun method method' hmethod => ?_
  have habstract : method'.isAbstract = method.isAbstract :=
    congrArg Modifiers.isAbstract hmethod.mods
  rw [Bool.eq_iff_iff, List.isEmpty_iff, List.isEmpty_iff, hmethod.final_empty, hmethod.stub_empty,
    habstract]

/-- The stub of a method returns, and its final code is empty. -/
theorem recovery_result_has_no_code :
    HandlesApart recoveryUnit.declaredNames
      ∧ (Compiler.compile {} recoveryUnit .empty).isSuccess = true
      ∧ ¬ List.Forall₂ ClassImage.Matches (Compiler.compile {} recoveryUnit .empty).stubs
        (Compiler.compile {} recoveryUnit .empty).output.classes := by
  have hnames : HandlesApart recoveryUnit.declaredNames := by decide +kernel
  have hsuccess : (Compiler.compile {} recoveryUnit .empty).isSuccess = true := by decide +kernel
  have hstubs : (Compiler.compile {} recoveryUnit .empty).stubs.map ClassImage.empties
      = [[false], [false, false]] := by decide +kernel
  have hfinals : (Compiler.compile {} recoveryUnit .empty).output.classes.map ClassImage.empties
      = [[false], [false, true]] := by decide +kernel
  refine ⟨hnames, hsuccess, fun hmatches => ?_⟩
  have hsame := map_eq_of_forall₂ hmatches fun _ _ h => h.empties
  rw [hstubs, hfinals] at hsame
  exact absurd hsame (by decide)

end ClassCompiler
