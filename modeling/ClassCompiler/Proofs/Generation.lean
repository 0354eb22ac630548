import ClassCompiler.Proofs.Compiler
import ClassCompiler.Proofs.Unit.Methods

/-!
# Code of a unit

Where the code in the final classes of an accepted unit comes from. What is shown of all analyzed
methods is thus shown of all the code that a unit has.

* `Compiler.Generates`: a property of the code of all methods
* `Compiler.generates`
-/

namespace ClassCompiler

namespace Compiler

variable {compiler : Compiler} {unit : CompilationUnit}

/-- The classes of the unit are generated. Every method in them is an implicit constructor, or it is
a method of the unit with its code, and has the property. -/
def Generates (compiler : Compiler) (unit : CompilationUnit)
    (P : MethodDecl → MethodSignature → List Instr → Prop) : Prop :=
  ∃ images, (compiler.generation unit).2 = .ok images ∧ ∀ image ∈ images,
    ∃ decl ∈ (compiler.analysis unit).value.1.types, ∀ m ∈ image.methods,
      m = implicitConstructor image.superName
      ∨ ∃ method signature, .method method ∈ decl.members ∧ method.signature = some signature
        ∧ m.code = ((method.bodyCode { registry := (compiler.analysis unit).state
                                       returnTy := signature.returnTy }).run 0).code
        ∧ P method signature m.code

/-- What holds of the code of every analyzed method holds of the code of the unit. -/
theorem generates {P : MethodDecl → MethodSignature → List Instr → Prop}
    (hreach : compiler.registry.Reachable)
    (hnames : unit.NamesApart (compiler.analysis unit).state)
    (herrors : (compiler.analysis unit).errors = [])
    (h : ∀ method owner signature frame, owner.isReference = true →
      method.Analyzed (compiler.analysis unit).state owner signature frame →
      FromCheck unit.methods [] method →
      P method signature ((method.bodyCode { registry := (compiler.analysis unit).state
                                             returnTy := signature.returnTy }).run 0).code) :
    compiler.Generates unit P := by
  have haccepts := accepts_analysis hreach hnames herrors
  have hmethods := analyze_methods compiler.options unit compiler.registry
  obtain ⟨images, hok, -, -⟩ := (complete_of_clean hreach hnames herrors .empty).images
  refine ⟨images, hok, fun image himage => ?_⟩
  obtain ⟨decl, hdecl, hgenerated⟩ := generateClasses_methods hok image himage
  have hanalyzed := haccepts.types decl hdecl
  refine ⟨decl, hdecl, fun m hm => ?_⟩
  rcases hgenerated m hm with rfl | ⟨method, hmethod, after, hgenerate⟩
  · exact .inl rfl
  · obtain ⟨signature, frame, hmethodAnalyzed⟩ := hanalyzed.members method hmethod
    rw [hmethodAnalyzed.generate] at hgenerate
    cases hgenerate
    have hfrom := hmethods method (CompilationUnit.mem_methods.mpr ⟨decl, hdecl, hmethod⟩)
    change FromCheck unit.methods (compiler.analysis unit).errors method at hfrom
    rw [herrors] at hfrom
    exact .inr ⟨method, signature, hmethod, hmethodAnalyzed.signature_eq, rfl,
      h method _ signature frame hanalyzed.isReference hmethodAnalyzed hfrom⟩

end Compiler

end ClassCompiler
