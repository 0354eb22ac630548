import ClassCompiler.Proofs.Body.Marks
import ClassCompiler.Proofs.Unit.Methods

/-!
# Marks in an analyzed unit

A unit in which nothing is marked, as the parser leaves it: after its analysis, whether there were
errors or not, the bodies of all methods are marked as their code wants it.

* `Compiler.analyze_marked`
-/

namespace ClassCompiler

open Check

theorem MethodDecl.StubOf.unmarked {parsed method : MethodDecl} (h : parsed.StubOf method)
    (hparsed : parsed.Unmarked) : method.Unmarked := by
  unfold Unmarked nodes at *
  rwa [h.body_eq]

theorem MethodDecl.CheckedFrom.marked {parsed method : MethodDecl} {errors : List CompileError}
    (h : parsed.CheckedFrom errors method) (hparsed : parsed.Unmarked) : method.Marked := by
  obtain ⟨given, hgiven, site, registry, rfl, -⟩ := h
  obtain ⟨signature, hsignature⟩ := hgiven.signature
  rw [run_check site hsignature]
  exact checkBody_marked site signature (hgiven.unmarked hparsed) _

/-- No expression in the unit is marked, as the parser leaves it. -/
def CompilationUnit.Unmarked (unit : CompilationUnit) : Prop :=
  ∀ method ∈ unit.methods, method.Unmarked

/-- The analysis of a unit marks what its code wants to be marked. -/
theorem Compiler.analyze_marked (options : Options) {unit : CompilationUnit} (h : unit.Unmarked) :
    (analyze options unit).Gives fun out => ∀ method ∈ out.1.methods, method.Marked := by
  intro registry method hmethod
  obtain ⟨parsed, hparsed, hchecked⟩ := analyze_methods options unit registry method hmethod
  exact hchecked.marked (h parsed hparsed)

end ClassCompiler
