import ClassCompiler.Proofs.ClassFile.Replay
import ClassCompiler.Proofs.Unit.Classes

/-!
# Compilations

A compiler that has compiled any units before, with ordinary names, compiles one more. Either its
analysis reports nothing; then the trees have no gaps, every method is generated, and the output has
one more class for every declaration. Or it reports something, kept or suppressed; then the output
stays as it was. In no case is the compiler itself at fault.

* `Registry.Reachable`
* `Compiler.compile_complete`
-/

namespace ClassCompiler

open Check

/-! ## Compilers -/

/-- The registry of a compiler that has compiled units with ordinary names. -/
inductive Registry.Reachable : Registry → Prop
  | builtin : Reachable builtin
  | compile {compiler : Compiler} {unit : CompilationUnit} {output : Recorder}
    (h : Reachable compiler.registry)
    (hnames : unit.NamesApart (compiler.compile unit output).compiler.registry) :
    Reachable (compiler.compile unit output).compiler.registry

namespace Compiler

variable {compiler : Compiler} {unit : CompilationUnit} {output : Recorder}

/-- The analysis of a unit by a compiler. -/
def analysis (compiler : Compiler) (unit : CompilationUnit) :
    Checked Registry (CompilationUnit × Stubs) :=
  (analyze compiler.options unit).run compiler.registry

theorem registry_compile (compiler : Compiler) (unit : CompilationUnit) (output : Recorder) :
    (compiler.compile unit output).compiler.registry = (compiler.analysis unit).state := by
  unfold compile
  dsimp only
  split
  · rfl
  · split <;> rfl

end Compiler

theorem Registry.Reachable.sound {registry : Registry} (h : registry.Reachable) :
    registry.Sound := by
  induction h with
  | builtin => exact sound_builtin
  | compile _ hnames ih =>
    rw [Compiler.registry_compile] at hnames ⊢
    exact (Compiler.analyze_regular ih hnames).2

/-! ## Diagnostics -/

namespace Diagnostics

theorem hasErrors_reportAll (limit : Option Nat) (errors : List CompileError) :
    ((withLimit limit).reportAll errors).hasErrors = true ↔ errors ≠ [] := by
  unfold hasErrors
  rw [errorCount_reportAll, decide_eq_true_iff]
  show 0 < 0 + errors.length ↔ errors ≠ []
  rw [Nat.zero_add, List.length_pos_iff]

theorem mem_errors_reportAll {sink : Diagnostics} {errors : List CompileError}
    {error : CompileError} (h : error ∈ (sink.reportAll errors).errors) :
    error ∈ sink.errors ∨ error ∈ errors := by
  induction errors generalizing sink with
  | nil => exact .inl h
  | cons first rest ih =>
    rcases ih h with h | h
    · unfold report at h
      split at h
      · split at h
        · exact .inl h
        · rcases List.mem_append.mp h with h | h
          · exact .inl h
          · exact .inr (List.mem_cons.mpr (.inl (List.mem_singleton.mp h)))
      · rcases List.mem_append.mp h with h | h
        · exact .inl h
        · exact .inr (List.mem_cons.mpr (.inl (List.mem_singleton.mp h)))
    · exact .inr (List.mem_cons_of_mem _ h)

end Diagnostics

/-! ## The outcome of a compilation -/

namespace Compiler

variable {compiler : Compiler} {unit : CompilationUnit}

/-- The classes of an analyzed unit. -/
def generation (compiler : Compiler) (unit : CompilationUnit) :
    CompilationUnit × Except CompileError (List ClassImage) :=
  let done := compiler.analysis unit
  done.value.1.generate compiler.options done.state done.value.2.classes

theorem compile_of_errors (output : Recorder) (h : (compiler.analysis unit).errors ≠ []) :
    (compiler.compile unit output).output = output
      ∧ (compiler.compile unit output).codeGenerated = false
      ∧ (compiler.compile unit output).diagnostics
        = (Diagnostics.withLimit compiler.options.errorLimit).reportAll
          (compiler.analysis unit).errors := by
  have hfound := (Diagnostics.hasErrors_reportAll compiler.options.errorLimit _).mpr h
  unfold compile
  dsimp only
  rw [show ((analyze compiler.options unit).run compiler.registry).errors
    = (compiler.analysis unit).errors from rfl, if_pos hfound]
  exact ⟨rfl, rfl, rfl⟩

theorem compile_of_images {images : List ClassImage} (output : Recorder)
    (h : (compiler.analysis unit).errors = [])
    (hok : (compiler.generation unit).2 = .ok images) :
    (compiler.compile unit output).unit = (compiler.generation unit).1
      ∧ (compiler.compile unit output).output = output.replayAll images
      ∧ (compiler.compile unit output).codeGenerated = true
      ∧ (compiler.compile unit output).diagnostics
        = Diagnostics.withLimit compiler.options.errorLimit := by
  have hfound : ((Diagnostics.withLimit compiler.options.errorLimit).reportAll []).hasErrors
      = false := rfl
  have heq : compiler.generation unit = ((compiler.generation unit).1, .ok images) :=
    Prod.ext rfl hok
  unfold compile
  dsimp only
  rw [show ((analyze compiler.options unit).run compiler.registry).errors
    = (compiler.analysis unit).errors from rfl, h, if_neg (by rw [hfound]; decide),
    show (((analyze compiler.options unit).run compiler.registry).value.1.generate compiler.options
      ((analyze compiler.options unit).run compiler.registry).state
      ((analyze compiler.options unit).run compiler.registry).value.2.classes)
        = ((compiler.generation unit).1, .ok images) from heq]
  exact ⟨rfl, rfl, rfl, rfl⟩

/-- What a compilation comes to when its analysis reports nothing. -/
structure Complete (compiler : Compiler) (unit : CompilationUnit) (output : Recorder) : Prop where
  resolved : ∀ method ∈ (compiler.analysis unit).value.1.methods, method.state = .analyzed
    ∧ ∀ e ∈ method.nodes, e.IsResolved
  images : ∃ images, (compiler.generation unit).2 = .ok images
    ∧ (compiler.compile unit output).output = output.replayAll images
    ∧ images.map ClassImage.name = unit.declaredNames
  generated : ∀ method ∈ (compiler.compile unit output).unit.methods, method.state = .generated
  recorded : ∃ fresh, (compiler.compile unit output).output.classes = output.classes ++ fresh
    ∧ fresh.map ClassImage.name = unit.declaredNames
  success : (compiler.compile unit output).isSuccess = true

theorem accepts_analysis (hreach : compiler.registry.Reachable)
    (hnames : unit.NamesApart (compiler.analysis unit).state)
    (herrors : (compiler.analysis unit).errors = []) :
    Accepts (compiler.analysis unit).state unit (compiler.analysis unit).value.1
      (compiler.analysis unit).value.2.classes := analyze_clean hreach.sound hnames herrors

theorem complete_of_clean (hreach : compiler.registry.Reachable)
    (hnames : unit.NamesApart (compiler.analysis unit).state)
    (herrors : (compiler.analysis unit).errors = []) (output : Recorder) :
    compiler.Complete unit output := by
  have haccepts := accepts_analysis hreach hnames herrors
  obtain ⟨images, hok, himages, hgenerated⟩ := generateClasses_ok haccepts.types haccepts.lists
    compiler.options (compiler.analysis unit).state
  have hdeclared : (compiler.analysis unit).value.1.types.map
      (ClassDecl.internalName unit.package) = unit.declaredNames := by
    have hname : ∀ types : List ClassDecl, types.map (ClassDecl.internalName unit.package)
        = (types.map ClassDecl.name).map fun name =>
          ClassDecl.internalName unit.package { (default : ClassDecl) with name } := by
      intro types
      rw [List.map_map]
      rfl
    unfold CompilationUnit.declaredNames
    rw [hname, haccepts.names, ← hname]
  rw [hdeclared] at himages
  have hgeneration : (compiler.generation unit).2 = .ok images := hok
  obtain ⟨hunit, houtput, hcode, hdiagnostics⟩ :=
    compile_of_images output herrors hgeneration
  have hnamesFresh : (images.map ClassImage.relabelled).map ClassImage.name
      = images.map ClassImage.name := by
    rw [List.map_map]
    exact List.map_congr_left fun image _ => image.name_relabelled
  refine ⟨fun method hmethod => ?_, ⟨images, hgeneration, houtput, himages⟩, fun method hmethod => ?_,
    ⟨images.map ClassImage.relabelled, ?_, hnamesFresh.trans himages⟩, ?_⟩
  · obtain ⟨decl, hdecl, hmember⟩ := CompilationUnit.mem_methods.mp hmethod
    obtain ⟨signature, frame, hanalyzed⟩ := (haccepts.types decl hdecl).members method hmember
    exact ⟨hanalyzed.isAnalyzed, hanalyzed.resolved⟩
  · rw [hunit] at hmethod
    obtain ⟨decl, hdecl, hmember⟩ := CompilationUnit.mem_methods.mp hmethod
    exact hgenerated decl hdecl method hmember
  · rw [houtput, Recorder.classes_replayAll]
  · unfold Compilation.isSuccess
    rw [hcode, hdiagnostics]
    rfl

/-- A compilation either reports errors of the source and leaves the output alone, or is complete;
the compiler never finds itself at fault. -/
theorem compile_complete (compiler : Compiler) (unit : CompilationUnit) (output : Recorder)
    (hreach : compiler.registry.Reachable)
    (hnames : unit.NamesApart (compiler.compile unit output).compiler.registry) :
    ((compiler.analysis unit).errors = [] → compiler.Complete unit output)
      ∧ ((compiler.analysis unit).errors ≠ [] →
        (compiler.compile unit output).output = output
          ∧ (compiler.compile unit output).codeGenerated = false)
      ∧ ∀ error ∈ (compiler.analysis unit).errors
        ++ (compiler.compile unit output).diagnostics.errors, error.kind ≠ .internal := by
  rw [registry_compile] at hnames
  have hsource : InSource (compiler.analysis unit).errors :=
    (analyze_regular hreach.sound hnames).1
  refine ⟨fun h => complete_of_clean hreach hnames h output, fun h => ?_, fun error herror => ?_⟩
  · obtain ⟨houtput, hcode, -⟩ := compile_of_errors output h
    exact ⟨houtput, hcode⟩
  · rcases List.mem_append.mp herror with herror | herror
    · exact hsource error herror
    · by_cases hclean : (compiler.analysis unit).errors = []
      · obtain ⟨images, hok, -, -⟩ := (complete_of_clean hreach hnames hclean output).images
        obtain ⟨-, -, -, hdiagnostics⟩ := compile_of_images output hclean hok
        rw [hdiagnostics] at herror
        exact (List.not_mem_nil herror).elim
      · obtain ⟨-, -, hdiagnostics⟩ := compile_of_errors output hclean
        rw [hdiagnostics] at herror
        rcases Diagnostics.mem_errors_reportAll herror with herror | herror
        · exact (List.not_mem_nil herror).elim
        · exact hsource error herror

end Compiler

/-! ## A unit -/

/-- `class Main { static int twice(int n) { return n + n; } }` -/
def twiceUnit : CompilationUnit where
  file := "Main.java"
  package := none
  imports := []
  types :=
    [{ line := 1
       mods := .accPublic
       name := "Main"
       isInterface := false
       superclass := none
       interfaces := []
       members :=
        [.method
          { line := 2
            mods := .accStatic
            name := "twice"
            returnType := ⟨"int", 0, 2⟩
            params := [⟨2, "n", ⟨"int", 0, 2⟩⟩]
            exceptions := []
            body := some ⟨[.ret (some (.binary { line := 3 } .add (.name { line := 3 } "n" none)
              (.name { line := 3 } "n" none))) 3], 2⟩ }] }]

theorem namesApart_twice : twiceUnit.NamesApart (Compiler.analysis {} twiceUnit).state :=
  ⟨by decide +kernel, by decide +kernel, by decide +kernel⟩

theorem clean_twice : (Compiler.analysis {} twiceUnit).errors = [] := by decide +kernel

theorem compile_complete_twice :
    Registry.builtin.Reachable
      ∧ twiceUnit.NamesApart (Compiler.compile {} twiceUnit .empty).compiler.registry
      ∧ Compiler.Complete {} twiceUnit .empty := by
  have hnames : twiceUnit.NamesApart
      (Compiler.compile {} twiceUnit .empty).compiler.registry := by
    rw [Compiler.registry_compile]
    exact namesApart_twice
  exact ⟨.builtin, hnames,
    (Compiler.compile_complete {} twiceUnit .empty .builtin hnames).1 clean_twice⟩

end ClassCompiler
