import ClassCompiler.Diagnostics
import ClassCompiler.Unit.Bodies
import ClassCompiler.Unit.Classes

/-!
# The compiler

Three passes over a unit: stubs, bodies, and, if neither found an error, the final classes. The
types of a unit stay known to its compiler, so a later unit may use them.

* `Compiler.compile`
* `Session.compile`, `Session.recompile?`: units in turn with one compiler
* `compileUnit`, `compileUnits`: units on their own
-/

namespace ClassCompiler

/-! ## Compilation -/

structure Compiler where
  options : Options := {}
  registry : Registry := .builtin
  deriving Inhabited

/-- What a compilation leaves behind. -/
structure Compilation where
  compiler : Compiler
  /-- The unit with its types, signatures, states and analyzed bodies. -/
  unit : CompilationUnit
  /-- Where the final classes went. -/
  output : Recorder
  diagnostics : Diagnostics
  stubs : List ClassImage
  codeGenerated : Bool
  deriving Inhabited

def Compilation.isSuccess (compilation : Compilation) : Bool :=
  compilation.codeGenerated && !compilation.diagnostics.hasErrors

namespace Compiler

/-- Stubs a unit and analyzes its bodies. -/
def analyze (options : Options) (unit : CompilationUnit) :
    Check Registry (CompilationUnit × Stubs) := do
  let (stubbed, stubs) ← unit.stub options
  let analyzed ← stubbed.check stubs.classes
  return (analyzed, stubs)

/-- Compiles a unit, sending its final classes to a recorder. -/
def compile (compiler : Compiler) (unit : CompilationUnit) (output : Recorder) : Compilation :=
  let done := (analyze compiler.options unit).run compiler.registry
  let (analyzed, stubs) := done.value
  let later := { compiler with registry := done.state }
  let found := (Diagnostics.withLimit compiler.options.errorLimit).reportAll done.errors
  let unfinished : Compilation :=
    { compiler := later
      unit := analyzed
      output
      diagnostics := found
      stubs := stubs.images
      codeGenerated := false }
  if found.hasErrors then unfinished
  else
    match analyzed.generate compiler.options done.state stubs.classes with
    | (unit, .error error) => { unfinished with unit, diagnostics := found.report error }
    | (unit, .ok images) =>
      { unfinished with unit, output := output.replayAll images, codeGenerated := true }

end Compiler

/-! ## Sessions -/

/-- A compiler at work: the units that it was given, as it left them, and all classes so far. -/
structure Session where
  compiler : Compiler
  output : Recorder := .empty
  units : List CompilationUnit := []
  deriving Inhabited

namespace Session

/-- Compiles a new unit. -/
def compile (session : Session) (unit : CompilationUnit) : Session × Compilation :=
  let done := session.compiler.compile unit session.output
  (⟨done.compiler, done.output, session.units ++ [done.unit]⟩, done)

/-- Compiles the unit at an index once more, in the state that it was left in. -/
def recompile? (session : Session) (index : Nat) : Option (Session × Compilation) :=
  session.units[index]?.map fun unit =>
    let done := session.compiler.compile unit session.output
    (⟨done.compiler, done.output, session.units.set index done.unit⟩, done)

end Session

/-! ## Units on their own -/

/-- A unit that was not compiled. -/
structure CompileFailure where
  file : String
  diagnostics : Diagnostics
  deriving Inhabited

def CompileFailure.text (failure : CompileFailure) : String :=
  failure.file ++ ": compilation failed with " ++ toString failure.diagnostics.errorCount
    ++ " error(s)"

/-- Compiles a unit with a compiler of its own: the unit afterwards, and its classes. -/
def compileUnit (options : Options) (unit : CompilationUnit) :
    CompilationUnit × Except CompileFailure (List ClassImage) :=
  let done := Compiler.compile { options } unit .empty
  (done.unit,
    if done.isSuccess then .ok done.output.classes else .error ⟨unit.file, done.diagnostics⟩)

/-- Compiles units that do not see each other. -/
def compileUnits (options : Options) (units : List CompilationUnit) :
    List (CompilationUnit × Except CompileFailure (List ClassImage)) :=
  units.map (compileUnit options)

end ClassCompiler
