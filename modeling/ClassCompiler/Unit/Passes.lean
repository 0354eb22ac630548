import ClassCompiler.Diagnostics
import ClassCompiler.Unit.Bodies
import ClassCompiler.Unit.Classes

/-!
# Passes one by one

The three passes over a unit as steps on a common state, in any order and any number. A pass over
bodies and a pass over classes use the table of the latest stubs.

* `Pipeline.run`: one pass
-/

namespace ClassCompiler

inductive Pass
  | stubs
  | bodies
  | classes
  deriving DecidableEq, Inhabited

/-- What the passes over one unit share. -/
structure Pipeline where
  registry : Registry
  unit : CompilationUnit
  stubs : Stubs := {}
  diagnostics : Diagnostics := {}
  output : Recorder := .empty
  deriving Inhabited

namespace Pipeline

/-- Runs a pass. A pass over classes may fail; its error is not reported to the diagnostics. -/
def run (options : Options) (state : Pipeline) : Pass → Pipeline × Option CompileError
  | .stubs =>
    let done := (state.unit.stub options).run state.registry
    let (unit, stubs) := done.value
    ({ state with
        registry := done.state
        unit
        stubs
        diagnostics := state.diagnostics.reportAll done.errors }, none)
  | .bodies =>
    let done := (state.unit.check state.stubs.classes).run state.registry
    ({ state with
        registry := done.state
        unit := done.value
        diagnostics := state.diagnostics.reportAll done.errors }, none)
  | .classes =>
    match state.unit.generate options state.registry state.stubs.classes with
    | (unit, .ok images) =>
      ({ state with unit, output := state.output.replayAll images }, none)
    | (unit, .error error) => ({ state with unit }, some error)

end Pipeline

end ClassCompiler
