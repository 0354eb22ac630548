import ClassCompiler.ClassFile.Recorder

/-!
# The emitter

A recorder together with the loops around the current point, so that `break` and `continue` find
their labels.
-/

namespace ClassCompiler

/-- Where `break` and `continue` go inside a loop. -/
structure LoopLabels where
  onBreak : Label
  onContinue : Label
  deriving DecidableEq, Inhabited

/-- What is wrong with a `break` or `continue` that has no loop around it. -/
def notInLoop : String := "break or continue statement not inside a loop"

structure Emitter where
  recorder : Recorder := {}
  /-- Innermost first. -/
  loops : List LoopLabels := []
  deriving Inhabited

namespace Emitter

def emit (emitter : Emitter) (instr : Instr) : Emitter :=
  { emitter with recorder := emitter.recorder.push instr }

/-- Drops a value of a type from the stack. -/
def emitPop (emitter : Emitter) (ty : Ty) : Emitter :=
  match Instr.pop? ty with
  | some instr => emitter.emit instr
  | none => emitter

def newLabel (emitter : Emitter) : Label × Emitter :=
  let (label, recorder) := emitter.recorder.newLabel
  (label, { emitter with recorder })

def enterLoop (emitter : Emitter) (onBreak onContinue : Label) : Emitter :=
  { emitter with loops := ⟨onBreak, onContinue⟩ :: emitter.loops }

def exitLoop (emitter : Emitter) : Emitter := { emitter with loops := emitter.loops.tail }

def emitBreak (emitter : Emitter) : Except String Emitter :=
  match emitter.loops with
  | labels :: _ => .ok (emitter.emit (.goto labels.onBreak))
  | [] => .error notInLoop

def emitContinue (emitter : Emitter) : Except String Emitter :=
  match emitter.loops with
  | labels :: _ => .ok (emitter.emit (.goto labels.onContinue))
  | [] => .error notInLoop

end Emitter

end ClassCompiler
