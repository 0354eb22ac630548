import ClassCompiler.Error
import ClassCompiler.Table
import ClassCompiler.Ty.Basic

/-!
# Scopes

The context of one method body: its locals with their slots, the frames of its blocks, what the
method declares, whether every path so far has returned, and the loops around the current point.

A name has one visible variable at a time. A declaration in an inner frame sets the outer variable
aside, and leaving the frame brings it back. Slots are never used twice.

* `Scope.declareLocal`, `Scope.declareParam`: the slot, or the duplicate
* `Scope.pushFrame`, `Scope.popFrame`
* `Scope.noteBreak`, `Scope.exitLoop`: which loops a `break` leaves
-/

namespace ClassCompiler

/-- A local variable or parameter. -/
structure Variable where
  name : String
  ty : Ty
  slot : Nat
  /-- The frame depth of the declaration; parameters have depth zero. -/
  depth : Nat
  isInitialized : Bool
  line : Nat
  deriving DecidableEq, Inhabited

/-- A variable set aside by a declaration at `depth`. -/
structure Shadowed where
  depth : Nat
  name : String
  var : Variable
  deriving DecidableEq, Inhabited

structure Scope where
  visible : Table String Variable := ∅
  /-- Latest first. -/
  shadowed : List Shadowed := []
  depth : Nat := 0
  nextSlot : Nat
  returnTy : Ty
  exceptions : List Ty
  isStatic : Bool
  hasReturned : Bool := false
  /-- For each loop around the current point, innermost first: is there a `break` that leaves it? -/
  loops : List Bool := []
  deriving Inhabited

namespace Scope

/-- The scope at the start of a method. Slot zero of an instance method holds the receiver. -/
def start (returnTy : Ty) (exceptions : List Ty) (isStatic : Bool) : Scope where
  nextSlot := if isStatic then 0 else 1
  returnTy
  exceptions
  isStatic

/-! ## Frames -/

def pushFrame (scope : Scope) : Scope := { scope with depth := scope.depth + 1 }

/-- Leaves the current frame: its variables go, and those that it had set aside come back. -/
def popFrame (scope : Scope) : Scope :=
  let kept := scope.visible.filterValues fun var => var.depth < scope.depth
  let restored := scope.shadowed.takeWhile fun entry => entry.depth = scope.depth
  { scope with
    visible := restored.foldl (fun table entry => table.insert entry.name entry.var) kept
    shadowed := scope.shadowed.dropWhile fun entry => entry.depth = scope.depth
    depth := scope.depth - 1 }

/-! ## Variables -/

def lookup? (scope : Scope) (name : String) : Option Variable := scope.visible.get? name

/-- The last slot number. Past it, the next slot stays where it is. -/
def maxSlot : Nat := 65535

/-- Gives a variable the next slots; every variable takes at least one. -/
def allocate (scope : Scope) (name : String) (ty : Ty) (isInitialized : Bool) (line : Nat) :
    Nat × Scope :=
  let var : Variable :=
    { name, ty, slot := scope.nextSlot, depth := scope.depth, isInitialized, line }
  (scope.nextSlot,
    { scope with
      visible := scope.visible.insert name var
      nextSlot := min maxSlot (scope.nextSlot + max 1 ty.slots) })

/-- Declares a local in the current frame. -/
def declareLocal (scope : Scope) (name : String) (ty : Ty) (line : Nat) :
    Except CompileError (Nat × Scope) :=
  match scope.lookup? name with
  | none => .ok (scope.allocate name ty false line)
  | some outer =>
    if outer.depth = scope.depth then .error (.duplicateDefinition "variable" name line)
    else
      let aside := { scope with shadowed := ⟨scope.depth, name, outer⟩ :: scope.shadowed }
      .ok (aside.allocate name ty false line)

/-- Declares a parameter, which has a value from the start. -/
def declareParam (scope : Scope) (name : String) (ty : Ty) (line : Nat) :
    Except CompileError (Nat × Scope) :=
  if (scope.lookup? name).isSome then .error (.duplicateDefinition "parameter" name line)
  else .ok (scope.allocate name ty true line)

def markInitialized (scope : Scope) (name : String) : Scope :=
  { scope with
    visible := scope.visible.modify name fun var =>
      { var with isInitialized := true } }

/-- Slots in use, the receiver's included. -/
def frameSize (scope : Scope) : Nat := scope.nextSlot

def setReturned (scope : Scope) (returned : Bool) : Scope :=
  { scope with hasReturned := returned }

/-! ## Loops -/

def inLoop (scope : Scope) : Bool := !scope.loops.isEmpty

def enterLoop (scope : Scope) : Scope := { scope with loops := false :: scope.loops }

/-- Records a `break`, if there is a loop to leave. -/
def noteBreak? (scope : Scope) : Option Scope :=
  match scope.loops with
  | [] => none
  | _ :: outer => some { scope with loops := true :: outer }

/-- Leaves the innermost loop and says whether some `break` leaves it. -/
def exitLoop (scope : Scope) : Bool × Scope :=
  (scope.loops.headD false, { scope with loops := scope.loops.tail })

end Scope

end ClassCompiler
