import ClassCompiler.Code.Emission
import ClassCompiler.Registry.Basic
import ClassCompiler.Tree.Expr

/-!
# Places

Where a value can be stored, and the four steps that assignments and increments are made of. A
place keeps its operands below the value on the stack until the store takes them.

| step | local | static field | instance field | array element |
|---|---|---|---|---|
| operands | none | none | receiver | array, index |
| current value | load | `getstatic` | `dup`, `getfield` | `dup2`, array load |
| copy of the new value | `dup` | `dup` | `dup_x1` | `dup_x2` |
| store | store | `putstatic` | `putfield` | array store |
-/

namespace ClassCompiler

/-! ## What analysis left open

Code is generated for trees that analysis accepted. Where such a tree has a gap all the same, the
compiler is at fault. -/

namespace CompileError

def untyped (line : Nat) : CompileError :=
  internal ("expression at line " ++ toString line ++ " reached code generation without a type")

def unbound (name : String) (line : Nat) : CompileError :=
  internal ("'" ++ name ++ "' at line " ++ toString line ++ " reached code generation unresolved")

def notAPlace (line : Nat) : CompileError :=
  internal ("expression at line " ++ toString line ++ " is not a storage location")

end CompileError

/-- The type that analysis found. -/
def Expr.provenTy (e : Expr) : Except CompileError Ty :=
  match e.ty with
  | some ty => if ty = .any then .error (.untyped e.line) else .ok ty
  | none => .error (.untyped e.line)

namespace Emit

def ofExcept {α : Type} (result : Except CompileError α) : Emit α := fun next =>
  ⟨[], next, result⟩

def provenTy (e : Expr) : Emit Ty := ofExcept e.provenTy

/-- An access to a field. -/
def field (registry : Registry) (op : OpCode) (ref : FieldRef) (name : String) : Emit Unit :=
  instr (.member op (registry.internalName ref.owner) name (registry.descriptor ref.ty))

end Emit

/-! ## Places -/

inductive Place
  | slot (index : Nat)
  | static (field : FieldRef) (name : String)
  | member (field : FieldRef) (name : String)
  | element
  deriving DecidableEq, Inhabited

/-- The place that an analyzed expression denotes. -/
def Expr.place : Expr → Except CompileError Place
  | name _ _ (some (.slot number)) => .ok (.slot number)
  | name _ text (some (.field ref)) =>
    .ok (if ref.isStatic then .static ref text else .member ref text)
  | name n text none => .error (.unbound text n.line)
  | field _ _ text (some ref) => .ok (.member ref text)
  | field n _ text none => .error (.unbound text n.line)
  | index .. => .ok .element
  | e => .error (.notAPlace e.line)

namespace Place

/-- Pushes the current value and keeps the operands of the place. -/
def load (registry : Registry) (ty : Ty) : Place → Emit Unit
  | slot index => Emit.instr (.load ty index)
  | static ref name => Emit.field registry .getstatic ref name
  | member ref name => do
    Emit.op .dup
    Emit.field registry .getfield ref name
  | element => do
    Emit.op .dup2
    Emit.instr (.arrayLoad ty)

/-- Copies the value on the stack below the operands of the place. -/
def keep (ty : Ty) : Place → Emit Unit
  | slot _ | static .. => Emit.instr (.dup ty)
  | member .. => Emit.instr (.dupX1 ty)
  | element => Emit.instr (.dupX2 ty)

/-- Stores the value on the stack and drops the operands. -/
def store (registry : Registry) (ty : Ty) : Place → Emit Unit
  | slot index => Emit.instr (.store ty index)
  | static ref name => Emit.field registry .putstatic ref name
  | member ref name => Emit.field registry .putfield ref name
  | element => Emit.instr (.arrayStore ty)

end Place

/-- A step on the place that an expression denotes. -/
def Expr.onPlace (target : Expr) (step : Ty → Place → Emit Unit) : Emit Unit := do
  let ty ← Emit.provenTy target
  let place ← Emit.ofExcept target.place
  step ty place

end ClassCompiler
