import ClassCompiler.Ty.Basic

/-!
# Kinds of values

What the machine tells apart of the types: the small integers are all `int`, and every type that is
not numeric is a reference.
-/

namespace ClassCompiler

inductive Kind
  | int
  | long
  | float
  | double
  | reference
  deriving DecidableEq, Inhabited

def Ty.kind (ty : Ty) : Kind :=
  match ty.prim? with
  | some .long => .long
  | some .float => .float
  | some .double => .double
  | some .void | none => .reference
  | some _ => .int

/-- Words that a value takes on the operand stack. -/
def Kind.words : Kind → Nat
  | long | double => 2
  | _ => 1

end ClassCompiler
