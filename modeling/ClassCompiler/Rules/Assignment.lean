import ClassCompiler.Registry.Ancestry
import ClassCompiler.Tree.Operator

/-!
# Assignment

Which operand types an assignment accepts. A plain assignment follows assignability; a compound one
has a set of legal left types and a set of legal right types, and its result has the left type.
`+=` on a `String` accepts everything and becomes a concatenation.
-/

namespace ClassCompiler

/-- Operand types of the arithmetic compound assignments. -/
def numericOperands : List Ty := [.int, .long, .double, .float]

/-- Operand types of the bitwise and shift compound assignments. -/
def integralOperands : List Ty := [.int, .long]

/-- The legal types on either side of a compound assignment. -/
def compoundOperands (op : BinaryOp) : List Ty :=
  if op.isShift || op.isBitwise then integralOperands else numericOperands

/-- The legal right types of an operator whose left side is legal. -/
def AssignOp.rightOperands : AssignOp → List Ty
  | plain => []
  | compound op => compoundOperands op

/-- The outcome of a check of operand types. -/
inductive AssignCheck
  /-- Legal; the assignment has this type. -/
  | ok (ty : Ty)
  /-- `+=` on a `String`. -/
  | concat
  | badLeft
  | badRight
  deriving DecidableEq, Inhabited

/-- Checks a plain assignment. -/
def checkPlain (registry : Registry) (left right : Ty) : AssignCheck :=
  if right.matchesExpected left
      || (left.isReference && right.isReference && registry.isAssignableFrom left right) then
    .ok left
  else .badRight

/-- Checks a compound assignment. -/
def checkCompound (op : BinaryOp) (left right : Ty) : AssignCheck :=
  if op = .add ∧ left = .string then .concat
  else if !(compoundOperands op).contains left then .badLeft
  else if !right.matchesOneOf (compoundOperands op) then .badRight
  else .ok left

/-- Checks `left op right`. A left side that has been reported before, of type `any`, is accepted
without a look at the right side. -/
def checkAssignment (registry : Registry) (op : AssignOp) (left right : Ty) : AssignCheck :=
  if left = .any then .ok .any
  else
    match op with
    | .plain => checkPlain registry left right
    | .compound op => checkCompound op left right

end ClassCompiler
