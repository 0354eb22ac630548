import ClassCompiler.Rules.Arithmetic

/-!
# Branching

The jumps that test a condition. A condition becomes a conditional jump at once: taken when it
holds, or taken when it fails, which is the jump of the negated operator.

* `compareBranch?`: relations on `int` and `double`
* `equalityKind?`, `equalityBranch`: equality of numbers, booleans and references
-/

namespace ClassCompiler

/-- The instructions that test two operands on the stack: one that reduces them to -1, 0 or 1 where
the type needs it, and a jump. -/
structure BranchTest where
  compare : Option OpCode
  jump : OpCode
  deriving DecidableEq, Inhabited

/-! ## Relations -/

/-- The jump that compares two `int`s. -/
def CompareOp.onInts : CompareOp → OpCode
  | .greater => .ifIcmpgt
  | .less => .ifIcmplt
  | .lessEqual => .ifIcmple
  | .greaterEqual => .ifIcmpge

/-- The jump that compares a number with zero. -/
def CompareOp.onSign : CompareOp → OpCode
  | .greater => .ifgt
  | .less => .iflt
  | .lessEqual => .ifle
  | .greaterEqual => .ifge

/-- The comparison of doubles under which a relation fails if an operand is not a number. -/
def CompareOp.onDoubles : CompareOp → OpCode
  | .greater | .greaterEqual => .dcmpl
  | .less | .lessEqual => .dcmpg

/-- The test for `lhs op rhs` on operands of type `int` or `double`. -/
def compareBranch? (op : CompareOp) (operand : Ty) (onTrue : Bool) : Option BranchTest :=
  let tested := if onTrue then op else op.negate
  if operand = .int then some ⟨none, tested.onInts⟩
  else if operand = .double then some ⟨some op.onDoubles, tested.onSign⟩
  else none

/-! ## Equality -/

/-- How two operands are compared by `==` and `!=`. -/
inductive EqualityKind
  /-- Both operands are converted to this promoted type. -/
  | numeric (ty : Ty)
  | boolean
  | reference
  deriving DecidableEq, Inhabited

/-- How to compare two types, if they can be compared. -/
def equalityKind? (left right : Ty) : Option EqualityKind :=
  if left = .boolean ∧ right = .boolean then some .boolean
  else
    match binaryPromotion? left right with
    | some promoted => some (.numeric promoted)
    | none => if left.isReference && right.isReference then some .reference else none

/-- The comparison and the jumps on equal and on unequal operands. -/
def EqualityKind.forms : EqualityKind → Option OpCode × OpCode × OpCode
  | boolean => (none, .ifIcmpeq, .ifIcmpne)
  | reference => (none, .ifAcmpeq, .ifAcmpne)
  | numeric ty =>
    if ty = .int then (none, .ifIcmpeq, .ifIcmpne)
    else if ty = .long then (some .lcmp, .ifeq, .ifne)
    else if ty = .float then (some .fcmpl, .ifeq, .ifne)
    else (some .dcmpl, .ifeq, .ifne)

/-- The test for `==` or `!=`. -/
def equalityBranch (kind : EqualityKind) (op : EqualityOp) (onTrue : Bool) : BranchTest :=
  let (compare, ifEqual, ifNotEqual) := kind.forms
  ⟨compare, if (op == .equal) == onTrue then ifEqual else ifNotEqual⟩

/-- The jump on a truth value on the stack. -/
def valueBranch (onTrue : Bool) : OpCode := if onTrue then .ifne else .ifeq

end ClassCompiler
