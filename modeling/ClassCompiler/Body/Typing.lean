import ClassCompiler.Error
import ClassCompiler.Registry.Ancestry
import ClassCompiler.Rules.Assignment
import ClassCompiler.Rules.Branching
import ClassCompiler.Tree.Expr

/-!
# Typing of operators

The type of an operator from its analyzed operands, and what is wrong with them. An operand of type
`any` has been reported already and is accepted everywhere, so a mistake does not spread.

* `Judgement`: a type, if there is one, and errors
* `judgeUnary`, `judgeBinary`, `judgeCompare`, `judgeEquality`, `judgeLogical`, `judgeAssign`, ...
-/

namespace ClassCompiler

/-- What is found out about an expression: its type, if it has one, and its errors. -/
structure Judgement where
  ty : Option Ty
  errors : List CompileError := []
  deriving DecidableEq, Inhabited

/-! ## Expectations -/

/-- A type where one other is expected. -/
def expectType (registry : Registry) (actual expected : Ty) (line : Nat) : List CompileError :=
  if actual.matchesExpected expected then []
  else [.unexpectedType (registry.displayName actual) (registry.displayName expected) line]

/-- A type where one of several is expected. -/
def expectOneOf (registry : Registry) (actual : Ty) (expected : List Ty) (line : Nat) :
    List CompileError :=
  if actual.matchesOneOf expected then []
  else [.noneOfTypes (registry.displayName actual) (expected.map registry.displayName) line]

/-- An operator on operands that it is not defined for. -/
def refuseOperands (registry : Registry) (symbol : String) (operands : List Ty) (line : Nat) :
    Judgement :=
  ⟨none, [.inapplicableOperator symbol (operands.map registry.displayName) line]⟩

/-- Conditions and the operands of `!`, `&&` and `||` are boolean. -/
def expectBoolean (registry : Registry) (operand : Expr) : List CompileError :=
  expectType registry operand.tyOrAny .boolean operand.line

/-- A part of a concatenation may have any type but `void`. -/
def expectConcatenable (operand : Expr) : List CompileError :=
  if operand.ty = some Ty.void then [.voidOperand operand.line] else []

/-! ## Values -/

def Literal.ty : Literal → Ty
  | int _ => .int
  | long _ => .long
  | float _ => .float
  | double _ => .double
  | bool _ => .boolean
  | char _ => .char
  | string _ => .string
  | null => .null

/-- The element type of an array. -/
def judgeElement (registry : Registry) (array : Expr) (line : Nat) : Judgement :=
  let ty := array.tyOrAny
  if ty = .any then ⟨some .any, []⟩
  else
    match registry.elementType? ty with
    | some element => ⟨element, []⟩
    | none =>
      ⟨some .any, [.typeMismatch ("array required, but " ++ registry.displayName ty ++ " found") line]⟩

/-- The types of an array index. -/
def indexTypes : List Ty := [.int, .char, .short, .byte]

def judgeIndex (registry : Registry) (array index : Expr) (line : Nat) : Judgement :=
  let element := judgeElement registry array line
  { element with
    errors := element.errors ++ expectOneOf registry index.tyOrAny indexTypes index.line }

def judgeLength (registry : Registry) (array : Expr) (line : Nat) : Judgement :=
  { judgeElement registry array line with ty := some .int }

/-! ## Arithmetic -/

def judgeUnary (registry : Registry) (op : UnaryOp) (operand : Expr) (line : Nat) : Judgement :=
  let ty := operand.tyOrAny
  if ty = .any then ⟨some .any, []⟩
  else if op = .bitNot ∧ !ty.isIntegral then refuseOperands registry op.symbol [ty] line
  else
    match unaryPromotion? ty with
    | some promoted => ⟨promoted, []⟩
    | none => refuseOperands registry op.symbol [ty] line

/-- `+` with a `String` on either side is a concatenation. -/
def isConcatenation (op : BinaryOp) (lhs rhs : Expr) : Bool :=
  op = .add ∧ (lhs.tyOrAny = .string ∨ rhs.tyOrAny = .string)

def judgeConcat (lhs rhs : Expr) : Judgement :=
  ⟨some .string, expectConcatenable lhs ++ expectConcatenable rhs⟩

/-- A binary operator that is not a concatenation. -/
def judgeBinary (registry : Registry) (op : BinaryOp) (lhs rhs : Expr) (line : Nat) : Judgement :=
  let left := lhs.tyOrAny
  let right := rhs.tyOrAny
  if left = .any ∨ right = .any then ⟨some .any, []⟩
  else
    match resolveBinary? op left right with
    | some rule => ⟨rule.result, []⟩
    | none => refuseOperands registry op.symbol [left, right] line

/-- `++` and `--` on a place. -/
def judgeIncrement (registry : Registry) (op : IncrementOp) (operand : Expr) (line : Nat) :
    Judgement :=
  let ty := operand.tyOrAny
  if ty = .any ∨ ty.isNumeric then ⟨ty, []⟩ else refuseOperands registry op.symbol [ty] line

/-! ## Conditions

They are boolean even when their operands are wrong. -/

/-- The operand types of the relations. There is no promotion between them. -/
def comparableTypes : List Ty := [.int, .double]

def judgeCompare (registry : Registry) (lhs rhs : Expr) : Judgement :=
  let left := lhs.tyOrAny
  let right := rhs.tyOrAny
  let errors :=
    if left = .any ∨ right = .any then []
    else if left.matchesOneOf comparableTypes then expectType registry right left rhs.line
    else expectOneOf registry left comparableTypes lhs.line
  ⟨some .boolean, errors⟩

def judgeEquality (registry : Registry) (lhs rhs : Expr) (line : Nat) : Judgement :=
  let left := lhs.tyOrAny
  let right := rhs.tyOrAny
  let errors :=
    if left = .any ∨ right = .any ∨ (equalityKind? left right).isSome then []
    else
      [.typeMismatch ("incomparable types: " ++ registry.displayName left ++ " and "
        ++ registry.displayName right) line]
  ⟨some .boolean, errors⟩

def judgeLogical (registry : Registry) (lhs rhs : Expr) : Judgement :=
  ⟨some .boolean, expectBoolean registry lhs ++ expectBoolean registry rhs⟩

/-! ## Assignment -/

/-- The right side of `target += operand` on a `String`: the concatenation of the old value and the
operand. -/
def appendedValue (target operand : Expr) : Expr :=
  .concat { line := operand.line, ty := some .string } target operand

/-- The right side that an assignment stores, and the judgement on the assignment. -/
def judgeAssign (registry : Registry) (op : AssignOp) (lhs rhs : Expr) (line : Nat) :
    Expr × Judgement :=
  let left := lhs.tyOrAny
  let right := rhs.tyOrAny
  match checkAssignment registry op left right with
  | .ok ty => (rhs, ⟨ty, []⟩)
  | .concat => (appendedValue lhs rhs, ⟨some .string, expectConcatenable rhs⟩)
  | .badLeft =>
    (rhs, ⟨none, [.typeMismatch
      ("invalid lhs type for " ++ op.symbol ++ ": " ++ registry.displayName left) line]⟩)
  | .badRight =>
    match op with
    | .plain => (rhs, ⟨none, expectType registry right left rhs.line⟩)
    | .compound _ => (rhs, ⟨none, expectOneOf registry right op.rightOperands rhs.line⟩)

/-- The value of a `return` must be assignable to the declared result. -/
def returnErrors (registry : Registry) (returnTy : Ty) (value : Option Expr) (line : Nat) :
    List CompileError :=
  match value with
  | none =>
    if returnTy = .void ∨ returnTy = .any then [] else [.typeMismatch "missing return value" line]
  | some value =>
    if returnTy = .void then
      [.typeMismatch "cannot return a value from a method with void result type" line]
    else
      match checkAssignment registry .plain returnTy value.tyOrAny with
      | .ok _ => []
      | _ => expectType registry value.tyOrAny returnTy value.line

end ClassCompiler
