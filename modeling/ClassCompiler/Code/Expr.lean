import ClassCompiler.Code.Place
import ClassCompiler.Rules.Assignment
import ClassCompiler.Rules.Branching

/-!
# Code of expressions

An expression can be used in four ways, and has code for each: for its value, for a jump on its
value, for the place that it denotes, and as a part of a concatenation. Conditions have a jump of
their own; their value is made by jumping to one of two pushes. All other expressions jump on their
value.

* `ExprCode`: the four pieces
* `Expr.code`: the pieces of an analyzed expression
-/

namespace ClassCompiler

/-- The code of an expression in its four uses. -/
structure ExprCode where
  /-- Leaves the value on the stack. Assignments and increments that are statements leave none. -/
  value : Emit Unit
  /-- Jumps to the label if the value is the given one, and goes on otherwise. -/
  branch : Label → Bool → Emit Unit
  /-- Pushes the operands of the place. -/
  operands : Emit Unit
  /-- Appends the value to the string builder on the stack. -/
  append : Emit Unit

namespace ExprCode

/-! ## Concatenation

All parts of a tree of concatenations go to one string builder, from left to right. -/

def builderName : String := "java/lang/StringBuilder"

/-- The parameter of the `append` for a type. -/
def appendParam (ty : Ty) : String :=
  match ty.prim? with
  | some .int | some .short | some .byte => "I"
  | some .char => "C"
  | some .boolean => "Z"
  | some .long => "J"
  | some .float => "F"
  | some .double => "D"
  | _ => if ty = .string then "Ljava/lang/String;" else "Ljava/lang/Object;"

def appendValue (ty : Ty) : Instr :=
  .member .invokevirtual builderName "append"
    ("(" ++ appendParam ty ++ ")Ljava/lang/StringBuilder;")

/-- Appends the value of an expression that is no concatenation. -/
def appendOnce (e : Expr) (value : Emit Unit) : Emit Unit := do
  let ty ← Emit.provenTy e
  value
  Emit.instr (appendValue ty)

/-- A new builder, its parts, and the string that they make. -/
def concatValue (parts : Emit Unit) : Emit Unit := do
  Emit.instr (.reference .newObject builderName)
  Emit.op .dup
  Emit.instr (.member .invokespecial builderName "<init>" "()V")
  parts
  Emit.instr (.member .invokevirtual builderName "toString" "()Ljava/lang/String;")

/-! ## Values and jumps -/

/-- Jumps on a truth value. -/
def branchOnValue (value : Emit Unit) (target : Label) (onTrue : Bool) : Emit Unit := do
  value
  Emit.instr (.branch (valueBranch onTrue) target)

/-- Makes the value of a condition from its jump. -/
def valueOfBranch (branch : Label → Bool → Emit Unit) : Emit Unit := do
  let onFalse ← Emit.newLabel
  let done ← Emit.newLabel
  branch onFalse false
  Emit.op .iconst1
  Emit.goto done
  Emit.place onFalse
  Emit.op .iconst0
  Emit.place done

/-- The uses of an expression that has a value and is no place. -/
def ofValue (e : Expr) (value : Emit Unit) : ExprCode where
  value
  branch := branchOnValue value
  operands := Emit.fail (.notAPlace e.line)
  append := appendOnce e value

/-- The uses of a condition. -/
def ofBranch (e : Expr) (branch : Label → Bool → Emit Unit) : ExprCode :=
  { ofValue e (valueOfBranch branch) with branch }

/-- The uses of a place. -/
def ofPlace (e : Expr) (operands value : Emit Unit) : ExprCode :=
  { ofValue e value with operands }

/-! ## Literals -/

def literalInstr : Literal → Instr
  | .int value => .pushInt value
  | .long value => .pushLong value
  | .float value => .pushFloat value
  | .double value => .pushDouble value
  | .bool value => .pushInt (if value then 1 else 0)
  | .char unit => .pushInt unit.toNat.toInt32
  | .string value => .pushString value
  | .null => .noArg .aconstNull

/-- A literal condition jumps always or never. -/
def literalBranch (value : Bool) (target : Label) (onTrue : Bool) : Emit Unit :=
  if value = onTrue then Emit.goto target else pure ()

/-! ## Operators -/

def unaryOps (op : UnaryOp) (ty : Ty) : List Instr :=
  match op with
  | .plus => []
  | .neg =>
    [.noArg (match ty.prim? with
      | some .long => .lneg
      | some .float => .fneg
      | some .double => .dneg
      | _ => .ineg)]
  | .bitNot =>
    if ty = .long then [.pushLong (-1), .noArg .lxor] else [.noArg .iconstM1, .noArg .ixor]

def unaryValue (op : UnaryOp) (e operand : Expr) (value : Emit Unit) : Emit Unit := do
  let operandTy ← Emit.provenTy operand
  let ty ← Emit.provenTy e
  value
  Emit.ops (conversion operandTy ty)
  (unaryOps op ty).forM Emit.instr

def binaryValue (op : BinaryOp) (line : Nat) (lhs rhs : Expr) (left right : Emit Unit) :
    Emit Unit := do
  let leftTy ← Emit.provenTy lhs
  let rightTy ← Emit.provenTy rhs
  let rule ← Emit.ofOption (resolveBinary? op leftTy rightTy)
    (.internal ("unresolved operator " ++ op.symbol ++ " at line " ++ toString line))
  left
  Emit.ops rule.left
  right
  Emit.ops rule.right
  Emit.op rule.op

/-- The comparison, if there is one, and the jump. -/
def test (selected : BranchTest) (target : Label) : Emit Unit := do
  Emit.ops selected.compare.toList
  Emit.instr (.branch selected.jump target)

def compareJump (registry : Registry) (op : CompareOp) (lhs : Expr) (left right : Emit Unit)
    (target : Label) (onTrue : Bool) : Emit Unit := do
  let operand ← Emit.provenTy lhs
  let selected ← Emit.ofOption (compareBranch? op operand onTrue)
    (.internal ("operator " ++ op.symbol ++ " on " ++ registry.displayName operand ++ " at line "
      ++ toString lhs.line))
  left
  right
  test selected target

def equalityJump (op : EqualityOp) (lhs rhs : Expr) (left right : Emit Unit)
    (target : Label) (onTrue : Bool) : Emit Unit := do
  let leftTy ← Emit.provenTy lhs
  let rightTy ← Emit.provenTy rhs
  let kind ← Emit.ofOption (equalityKind? leftTy rightTy)
    (.internal ("incomparable operands at line " ++ toString lhs.line))
  let operand := match kind with
    | .numeric promoted => promoted
    | _ => leftTy
  left
  Emit.ops (conversion leftTy operand)
  right
  Emit.ops (conversion rightTy operand)
  test (equalityBranch kind op onTrue) target

/-- The right operand is tested only where the left one does not decide. -/
def logicalJump (op : LogicalOp) (left right : Label → Bool → Emit Unit) (target : Label)
    (onTrue : Bool) : Emit Unit :=
  if onTrue = (op == .or) then do
    left target onTrue
    right target onTrue
  else do
    let skip ← Emit.newLabel
    left skip (!onTrue)
    right target onTrue
    Emit.place skip

/-! ## Names and members -/

def nameValue (registry : Registry) (n : Node) (text : String) (binding : Option Binding) :
    Emit Unit :=
  match binding with
  | some (.slot index) => do
    let ty ← Emit.provenTy (.name n text binding)
    Emit.instr (.load ty index)
  | some (.field ref) =>
    if ref.isStatic then Emit.field registry .getstatic ref text
    else do
      Emit.op .aload0
      Emit.field registry .getfield ref text
  | none => Emit.fail (.unbound text n.line)

/-- A field of the enclosing class is reached through `this`. -/
def nameOperands (n : Node) (text : String) (binding : Option Binding) : Emit Unit :=
  match binding with
  | some (.slot _) => pure ()
  | some (.field ref) => if ref.isStatic then pure () else Emit.op .aload0
  | none => Emit.fail (.unbound text n.line)

def fieldOperands (n : Node) (text : String) (ref : Option FieldRef) (target : Emit Unit) :
    Emit Unit :=
  match ref with
  | some _ => target
  | none => Emit.fail (.unbound text n.line)

def fieldValue (registry : Registry) (n : Node) (text : String) (ref : Option FieldRef)
    (target : Emit Unit) : Emit Unit :=
  match ref with
  | some ref => do
    target
    Emit.field registry .getfield ref text
  | none => Emit.fail (.unbound text n.line)

def invokeOp (method : MethodRef) : OpCode :=
  if method.isStatic then .invokestatic
  else if method.isPrivate then .invokespecial
  else if method.ownerIsInterface then .invokeinterface
  else .invokevirtual

def callValue (registry : Registry) (n : Node) (text : String) (method : Option MethodRef)
    (target : Option (Emit Unit)) (args : Emit Unit) : Emit Unit :=
  match method with
  | none => Emit.fail (.unbound text n.line)
  | some method => do
    if method.isStatic then pure () else target.getD (Emit.op .aload0)
    args
    Emit.instr (.member (invokeOp method) (registry.internalName method.owner) text
      method.descriptor)

/-! ## Assignment -/

/-- The new value of a compound assignment: computed in the type of the left side, with an `int` as
a shift distance. -/
def compoundValue (registry : Registry) (op : BinaryOp) (line : Nat) (lhs rhs : Expr) (left : Ty)
    (right : Emit Unit) : Emit Unit := do
  let rightTy ← Emit.provenTy rhs
  let code ← Emit.ofOption (arithmeticOp? op left)
    (.internal ("operator " ++ op.symbol ++ "= has no instruction for "
      ++ registry.displayName left ++ " at line " ++ toString line))
  lhs.onPlace fun ty place => place.load registry ty
  right
  Emit.ops (conversion rightTy (if op.isShift then .int else left))
  Emit.op code

/-- `+=` on a `String` stores the concatenation that its right side has become. -/
def assignValue (registry : Registry) (n : Node) (op : AssignOp) (lhs rhs : Expr)
    (operands right : Emit Unit) : Emit Unit := do
  let left ← Emit.provenTy lhs
  operands
  match op with
  | .plain => right
  | .compound op =>
    if op = .add ∧ left = .string then right
    else compoundValue registry op n.line lhs rhs left right
  if n.isStatement then pure () else lhs.onPlace fun ty place => place.keep ty
  lhs.onPlace fun ty place => place.store registry ty

/-- `++` and `--` on an `int` local are one instruction. -/
def incrementLocal (op : IncrementOp) (ty : Ty) (slot : Nat) (keepOld keepNew : Bool) :
    Emit Unit := do
  if keepOld then Emit.instr (.load ty slot) else pure ()
  Emit.instr (.iinc slot op.delta)
  if keepNew then Emit.instr (.load ty slot) else pure ()

/-- `++` and `--` on any other place: one is added or subtracted in the promoted type. -/
def incrementPlace (registry : Registry) (op : IncrementOp) (line : Nat) (target : Expr) (ty : Ty)
    (operands : Emit Unit) (keepOld keepNew : Bool) : Emit Unit := do
  let promoted ← Emit.ofOption (unaryPromotion? ty)
    (.internal (op.symbol ++ " on a non-numeric value at line " ++ toString line))
  let code ← Emit.ofOption (arithmeticOp? (if 0 < op.delta then .add else .sub) promoted)
    (.internal (op.symbol ++ " has no instruction at line " ++ toString line))
  operands
  target.onPlace fun ty place => place.load registry ty
  if keepOld then target.onPlace fun ty place => place.keep ty else pure ()
  Emit.instr (.pushOne promoted)
  Emit.op code
  Emit.ops (conversion promoted ty)
  if keepNew then target.onPlace fun ty place => place.keep ty else pure ()
  target.onPlace fun ty place => place.store registry ty

def incrementValue (registry : Registry) (n : Node) (op : IncrementOp) (target : Expr)
    (operands : Emit Unit) : Emit Unit := do
  let ty ← Emit.provenTy target
  let keepOld := !n.isStatement && !op.isPre
  let keepNew := !n.isStatement && op.isPre
  match target with
  | .name _ _ (some (.slot slot)) =>
    if ty = .int then incrementLocal op ty slot keepOld keepNew
    else incrementPlace registry op n.line target ty operands keepOld keepNew
  | _ => incrementPlace registry op n.line target ty operands keepOld keepNew

end ExprCode

/-! ## The code of an expression -/

open ExprCode

namespace Expr

mutual

def code (registry : Registry) : Expr → ExprCode
  | e@(literal _ value) =>
    let simple := ofValue e (Emit.instr (literalInstr value))
    match value with
    | .bool value => { simple with branch := literalBranch value }
    | _ => simple
  | e@(name n text binding) =>
    ofPlace e (nameOperands n text binding) (nameValue registry n text binding)
  | e@(self _) => ofValue e (Emit.op .aload0)
  | e@(field n target text ref) =>
    let target := target.code registry
    ofPlace e (fieldOperands n text ref target.value) (fieldValue registry n text ref target.value)
  | e@(index _ array position) =>
    let array := array.code registry
    let position := position.code registry
    let operands := do
      array.value
      position.value
    ofPlace e operands do
      let element ← Emit.provenTy e
      operands
      Emit.instr (.arrayLoad element)
  | e@(length _ array) =>
    let array := array.code registry
    ofValue e do
      array.value
      Emit.op .arraylength
  | e@(unary _ op operand) => ofValue e (unaryValue op e operand (operand.code registry).value)
  | e@(not _ operand) =>
    let operand := operand.code registry
    ofBranch e fun target onTrue => operand.branch target (!onTrue)
  | e@(binary n op lhs rhs) =>
    ofValue e
      (binaryValue op n.line lhs rhs (lhs.code registry).value (rhs.code registry).value)
  | e@(compare _ op lhs rhs) =>
    ofBranch e (compareJump registry op lhs (lhs.code registry).value (rhs.code registry).value)
  | e@(equality _ op lhs rhs) =>
    ofBranch e (equalityJump op lhs rhs (lhs.code registry).value (rhs.code registry).value)
  | e@(logical _ op lhs rhs) =>
    ofBranch e (logicalJump op (lhs.code registry).branch (rhs.code registry).branch)
  | e@(concat _ lhs rhs) =>
    let lhs := lhs.code registry
    let rhs := rhs.code registry
    let parts := do
      lhs.append
      rhs.append
    { ofValue e (concatValue parts) with append := parts }
  | e@(assign n op lhs rhs) =>
    ofValue e (assignValue registry n op lhs rhs (lhs.code registry).operands
      (rhs.code registry).value)
  | e@(increment n op operand) =>
    ofValue e (incrementValue registry n op operand (operand.code registry).operands)
  | e@(call n target text args method) =>
    let target := match target with
      | none => none
      | some target => some (target.code registry).value
    ofValue e (callValue registry n text method target (argsCode registry args))

/-- The values of arguments, from left to right. -/
def argsCode (registry : Registry) : List Expr → Emit Unit
  | [] => pure ()
  | first :: rest => do
    (first.code registry).value
    argsCode registry rest

end

end Expr

end ClassCompiler
