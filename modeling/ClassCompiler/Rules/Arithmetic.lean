import ClassCompiler.Machine.OpCode
import ClassCompiler.Tree.Operator
import ClassCompiler.Ty.Kind

/-!
# Arithmetic

Numeric promotion, the conversions between primitive types, and the instruction that a binary
operator stands for on a pair of operand types. Concatenation of strings is not arithmetic.

* `unaryPromotion?`, `binaryPromotion?`
* `conversion`: instructions from one type to another
* `resolveBinary?`: instruction, conversions and type of `left op right`
-/

namespace ClassCompiler

/-! ## Promotion -/

/-- The small integers become `int`; the other numeric types stay. -/
def unaryPromotion? (ty : Ty) : Option Ty :=
  match ty.prim? with
  | some .byte | some .short | some .char | some .int => some .int
  | some .long => some .long
  | some .float => some .float
  | some .double => some .double
  | _ => none

/-- The common type of two numeric operands. -/
def binaryPromotion? (left right : Ty) : Option Ty :=
  match unaryPromotion? left, unaryPromotion? right with
  | some left, some right =>
    if left = .double ∨ right = .double then some .double
    else if left = .float ∨ right = .float then some .float
    else if left = .long ∨ right = .long then some .long
    else some .int
  | _, _ => none

/-! ## Conversion -/

/-- The instructions that turn a value of type `source` on the stack into one of type `target`.
There are none where nothing has to be done, and none where nothing can be done. -/
def conversion (source target : Ty) : List OpCode :=
  match source.kind, target.prim? with
  | .int, some .long => [.i2l]
  | .int, some .float => [.i2f]
  | .int, some .double => [.i2d]
  | .int, some .byte => [.i2b]
  | .int, some .char => [.i2c]
  | .int, some .short => [.i2s]
  | .long, some .int => [.l2i]
  | .long, some .float => [.l2f]
  | .long, some .double => [.l2d]
  | .long, some .byte => [.l2i, .i2b]
  | .long, some .char => [.l2i, .i2c]
  | .long, some .short => [.l2i, .i2s]
  | .float, some .int => [.f2i]
  | .float, some .long => [.f2l]
  | .float, some .double => [.f2d]
  | .double, some .int => [.d2i]
  | .double, some .long => [.d2l]
  | .double, some .float => [.d2f]
  | _, _ => []

/-! ## Binary operators -/

/-- The instruction for operands of kind `int`. -/
def BinaryOp.onInt : BinaryOp → OpCode
  | .add => .iadd
  | .sub => .isub
  | .mul => .imul
  | .div => .idiv
  | .rem => .irem
  | .bitAnd => .iand
  | .bitOr => .ior
  | .bitXor => .ixor
  | .shl => .ishl
  | .shr => .ishr
  | .ushr => .iushr

/-- The instruction for a left operand of kind `long`. -/
def BinaryOp.onLong : BinaryOp → OpCode
  | .add => .ladd
  | .sub => .lsub
  | .mul => .lmul
  | .div => .ldiv
  | .rem => .lrem
  | .bitAnd => .land
  | .bitOr => .lor
  | .bitXor => .lxor
  | .shl => .lshl
  | .shr => .lshr
  | .ushr => .lushr

def BinaryOp.onFloat? : BinaryOp → Option OpCode
  | .add => OpCode.fadd
  | .sub => OpCode.fsub
  | .mul => OpCode.fmul
  | .div => OpCode.fdiv
  | .rem => OpCode.frem
  | _ => none

def BinaryOp.onDouble? : BinaryOp → Option OpCode
  | .add => OpCode.dadd
  | .sub => OpCode.dsub
  | .mul => OpCode.dmul
  | .div => OpCode.ddiv
  | .rem => OpCode.drem
  | _ => none

/-- The instruction for two operands of a promoted type, or of type `boolean`. -/
def arithmeticOp? (op : BinaryOp) (ty : Ty) : Option OpCode :=
  match ty.prim? with
  | some .int | some .boolean => op.onInt
  | some .long => op.onLong
  | some .float => op.onFloat?
  | some .double => op.onDouble?
  | _ => none

/-- How a binary operator applies to a pair of operand types. -/
structure BinaryRule where
  op : OpCode
  /-- Applied to the left operand once it is pushed. -/
  left : List OpCode
  right : List OpCode
  result : Ty
  deriving DecidableEq, Inhabited

/-- The rule for `left op right` on primitive operands, if the operator is defined on them. -/
def resolveBinary? (op : BinaryOp) (left right : Ty) : Option BinaryRule :=
  if op.isBitwise ∧ left = .boolean ∧ right = .boolean then
    some ⟨op.onInt, [], [], .boolean⟩
  else if op.isShift then
    if left.isIntegral && right.isIntegral then do
      let result ← unaryPromotion? left
      let code ← arithmeticOp? op result
      return ⟨code, conversion left result, conversion right .int, result⟩
    else none
  else if op.isBitwise && !(left.isIntegral && right.isIntegral) then none
  else do
    let result ← binaryPromotion? left right
    let code ← arithmeticOp? op result
    return ⟨code, conversion left result, conversion right result, result⟩

end ClassCompiler
