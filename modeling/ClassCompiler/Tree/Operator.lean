import ClassCompiler.Token

/-!
# Operators

One type per family of operators, with the token and the source text of each operator. The rules
for operand types and the instructions are elsewhere.
-/

namespace ClassCompiler

/-! ## Arithmetic, bitwise and shift operators -/

inductive BinaryOp
  | add
  | sub
  | mul
  | div
  | rem
  | bitAnd
  | bitOr
  | bitXor
  | shl
  | shr
  | ushr
  deriving DecidableEq, Inhabited

namespace BinaryOp

def all : List BinaryOp := [add, sub, mul, div, rem, bitAnd, bitOr, bitXor, shl, shr, ushr]

def symbol : BinaryOp → String
  | add => "+"
  | sub => "-"
  | mul => "*"
  | div => "/"
  | rem => "%"
  | bitAnd => "&"
  | bitOr => "|"
  | bitXor => "^"
  | shl => "<<"
  | shr => ">>"
  | ushr => ">>>"

def ofToken? : Token → Option BinaryOp
  | .plus => add
  | .minus => sub
  | .star => mul
  | .slash => div
  | .percent => rem
  | .ampersand => bitAnd
  | .bar => bitOr
  | .caret => bitXor
  | .shiftLeft => shl
  | .shiftRight => shr
  | .unsignedShiftRight => ushr
  | _ => none

/-- The name in listings of operators. -/
def name : BinaryOp → String
  | add => "Add"
  | sub => "Sub"
  | mul => "Mul"
  | div => "Div"
  | rem => "Rem"
  | bitAnd => "BitAnd"
  | bitOr => "BitOr"
  | bitXor => "BitXor"
  | shl => "Shl"
  | shr => "Shr"
  | ushr => "Ushr"

def isShift : BinaryOp → Bool
  | shl | shr | ushr => true
  | _ => false

def isBitwise : BinaryOp → Bool
  | bitAnd | bitOr | bitXor => true
  | _ => false

end BinaryOp

/-! ## Relations -/

inductive CompareOp
  | greater
  | less
  | lessEqual
  | greaterEqual
  deriving DecidableEq, Inhabited

namespace CompareOp

def all : List CompareOp := [greater, less, lessEqual, greaterEqual]

def symbol : CompareOp → String
  | greater => ">"
  | less => "<"
  | lessEqual => "<="
  | greaterEqual => ">="

/-- The name in listings of operators. -/
def name : CompareOp → String
  | greater => "Greater"
  | less => "Less"
  | lessEqual => "LessEqual"
  | greaterEqual => "GreaterEqual"

def ofToken? : Token → Option CompareOp
  | .greater => greater
  | .less => less
  | .lessEqual => lessEqual
  | .greaterEqual => greaterEqual
  | _ => none

/-- The relation that holds of two numbers exactly when this one does not. -/
def negate : CompareOp → CompareOp
  | greater => lessEqual
  | less => greaterEqual
  | lessEqual => greater
  | greaterEqual => less

end CompareOp

inductive EqualityOp
  | equal
  | notEqual
  deriving DecidableEq, Inhabited

namespace EqualityOp

def all : List EqualityOp := [equal, notEqual]

def symbol : EqualityOp → String
  | equal => "=="
  | notEqual => "!="

def negate : EqualityOp → EqualityOp
  | equal => notEqual
  | notEqual => equal

end EqualityOp

/-! ## Logic and unary operators -/

/-- The operators that may skip their right operand. -/
inductive LogicalOp
  | and
  | or
  deriving DecidableEq, Inhabited

namespace LogicalOp

def all : List LogicalOp := [and, or]

def symbol : LogicalOp → String
  | and => "&&"
  | or => "||"

end LogicalOp

inductive UnaryOp
  | neg
  | plus
  | bitNot
  deriving DecidableEq, Inhabited

namespace UnaryOp

def all : List UnaryOp := [neg, plus, bitNot]

def symbol : UnaryOp → String
  | neg => "-"
  | plus => "+"
  | bitNot => "~"

end UnaryOp

/-! ## Updates -/

/-- `++` and `--`, before or after their operand. -/
inductive IncrementOp
  | preIncrement
  | preDecrement
  | postIncrement
  | postDecrement
  deriving DecidableEq, Inhabited

namespace IncrementOp

def all : List IncrementOp := [preIncrement, preDecrement, postIncrement, postDecrement]

def isPre : IncrementOp → Bool
  | preIncrement | preDecrement => true
  | _ => false

def delta : IncrementOp → Int
  | preIncrement | postIncrement => 1
  | preDecrement | postDecrement => -1

def symbol (op : IncrementOp) : String := if 0 < op.delta then "++" else "--"

/-- The operator on an operand `x`. -/
def form (op : IncrementOp) : String := if op.isPre then op.symbol ++ "x" else "x" ++ op.symbol

end IncrementOp

/-- Plain assignment, or a compound assignment with its arithmetic operator. -/
inductive AssignOp
  | plain
  | compound (op : BinaryOp)
  deriving DecidableEq, Inhabited

namespace AssignOp

/-- The arithmetic operator that a compound assignment applies. -/
def binaryOp? : AssignOp → Option BinaryOp
  | plain => none
  | compound op => op

def symbol : AssignOp → String
  | plain => "="
  | compound op => op.symbol ++ "="

def all : List AssignOp := plain :: BinaryOp.all.map compound

/-- The name in listings of operators. -/
def name : AssignOp → String
  | plain => "Assign"
  | compound .bitAnd => "AndAssign"
  | compound .bitOr => "OrAssign"
  | compound .bitXor => "XorAssign"
  | compound op => op.name ++ "Assign"

def ofToken? : Token → Option AssignOp
  | .assign => plain
  | .plusAssign => compound .add
  | .minusAssign => compound .sub
  | .starAssign => compound .mul
  | .slashAssign => compound .div
  | .percentAssign => compound .rem
  | .ampersandAssign => compound .bitAnd
  | .barAssign => compound .bitOr
  | .caretAssign => compound .bitXor
  | .shiftLeftAssign => compound .shl
  | .shiftRightAssign => compound .shr
  | .unsignedShiftRightAssign => compound .ushr
  | _ => none

end AssignOp

end ClassCompiler
