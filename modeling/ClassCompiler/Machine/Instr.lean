import ClassCompiler.Machine.Constant
import ClassCompiler.Machine.OpCode
import ClassCompiler.Ty.Kind

/-!
# Instructions

One instruction of a method, or the definition of a label between instructions, and the choice of
an instruction by the type of the value it handles.

* `Instr`: instructions with their operands
* `Instr.pushInt`, `Instr.load`, `Instr.store`, ...: the instruction for a type
-/

namespace ClassCompiler

/-! ## Instructions -/

/-- A branch target inside one method. -/
structure Label where
  id : Nat
  deriving DecidableEq, Inhabited

def Label.text (label : Label) : String := "L" ++ toString label.id

inductive Instr
  | noArg (code : OpCode)
  /-- `bipush`, `sipush`, and loads and stores of any slot. -/
  | oneArg (code : OpCode) (arg : Int)
  | iinc (slot : Nat) (delta : Int)
  | ldc (constant : Constant)
  | branch (code : OpCode) (target : Label)
  /-- Field accesses and calls. -/
  | member (code : OpCode) (owner name descriptor : String)
  | reference (code : OpCode) (type : String)
  /-- The label of the instruction that follows. -/
  | label (name : Label)
  deriving DecidableEq, Inhabited

namespace Instr

/-- The operation code; a label has none. -/
def opCode? : Instr → Option OpCode
  | noArg code | oneArg code _ | branch code _ | member code _ _ _ | reference code _ => code
  | iinc .. => OpCode.iinc
  | ldc constant => if constant.isWide then OpCode.ldc2W else OpCode.ldc
  | label _ => none

def isLabel : Instr → Bool
  | label _ => true
  | _ => false

def text : Instr → String
  | noArg code => code.mnemonic
  | oneArg code arg => code.mnemonic ++ " " ++ toString arg
  | iinc slot delta => "iinc " ++ toString slot ++ " " ++ toString delta
  | ldc constant => (if constant.isWide then "ldc2_w " else "ldc ") ++ constant.text
  | branch code target => code.mnemonic ++ " " ++ target.text
  | member code owner name descriptor =>
    code.mnemonic ++ " " ++ owner ++ "." ++ name ++ ":" ++ descriptor
  | reference code type => code.mnemonic ++ " " ++ type
  | label name => name.text ++ ":"

end Instr

/-! ## Instructions by kind -/

namespace Kind

/-- The loads of the first four slots, and the load of any slot. -/
def loads : Kind → List OpCode × OpCode
  | int => ([.iload0, .iload1, .iload2, .iload3], .iload)
  | long => ([.lload0, .lload1, .lload2, .lload3], .lload)
  | float => ([.fload0, .fload1, .fload2, .fload3], .fload)
  | double => ([.dload0, .dload1, .dload2, .dload3], .dload)
  | reference => ([.aload0, .aload1, .aload2, .aload3], .aload)

/-- The stores to the first four slots, and the store to any slot. -/
def stores : Kind → List OpCode × OpCode
  | int => ([.istore0, .istore1, .istore2, .istore3], .istore)
  | long => ([.lstore0, .lstore1, .lstore2, .lstore3], .lstore)
  | float => ([.fstore0, .fstore1, .fstore2, .fstore3], .fstore)
  | double => ([.dstore0, .dstore1, .dstore2, .dstore3], .dstore)
  | reference => ([.astore0, .astore1, .astore2, .astore3], .astore)

def returnOp : Kind → OpCode
  | int => .ireturn
  | long => .lreturn
  | float => .freturn
  | double => .dreturn
  | reference => .areturn

/-- Pushes zero, or `null`. -/
def zeroOp : Kind → OpCode
  | int => .iconst0
  | long => .lconst0
  | float => .fconst0
  | double => .dconst0
  | reference => .aconstNull

/-- Pushes one. -/
def oneOp : Kind → OpCode
  | long => .lconst1
  | float => .fconst1
  | double => .dconst1
  | _ => .iconst1

end Kind

/-! ## Instructions by type -/

namespace Instr

/-- The instruction of least size that pushes an `int`. -/
def pushInt (value : Int32) : Instr :=
  let v := value.toInt
  if v = -1 then noArg .iconstM1
  else if v = 0 then noArg .iconst0
  else if v = 1 then noArg .iconst1
  else if v = 2 then noArg .iconst2
  else if v = 3 then noArg .iconst3
  else if v = 4 then noArg .iconst4
  else if v = 5 then noArg .iconst5
  else if -128 ≤ v ∧ v ≤ 127 then oneArg .bipush v
  else if -32768 ≤ v ∧ v ≤ 32767 then oneArg .sipush v
  else ldc (.int value)

def pushLong (value : Int64) : Instr :=
  if value = 0 then noArg .lconst0
  else if value = 1 then noArg .lconst1
  else ldc (.long value)

/-- The short form of zero is for positive zero only. -/
def pushFloat (value : Number.Binary32) : Instr :=
  if value = .zero then noArg .fconst0
  else if value = .one then noArg .fconst1
  else if value = .two then noArg .fconst2
  else ldc (.float value)

def pushDouble (value : Number.Binary64) : Instr :=
  if value = .zero then noArg .dconst0
  else if value = .one then noArg .dconst1
  else ldc (.double value)

def pushString (value : String) : Instr := ldc (.string value)

def pushZero (ty : Ty) : Instr := noArg ty.kind.zeroOp

def pushOne (ty : Ty) : Instr := noArg ty.kind.oneOp

/-- A local access, by a short form where the slot has one. -/
def localAccess (forms : List OpCode × OpCode) (slot : Nat) : Instr :=
  match forms.1[slot]? with
  | some short => noArg short
  | none => oneArg forms.2 slot

def load (ty : Ty) (slot : Nat) : Instr := localAccess ty.kind.loads slot

def store (ty : Ty) (slot : Nat) : Instr := localAccess ty.kind.stores slot

def dup (ty : Ty) : Instr := noArg (if ty.isWide then .dup2 else .dup)

/-- Copies the top value below one word. -/
def dupX1 (ty : Ty) : Instr := noArg (if ty.isWide then .dup2X1 else .dupX1)

/-- Copies the top value below two words. -/
def dupX2 (ty : Ty) : Instr := noArg (if ty.isWide then .dup2X2 else .dupX2)

/-- Drops a value; `void` leaves none. -/
def pop? (ty : Ty) : Option Instr :=
  if ty = .void then none else some (noArg (if ty.isWide then .pop2 else .pop))

def arrayLoad (element : Ty) : Instr :=
  noArg (match element.prim? with
    | some .int => .iaload
    | some .long => .laload
    | some .float => .faload
    | some .double => .daload
    | some .boolean | some .byte => .baload
    | some .char => .caload
    | some .short => .saload
    | some .void | none => .aaload)

def arrayStore (element : Ty) : Instr :=
  noArg (match element.prim? with
    | some .int => .iastore
    | some .long => .lastore
    | some .float => .fastore
    | some .double => .dastore
    | some .boolean | some .byte => .bastore
    | some .char => .castore
    | some .short => .sastore
    | some .void | none => .aastore)

/-- Returns a value of a type, or nothing for `void`. -/
def ret (ty : Ty) : Instr := noArg (if ty = .void then .vreturn else ty.kind.returnOp)

def goto (target : Label) : Instr := branch .goto target

end Instr

end ClassCompiler
