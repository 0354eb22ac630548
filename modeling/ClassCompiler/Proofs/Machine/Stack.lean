import ClassCompiler.Proofs.Machine.EveryRun

/-!
# A machine on kinds

The operand stack by the kinds of its values, the topmost first. A `long` and a `double` are one
value of two words, and no instruction may take them apart. Calls and field accesses read their
operands off the descriptor. An instruction applies to a stack if the values on it are enough and of
the right kinds.

* `Descriptor.types?`: the kinds that a descriptor lists
* `Instr.access?`: the local slot that an instruction reads or writes
* `Instr.transfer?`: the kinds that an instruction takes, and those that it leaves
* `Instr.act`: the stack afterwards, `stackMachine`
-/

namespace ClassCompiler

/-! ## Descriptors -/

namespace Descriptor

def letter? : Char → Option Kind
  | 'I' | 'S' | 'B' | 'C' | 'Z' => some .int
  | 'J' => some .long
  | 'F' => some .float
  | 'D' => some .double
  | _ => none

/-- Where a reader is in a list of types. -/
inductive Place
  | start
  /-- Behind the bracket of an array. -/
  | element
  /-- In the name of a class. -/
  | name

/-- The kinds of the types up to a closing parenthesis or the end, and what stands behind them. -/
def types? : Place → List Char → Option (List Kind × List Char)
  | .start, [] => some ([], [])
  | .start, ')' :: rest => some ([], rest)
  | .start, '[' :: rest | .element, '[' :: rest => types? .element rest
  | .start, 'L' :: rest | .element, 'L' :: rest => types? .name rest
  | .start, c :: rest =>
    (letter? c).bind fun kind => (types? .start rest).map fun (kinds, rest) => (kind :: kinds, rest)
  | .element, c :: rest =>
    (letter? c).bind fun _ =>
      (types? .start rest).map fun (kinds, rest) => (.reference :: kinds, rest)
  | .name, ';' :: rest =>
    (types? .start rest).map fun (kinds, rest) => (.reference :: kinds, rest)
  | .name, _ :: rest => types? .name rest
  | .element, [] | .name, [] => none

/-- The kind of the only type in a descriptor. -/
def field? (text : String) : Option Kind :=
  match types? .start text.toList with
  | some ([kind], []) => kind
  | _ => none

/-- The kinds of the parameters and that of the result, if there is one. -/
def method? (text : String) : Option (List Kind × List Kind) :=
  match text.toList with
  | '(' :: rest =>
    match types? .start rest with
    | some (params, ['V']) => some (params, [])
    | some (params, result) =>
      match types? .start result with
      | some ([kind], []) => some (params, [kind])
      | _ => none
    | none => none
  | _ => none

end Descriptor

/-! ## Local slots -/

/-- What an instruction does with a local slot. -/
inductive AccessMode
  | load
  | store
  /-- Loads and stores at once. -/
  | step
  deriving DecidableEq

structure Access where
  mode : AccessMode
  kind : Kind
  slot : Nat
  deriving DecidableEq

/-- The accesses with the slot in the operation code. -/
def OpCode.shortAccess? : OpCode → Option Access
  | iload0 => some ⟨.load, .int, 0⟩
  | iload1 => some ⟨.load, .int, 1⟩
  | iload2 => some ⟨.load, .int, 2⟩
  | iload3 => some ⟨.load, .int, 3⟩
  | lload0 => some ⟨.load, .long, 0⟩
  | lload1 => some ⟨.load, .long, 1⟩
  | lload2 => some ⟨.load, .long, 2⟩
  | lload3 => some ⟨.load, .long, 3⟩
  | fload0 => some ⟨.load, .float, 0⟩
  | fload1 => some ⟨.load, .float, 1⟩
  | fload2 => some ⟨.load, .float, 2⟩
  | fload3 => some ⟨.load, .float, 3⟩
  | dload0 => some ⟨.load, .double, 0⟩
  | dload1 => some ⟨.load, .double, 1⟩
  | dload2 => some ⟨.load, .double, 2⟩
  | dload3 => some ⟨.load, .double, 3⟩
  | aload0 => some ⟨.load, .reference, 0⟩
  | aload1 => some ⟨.load, .reference, 1⟩
  | aload2 => some ⟨.load, .reference, 2⟩
  | aload3 => some ⟨.load, .reference, 3⟩
  | istore0 => some ⟨.store, .int, 0⟩
  | istore1 => some ⟨.store, .int, 1⟩
  | istore2 => some ⟨.store, .int, 2⟩
  | istore3 => some ⟨.store, .int, 3⟩
  | lstore0 => some ⟨.store, .long, 0⟩
  | lstore1 => some ⟨.store, .long, 1⟩
  | lstore2 => some ⟨.store, .long, 2⟩
  | lstore3 => some ⟨.store, .long, 3⟩
  | fstore0 => some ⟨.store, .float, 0⟩
  | fstore1 => some ⟨.store, .float, 1⟩
  | fstore2 => some ⟨.store, .float, 2⟩
  | fstore3 => some ⟨.store, .float, 3⟩
  | dstore0 => some ⟨.store, .double, 0⟩
  | dstore1 => some ⟨.store, .double, 1⟩
  | dstore2 => some ⟨.store, .double, 2⟩
  | dstore3 => some ⟨.store, .double, 3⟩
  | astore0 => some ⟨.store, .reference, 0⟩
  | astore1 => some ⟨.store, .reference, 1⟩
  | astore2 => some ⟨.store, .reference, 2⟩
  | astore3 => some ⟨.store, .reference, 3⟩
  | _ => none

/-- The accesses with the slot as an operand. -/
def OpCode.longAccess? (slot : Nat) : OpCode → Option Access
  | iload => some ⟨.load, .int, slot⟩
  | lload => some ⟨.load, .long, slot⟩
  | fload => some ⟨.load, .float, slot⟩
  | dload => some ⟨.load, .double, slot⟩
  | aload => some ⟨.load, .reference, slot⟩
  | istore => some ⟨.store, .int, slot⟩
  | lstore => some ⟨.store, .long, slot⟩
  | fstore => some ⟨.store, .float, slot⟩
  | dstore => some ⟨.store, .double, slot⟩
  | astore => some ⟨.store, .reference, slot⟩
  | _ => none

def Instr.access? : Instr → Option Access
  | noArg code => code.shortAccess?
  | oneArg code slot => code.longAccess? slot.toNat
  | iinc slot _ => some ⟨.step, .int, slot⟩
  | _ => none

/-! ## Operands -/

/-- The kinds that an instruction takes, the topmost first, and those that it leaves. -/
abbrev Transfer : Type := List Kind × List Kind

def Constant.kind : Constant → Kind
  | int _ => .int
  | long _ => .long
  | float _ => .float
  | double _ => .double
  | string _ => .reference

/-- Instructions without an operand beside the stack. -/
def OpCode.transfer? : OpCode → Option Transfer
  | nop | vreturn => some ([], [])
  | aconstNull => some ([], [.reference])
  | iconstM1 | iconst0 | iconst1 | iconst2 | iconst3 | iconst4 | iconst5 => some ([], [.int])
  | lconst0 | lconst1 => some ([], [.long])
  | fconst0 | fconst1 | fconst2 => some ([], [.float])
  | dconst0 | dconst1 => some ([], [.double])
  | iaload | baload | caload | saload => some ([.int, .reference], [.int])
  | laload => some ([.int, .reference], [.long])
  | faload => some ([.int, .reference], [.float])
  | daload => some ([.int, .reference], [.double])
  | aaload => some ([.int, .reference], [.reference])
  | iastore | bastore | castore | sastore => some ([.int, .int, .reference], [])
  | lastore => some ([.long, .int, .reference], [])
  | fastore => some ([.float, .int, .reference], [])
  | dastore => some ([.double, .int, .reference], [])
  | aastore => some ([.reference, .int, .reference], [])
  | iadd | isub | imul | idiv | irem | ishl | ishr | iushr | iand | ior | ixor =>
    some ([.int, .int], [.int])
  | ladd | lsub | lmul | ldiv | lrem | land | lor | lxor => some ([.long, .long], [.long])
  | lshl | lshr | lushr => some ([.int, .long], [.long])
  | fadd | fsub | fmul | fdiv | frem => some ([.float, .float], [.float])
  | dadd | dsub | dmul | ddiv | drem => some ([.double, .double], [.double])
  | ineg | i2b | i2c | i2s => some ([.int], [.int])
  | lneg => some ([.long], [.long])
  | fneg => some ([.float], [.float])
  | dneg => some ([.double], [.double])
  | i2l => some ([.int], [.long])
  | i2f => some ([.int], [.float])
  | i2d => some ([.int], [.double])
  | l2i => some ([.long], [.int])
  | l2f => some ([.long], [.float])
  | l2d => some ([.long], [.double])
  | f2i => some ([.float], [.int])
  | f2l => some ([.float], [.long])
  | f2d => some ([.float], [.double])
  | d2i => some ([.double], [.int])
  | d2l => some ([.double], [.long])
  | d2f => some ([.double], [.float])
  | lcmp => some ([.long, .long], [.int])
  | fcmpl | fcmpg => some ([.float, .float], [.int])
  | dcmpl | dcmpg => some ([.double, .double], [.int])
  | ireturn => some ([.int], [])
  | lreturn => some ([.long], [])
  | freturn => some ([.float], [])
  | dreturn => some ([.double], [])
  | areturn | athrow => some ([.reference], [])
  | arraylength => some ([.reference], [.int])
  | _ => none

/-- What a jump tests. -/
def OpCode.tested? : OpCode → Option (List Kind)
  | goto => some []
  | ifeq | ifne | iflt | ifge | ifgt | ifle => some [.int]
  | ifIcmpeq | ifIcmpne | ifIcmplt | ifIcmpge | ifIcmpgt | ifIcmple => some [.int, .int]
  | ifAcmpeq | ifAcmpne => some [.reference, .reference]
  | ifnull | ifnonnull => some [.reference]
  | _ => none

/-- Field accesses and calls; the receiver lies below the other operands. -/
def OpCode.memberTransfer? (descriptor : String) : OpCode → Option Transfer
  | getstatic => (Descriptor.field? descriptor).map fun kind => ([], [kind])
  | putstatic => (Descriptor.field? descriptor).map fun kind => ([kind], [])
  | getfield => (Descriptor.field? descriptor).map fun kind => ([.reference], [kind])
  | putfield => (Descriptor.field? descriptor).map fun kind => ([kind, .reference], [])
  | invokestatic =>
    (Descriptor.method? descriptor).map fun (params, result) => (params.reverse, result)
  | invokevirtual | invokespecial | invokeinterface =>
    (Descriptor.method? descriptor).map fun (params, result) =>
      (params.reverse ++ [.reference], result)
  | _ => none

def Access.transfer (access : Access) : Transfer :=
  match access.mode with
  | .load => ([], [access.kind])
  | .store => ([access.kind], [])
  | .step => ([], [])

namespace Instr

def transfer? (i : Instr) : Option Transfer :=
  match i.access? with
  | some access => access.transfer
  | none =>
    match i with
    | noArg code => code.transfer?
    | oneArg .bipush _ | oneArg .sipush _ => some ([], [.int])
    | ldc constant => some ([], [constant.kind])
    | branch code _ => code.tested?.map fun kinds => (kinds, [])
    | member code _ _ descriptor => code.memberTransfer? descriptor
    | reference .newObject _ => some ([], [.reference])
    | reference .anewarray _ => some ([.int], [.reference])
    | reference .checkcast _ => some ([.reference], [.reference])
    | reference .instanceof _ => some ([.reference], [.int])
    | label _ => some ([], [])
    | _ => none

end Instr

/-! ## Copies -/

/-- Divides a stack behind a number of words. No value is taken apart. -/
def split? : Nat → List Kind → Option (List Kind × List Kind)
  | 0, stack => some ([], stack)
  | _ + 1, [] => none
  | words + 1, kind :: stack =>
    if kind.words ≤ words + 1 then
      (split? (words + 1 - kind.words) stack).map fun (top, rest) => (kind :: top, rest)
    else none

/-- Copies the topmost words below the words that follow them. -/
def copy? (words below : Nat) (stack : List Kind) : Option (List Kind) :=
  (split? words stack).bind fun (top, rest) =>
    (split? below rest).map fun (under, rest) => top ++ under ++ top ++ rest

/-- The instructions that handle words, whatever the values are. -/
def OpCode.onWords? : OpCode → Option (List Kind → Option (List Kind))
  | pop => some fun stack => (split? 1 stack).map (·.2)
  | pop2 => some fun stack => (split? 2 stack).map (·.2)
  | dup => some (copy? 1 0)
  | dupX1 => some (copy? 1 1)
  | dupX2 => some (copy? 1 2)
  | dup2 => some (copy? 2 0)
  | dup2X1 => some (copy? 2 1)
  | dup2X2 => some (copy? 2 2)
  | swap => some fun stack => (split? 1 stack).bind fun (top, rest) =>
      (split? 1 rest).map fun (under, rest) => under ++ top ++ rest
  | _ => none

/-! ## The machine -/

def Transfer.apply? (transfer : Transfer) (stack : List Kind) : Option (List Kind) :=
  (stack.dropPrefix? transfer.1).map fun rest => transfer.2 ++ rest

def Instr.onWords? : Instr → Option (List Kind → Option (List Kind))
  | noArg code => code.onWords?
  | _ => none

/-- The stack after an instruction that applies to it. -/
def Instr.act (i : Instr) (stack : List Kind) : Option (List Kind) :=
  match i.onWords? with
  | some change => change stack
  | none => i.transfer?.bind fun transfer => transfer.apply? stack

/-- The machine that knows the kinds of values only. -/
def stackMachine : Machine (List Kind) := Machine.ofData Instr.act

end ClassCompiler
