import ClassCompiler.Proofs.Machine.Memory
import ClassCompiler.Proofs.Ty
import Mathlib.Algebra.GroupWithZero.Nat

/-!
# A machine that computes and stores

Values of one word and of two: the copies that an instruction makes of the topmost words, arithmetic
on two's complement words, and the locations that values are read from and written to. An
instruction that meets a zero divisor, or a location that is not there, leaves the method by an
exception.

Floating-point numbers, the check of what is stored in an array of references, and all instructions
that are not listed are left to a host; so is what an instruction does with values of other kinds
than its own. All writes are remembered.

* `Ty.holds`: the values of a type
* `Host`, `Memory`
* `Host.exec`, `numberMachine`
-/

namespace ClassCompiler

/-! ## Values of a type -/

/-- The values of a primitive type; the small ones are numbers of the kind `int` in a range. -/
def Prim.holds : Prim → Value → Bool
  | int, .int _ => true
  | boolean, .int v => 0 ≤ v.toInt ∧ v.toInt ≤ 1
  | byte, .int v => -128 ≤ v.toInt ∧ v.toInt ≤ 127
  | short, .int v => -32768 ≤ v.toInt ∧ v.toInt ≤ 32767
  | char, .int v => 0 ≤ v.toInt ∧ v.toInt ≤ 65535
  | long, .long _ => true
  | float, .float _ => true
  | double, .double _ => true
  | _, _ => false

/-- The values of a primitive type, or the references. -/
def Prim.holds? : Option Prim → Value → Bool
  | some p, v => p.holds v
  | none, v => v.kind == .reference

def Ty.holds (ty : Ty) (v : Value) : Bool := Prim.holds? ty.prim? v

theorem Prim.kind_of_holds {p : Prim} {v : Value} (h : p.holds v = true) : v.kind = p.kind := by
  cases p <;> cases v <;> first | rfl | simp [Prim.holds] at h

@[simp] theorem Ty.holds_prim (p : Prim) (v : Value) : (Ty.prim p).holds v = p.holds v := by
  unfold holds
  rw [Ty.prim?_prim]
  rfl

theorem Ty.kind_of_holds {ty : Ty} {v : Value} (h : ty.holds v = true) : v.kind = ty.kind := by
  cases hp : ty.prim? with
  | none =>
    simp only [holds, kind, hp, Prim.holds?, beq_iff_eq] at h ⊢
    exact h
  | some p =>
    obtain rfl := Ty.prim?_eq_some_iff.mp hp
    rw [holds_prim] at h
    rw [kind_prim, Prim.kind_of_holds h]

/-! ## Copies -/

namespace Value

/-- The topmost values, of so many words in all, and the values below. -/
def split? : Nat → List Value → Option (List Value × List Value)
  | 0, stack => some ([], stack)
  | _ + 1, [] => none
  | words + 1, v :: stack =>
    if v.kind.words ≤ words + 1 then
      (split? (words + 1 - v.kind.words) stack).map fun (top, rest) => (v :: top, rest)
    else none

/-- A copy of the topmost words below some more words. -/
def copy? (top below : Nat) (stack : List Value) : Option (List Value) :=
  (split? top stack).bind fun (copied, rest) =>
    (split? below rest).map fun (passed, rest) => copied ++ passed ++ copied ++ rest

/-- The words of some values. -/
def words (values : List Value) : Nat := (values.map fun v => v.kind.words).sum

theorem split?_append {n : Nat} {top : List Value} (h : words top = n) (rest : List Value) :
    split? n (top ++ rest) = some (top, rest) := by
  induction top generalizing n with
  | nil =>
    have hzero : n = 0 := by simpa [words] using h.symm
    subst hzero
    simp [split?]
  | cons v top ih =>
    have hpos : 0 < v.kind.words := by cases v <;> exact Nat.succ_pos _
    have hsum : words (v :: top) = v.kind.words + words top := by simp [words]
    obtain ⟨m, rfl⟩ : ∃ m, n = m + 1 := ⟨n - 1, by omega⟩
    have hle : v.kind.words ≤ m + 1 := by omega
    have hrest : words top = m + 1 - v.kind.words := by omega
    simp only [List.cons_append, split?, if_pos hle, ih hrest, Option.map_some]

theorem copy?_append (top below rest : List Value) :
    copy? (words top) (words below) (top ++ (below ++ rest))
      = some (top ++ (below ++ (top ++ rest))) := by
  simp only [copy?, split?_append rfl, Option.bind_some, Option.map_some, List.append_assoc]

end Value

/-- The words that an operation copies, and the words that the copy goes below. -/
def OpCode.copies? : OpCode → Option (Nat × Nat)
  | dup => some (1, 0)
  | dupX1 => some (1, 1)
  | dupX2 => some (1, 2)
  | dup2 => some (2, 0)
  | dup2X1 => some (2, 1)
  | dup2X2 => some (2, 2)
  | _ => none

/-- The type of the elements that an array of a type is accessed by; arrays of truth values are
arrays of bytes. -/
def Ty.cell? (ty : Ty) : Option Prim :=
  match ty.prim? with
  | some .boolean => some .byte
  | some .void | none => none
  | some p => some p

theorem Ty.holds_cell {ty : Ty} {v : Value} (h : ty.holds v = true) :
    Prim.holds? ty.cell? v = true := by
  unfold holds at h
  unfold cell?
  cases hp : ty.prim? with
  | none =>
    rw [hp] at h
    exact h
  | some p =>
    rw [hp] at h
    cases p with
    | boolean =>
      cases v with
      | int v =>
        have hrange : 0 ≤ v.toInt ∧ v.toInt ≤ 1 := of_decide_eq_true h
        exact decide_eq_true (by omega)
      | _ => cases h
    | void => cases v <;> cases h
    | _ => exact h

/-! ## Arithmetic -/

/-- A binary operation on words of a number of bits. There is no quotient by zero, and a shift goes
by the distance modulo the number of bits. -/
def BinaryOp.onBits? {n : Nat} (op : BinaryOp) (x y : BitVec n) : Option (BitVec n) :=
  match op with
  | add => some (x + y)
  | sub => some (x - y)
  | mul => some (x * y)
  | div => if y = 0 then none else some (x.sdiv y)
  | rem => if y = 0 then none else some (x.srem y)
  | bitAnd => some (x &&& y)
  | bitOr => some (x ||| y)
  | bitXor => some (x ^^^ y)
  | shl => some (x <<< (y.toNat % n))
  | shr => some (x.sshiftRight (y.toNat % n))
  | ushr => some (x >>> (y.toNat % n))

namespace OpCode

/-- The operation of an arithmetic instruction, and the kind of its first operand. -/
def arithmetic? : OpCode → Option (BinaryOp × Kind)
  | iadd => some (.add, .int)
  | isub => some (.sub, .int)
  | imul => some (.mul, .int)
  | idiv => some (.div, .int)
  | irem => some (.rem, .int)
  | iand => some (.bitAnd, .int)
  | ior => some (.bitOr, .int)
  | ixor => some (.bitXor, .int)
  | ishl => some (.shl, .int)
  | ishr => some (.shr, .int)
  | iushr => some (.ushr, .int)
  | ladd => some (.add, .long)
  | lsub => some (.sub, .long)
  | lmul => some (.mul, .long)
  | ldiv => some (.div, .long)
  | lrem => some (.rem, .long)
  | land => some (.bitAnd, .long)
  | lor => some (.bitOr, .long)
  | lxor => some (.bitXor, .long)
  | lshl => some (.shl, .long)
  | lshr => some (.shr, .long)
  | lushr => some (.ushr, .long)
  | fadd => some (.add, .float)
  | fsub => some (.sub, .float)
  | fmul => some (.mul, .float)
  | fdiv => some (.div, .float)
  | frem => some (.rem, .float)
  | dadd => some (.add, .double)
  | dsub => some (.sub, .double)
  | dmul => some (.mul, .double)
  | ddiv => some (.div, .double)
  | drem => some (.rem, .double)
  | _ => none

/-- The conversions between the integral types. -/
def resize? : OpCode → Value → Option Value
  | i2l, .int v => some (.long v.toInt64)
  | l2i, .long v => some (.int v.toInt32)
  | i2b, .int v => some (.int v.toInt8.toInt32)
  | i2s, .int v => some (.int v.toInt16.toInt32)
  | i2c, .int v => some (.int (.ofInt (v.toInt % 65536)))
  | _, _ => none

/-- The conversions from and to floating-point types: the kind of the operand, and the type of the
result. -/
def floating? : OpCode → Option (Kind × Prim)
  | i2f => some (.int, .float)
  | i2d => some (.int, .double)
  | l2f => some (.long, .float)
  | l2d => some (.long, .double)
  | f2i => some (.float, .int)
  | f2l => some (.float, .long)
  | f2d => some (.float, .double)
  | d2i => some (.double, .int)
  | d2l => some (.double, .long)
  | d2f => some (.double, .float)
  | _ => none

/-- The type of the elements that an operation loads, `byte` for `boolean` too; none for
references. -/
def loaded? : OpCode → Option (Option Prim)
  | iaload => some (some .int)
  | laload => some (some .long)
  | faload => some (some .float)
  | daload => some (some .double)
  | baload => some (some .byte)
  | caload => some (some .char)
  | saload => some (some .short)
  | aaload => some none
  | _ => none

/-- The type of the elements that an operation stores. -/
def stored? : OpCode → Option (Option Prim)
  | iastore => some (some .int)
  | lastore => some (some .long)
  | fastore => some (some .float)
  | dastore => some (some .double)
  | bastore => some (some .byte)
  | castore => some (some .char)
  | sastore => some (some .short)
  | aastore => some none
  | _ => none

end OpCode

/-! ## States -/

/-- Why an instruction leaves the method by an exception. -/
inductive Fault
  /-- A quotient by zero. -/
  | division
  /-- No object, no position of an array, or a position that does not take the value. -/
  | access
  /-- An exception of the host. -/
  | outside
  deriving DecidableEq

/-- A store with the writes that have led to it, latest first. -/
structure Memory where
  store : Store
  written : List (Location × Value)

namespace Memory

def read (memory : Memory) (location : Location) : Option Value := memory.store.read location

def write (memory : Memory) (location : Location) (v : Value) : Memory where
  store := memory.store.write location v
  written := (location, v) :: memory.written

@[simp] theorem read_write_self (memory : Memory) (location : Location) (v : Value) :
    (memory.write location v).read location = some v := if_pos rfl

/-- A write leaves every other location alone. -/
theorem read_write_of_ne (memory : Memory) {location other : Location} (h : other ≠ location)
    (v : Value) : (memory.write location v).read other = memory.read other := if_neg h

end Memory

/-- The data of a running method, the topmost value first, and of one that an exception has left. -/
structure Process where
  stack : List Value
  memory : Memory
  fault : Option Fault := none

/-- What the machine does not know. -/
structure Host where
  /-- The addresses of string constants. -/
  address : String → Nat
  float : BinaryOp → Number.Binary32 → Number.Binary32 → Number.Binary32
  double : BinaryOp → Number.Binary64 → Number.Binary64 → Number.Binary64
  negateFloat : Number.Binary32 → Number.Binary32
  negateDouble : Number.Binary64 → Number.Binary64
  /-- A number as a floating-point number, or the other way round. -/
  convert : Prim → Value → Value
  convert_kind : ∀ p v, (convert p v).kind = p.kind
  /-- Does the array take the reference? -/
  accepts : Store → Nat → Value → Bool
  other : Instr → Process → Option (Effect Process)

/-- The machine with no answers of its own. -/
def Host.zeros : Host where
  address _ := 0
  float _ v _ := v
  double _ v _ := v
  negateFloat v := v
  negateDouble v := v
  convert p _ := p.kind.zero
  convert_kind p _ := p.kind.kind_zero
  accepts _ _ _ := true
  other _ _ := none

namespace Host

variable (host : Host)

/-! ## Operations -/

def constant : Constant → Value
  | .int v => .int v
  | .long v => .long v
  | .float v => .float v
  | .double v => .double v
  | .string v => .reference (some (host.address v))

/-- The constant that an instruction pushes. Short operands are extended by their sign. -/
def constant? : Instr → Option Value
  | .noArg code => code.pushed?
  | .oneArg .bipush v => some (.int (Int8.ofInt v).toInt32)
  | .oneArg .sipush v => some (.int (Int16.ofInt v).toInt32)
  | .ldc constant => some (host.constant constant)
  | _ => none

theorem constant?_pushInt (v : Int32) : host.constant? (.pushInt v) = some (.int v) := by
  have hv : ∀ k, v.toInt = k → v = Int32.ofInt k := fun k h => h ▸ (Int32.ofInt_toInt v).symm
  have hbyte : -128 ≤ v.toInt ∧ v.toInt ≤ 127 → (Int8.ofInt v.toInt).toInt32 = v := by
    intro h
    apply Int32.toInt_inj.mp
    rw [Int8.toInt_toInt32]
    exact Int8.toInt_ofInt_of_le h.1 (by omega)
  have hshort : -32768 ≤ v.toInt ∧ v.toInt ≤ 32767 → (Int16.ofInt v.toInt).toInt32 = v := by
    intro h
    apply Int32.toInt_inj.mp
    rw [Int16.toInt_toInt32]
    exact Int16.toInt_ofInt_of_le h.1 (by omega)
  unfold Instr.pushInt
  dsimp only
  repeat' split
  all_goals first
    | rfl
    | next h => exact hv _ h ▸ rfl
    | next h => exact congrArg (fun v => some (Value.int v)) (hbyte h)
    | next h => exact congrArg (fun v => some (Value.int v)) (hshort h)

theorem constant?_pushLong (v : Int64) : host.constant? (.pushLong v) = some (.long v) := by
  unfold Instr.pushLong
  repeat' split
  all_goals first
    | rfl
    | next h => exact h ▸ rfl

def negate? : OpCode → Value → Option Value
  | .ineg, .int v => some (.int (-v))
  | .lneg, .long v => some (.long (-v))
  | .fneg, .float v => some (.float (host.negateFloat v))
  | .dneg, .double v => some (.double (host.negateDouble v))
  | _, _ => none

def unary? (code : OpCode) (v : Value) : Option Value :=
  host.negate? code v <|> code.resize? v <|> code.floating?.bind fun (kind, p) =>
    if v.kind = kind then some (host.convert p v) else none

/-- The value of a binary operation on operands of its kinds; no value where it divides by zero. -/
def binary? (code : OpCode) (v w : Value) : Option (Option Value) :=
  match code.arithmetic?, v, w with
  | some (op, .int), .int x, .int y =>
    some ((op.onBits? x.toBitVec y.toBitVec).map fun bits => .int (.ofBitVec bits))
  | some (op, .long), .long x, .long y =>
    if op.isShift then none
    else some ((op.onBits? x.toBitVec y.toBitVec).map fun bits => .long (.ofBitVec bits))
  | some (op, .long), .long x, .int y =>
    if op.isShift then
      some ((op.onBits? x.toBitVec (y.toBitVec.setWidth 64)).map fun bits => .long (.ofBitVec bits))
    else none
  | some (op, .float), .float x, .float y => some (some (.float (host.float op x y)))
  | some (op, .double), .double x, .double y => some (some (.double (host.double op x y)))
  | _, _, _ => none

/-! ## Instructions -/

/-- A stack and a memory, or an exception. -/
abbrev Outcome : Type := Except Fault (List Value × Memory)

def compute? (code : OpCode) (stack : List Value) (memory : Memory) : Option Outcome :=
  if code.arithmetic?.isSome then
    match stack with
    | w :: v :: rest => (host.binary? code v w).map fun
      | some u => .ok (u :: rest, memory)
      | none => .error .division
    | _ => none
  else
    match stack with
    | v :: rest => (host.unary? code v).map fun u => .ok (u :: rest, memory)
    | [] => none

/-- Does the location take the value? A local does always, and all others if they are there. -/
def takes (memory : Memory) (location : Location) (v : Value) : Bool :=
  match location with
  | .slot _ => true
  | .static _ | .member .. => (memory.read location).isSome
  | .element address _ => (memory.read location).isSome
    && (v.kind != .reference || host.accepts memory.store address v)

/-- A read of a field or of an element. The kind of the value is that of the instruction. -/
def fetch? (location : Option Location) (suits : Value → Bool) (stack : List Value)
    (memory : Memory) : Option Outcome :=
  match location.bind memory.read with
  | some v => if suits v then some (.ok (v :: stack, memory)) else none
  | none => some (.error .access)

section

variable {location : Option Location} {suits : Value → Bool} {memory : Memory} {v : Value}

theorem fetch?_some (hread : location.bind memory.read = some v) (hsuits : suits v = true)
    (stack : List Value) :
    fetch? location suits stack memory = some (.ok (v :: stack, memory)) := by
  simp only [fetch?, hread, hsuits, if_true]

theorem fetch?_none (hread : location.bind memory.read = none) (stack : List Value) :
    fetch? location suits stack memory = some (.error .access) := by
  simp only [fetch?, hread]

end

/-- A write to a field or to an element. -/
def put (location : Option Location) (v : Value) (stack : List Value) (memory : Memory) : Outcome :=
  match location with
  | some location =>
    if host.takes memory location v then .ok (stack, memory.write location v) else .error .access
  | none => .error .access

/-- A write takes no notice of the rest of the stack. -/
theorem put_cases (location : Option Location) (v : Value) (memory : Memory) :
    (∃ after, ∀ stack, host.put location v stack memory = .ok (stack, after))
      ∨ ∀ stack, host.put location v stack memory = .error .access := by
  cases location with
  | none => exact .inr fun _ => rfl
  | some location =>
    by_cases h : host.takes memory location v = true
    · exact .inl ⟨_, fun stack => if_pos h⟩
    · exact .inr fun stack => if_neg h

/-- An access to a field. -/
def member? (code : OpCode) (field : FieldKey) (stack : List Value) (memory : Memory) :
    Option Outcome :=
  match code, stack with
  | .getstatic, stack => fetch? (some (.static field)) (fun _ => true) stack memory
  | .putstatic, v :: stack => some (host.put (some (.static field)) v stack memory)
  | .getfield, .reference object :: stack =>
    fetch? (object.map (.member · field)) (fun _ => true) stack memory
  | .putfield, v :: .reference object :: stack =>
    some (host.put (object.map (.member · field)) v stack memory)
  | _, _ => none

/-- An operation without an operand beside the stack. -/
def operate? (code : OpCode) (stack : List Value) (memory : Memory) : Option Outcome :=
  match code.copies?, code.loaded?, code.stored?, stack with
  | some (top, below), _, _, stack =>
    (Value.copy? top below stack).map fun stack => .ok (stack, memory)
  | none, some element, _, .int position :: .reference array :: stack =>
    fetch? (array.map (.element · position)) (Prim.holds? element) stack memory
  | none, none, some element, v :: .int position :: .reference array :: stack =>
    if Prim.holds? element v then some (host.put (array.map (.element · position)) v stack memory)
    else none
  | none, none, none, stack => host.compute? code stack memory
  | _, _, _, _ => none

/-- What an instruction does. -/
def act? (i : Instr) (stack : List Value) (memory : Memory) : Option Outcome :=
  match i.access?, stack with
  | some ⟨.load, kind, slot⟩, stack =>
    match memory.read (.slot slot) with
    | some v => if v.kind = kind then some (.ok (v :: stack, memory)) else none
    | none => none
  | some ⟨.store, kind, slot⟩, v :: stack =>
    if v.kind = kind then some (.ok (stack, memory.write (.slot slot) v)) else none
  | some ⟨.step, _, slot⟩, stack =>
    match i, memory.read (.slot slot) with
    | .iinc _ delta, some (.int v) =>
      some (.ok (stack, memory.write (.slot slot) (.int (v + .ofInt delta))))
    | _, _ => none
  | some _, _ => none
  | none, stack =>
    match host.constant? i, i with
    | some v, _ => some (.ok (v :: stack, memory))
    | none, .noArg code => host.operate? code stack memory
    | none, .member code owner name descriptor =>
      host.member? code ⟨owner, name, descriptor⟩ stack memory
    | none, .label _ => some (.ok (stack, memory))
    | none, _ => none

/-- An exception leaves the stack and the memory as the instruction has found them. -/
def exec (i : Instr) (process : Process) : Option (Effect Process) :=
  match host.act? i process.stack process.memory with
  | some (.ok (stack, memory)) => some (.next ⟨stack, memory, none⟩)
  | some (.error fault) => some (.leave ⟨process.stack, process.memory, some fault⟩)
  | none => host.other i process

end Host

/-- The machine that computes and stores. -/
def numberMachine (host : Host) : Machine Process := fun i process effect =>
  host.exec i process = some effect

end ClassCompiler
