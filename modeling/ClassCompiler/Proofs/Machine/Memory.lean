import ClassCompiler.Code.Expr
import ClassCompiler.Proofs.Machine.Values

/-!
# A machine on stored values

The instructions that places and concatenations are made of, with what they read and write: locals,
static fields, fields of objects, elements of arrays, and strings. A location is read or written as a
whole, and no two locations overlap.

A string builder is known only to the code that has made it, so it stands on the stack with its text.
Arithmetic, the string forms of values, and all instructions that are not listed are left to the outside.

* `Location`, `Store`
* `Outside`: what the machine does not know
* `Outside.exec`, `storeMachine`
-/

namespace ClassCompiler

/-! ## Stored values -/

structure FieldKey where
  owner : String
  name : String
  descriptor : String
  deriving DecidableEq, Inhabited

inductive Location
  | slot (index : Nat)
  | static (field : FieldKey)
  | member (address : Nat) (field : FieldKey)
  | element (address : Nat) (position : Int32)
  deriving DecidableEq, Inhabited

/-- What a running method sees beside its stack. -/
structure Store where
  /-- No object, no array and no position of an array that does not exist has a value. -/
  cells : Location → Option Value
  lengths : Nat → Option Int32
  /-- The text of the string at an address. -/
  texts : Nat → String
  /-- The address of the next string. -/
  free : Nat

namespace Store

def read (store : Store) (location : Location) : Option Value := store.cells location

def write (store : Store) (location : Location) (v : Value) : Store :=
  { store with cells := fun other => if other = location then some v else store.cells other }

/-- A new string. -/
def alloc (store : Store) (text : String) : Store :=
  { store with
    texts := fun address => if address = store.free then text else store.texts address
    free := store.free + 1 }

/-- The text of a reference to a string. -/
def text (store : Store) : Option Nat → String
  | some address => store.texts address
  | none => "null"

end Store

/-! ## The machine -/

inductive Item
  | value (v : Value)
  | builder (text : String)
  deriving DecidableEq, Inhabited

/-- The data of a running method. The topmost item comes first. -/
structure Thread where
  stack : List Item
  store : Store

/-- The descriptor of the `append` for a type. -/
def ExprCode.appendDescriptor (ty : Ty) : String :=
  "(" ++ appendParam ty ++ ")Ljava/lang/StringBuilder;"

/-- What the machine does not know: the addresses of string constants, the operators, what a builder
appends for a value that is no string, and the effects of the other instructions. -/
structure Outside where
  constant : String → Nat
  unary : OpCode → Value → Option Value
  binary : OpCode → Value → Value → Option Value
  form : String → Value → Store → Option (String × Store)
  other : Instr → Thread → Option (Effect Thread)

/-- The constant that an instruction pushes. -/
def Instr.constant? (address : String → Nat) : Instr → Option Value
  | noArg code => code.pushed?
  | oneArg .bipush v | oneArg .sipush v => some (.int (.ofInt v))
  | ldc (.int v) => some (.int v)
  | ldc (.long v) => some (.long v)
  | ldc (.float v) => some (.float v)
  | ldc (.double v) => some (.double v)
  | ldc (.string v) => some (.reference (some (address v)))
  | _ => none

/-- Loads of elements of any kind. -/
def OpCode.isElementLoad : OpCode → Bool
  | iaload | laload | faload | daload | aaload | baload | caload | saload => true
  | _ => false

/-- The element of an array at an index. -/
def Store.loadElement? (store : Store) : List Item → Option (List Item × Store)
  | .value (.int position) :: .value (.reference (some address)) :: stack =>
    (store.read (.element address position)).map fun v => (.value v :: stack, store)
  | _ => none

namespace Outside

variable (outside : Outside)

/-- What `append` adds for a value, by its descriptor. -/
def formOf (descriptor : String) (v : Value) (store : Store) : Option (String × Store) :=
  if descriptor = ExprCode.appendDescriptor .string then
    match v with
    | .reference address => some (store.text address, store)
    | _ => none
  else outside.form descriptor v store

/-- A call of a builder: one with a value is `append`; the others are the constructor, which drops
the copy it is given, and `toString`. -/
def onBuilder? (name descriptor : String) : List Item → Store → Option (List Item × Store)
  | .value v :: .builder text :: stack, store =>
    (outside.formOf descriptor v store).map fun (part, after) =>
      (.builder (text ++ part) :: stack, after)
  | .builder text :: stack, store =>
    if name = "<init>" then some (stack, store)
    else some (.value (.reference (some store.free)) :: stack, store.alloc text)
  | _, _ => none

/-- An access to a field, or a call. -/
def member? (code : OpCode) (field : FieldKey) (stack : List Item) (store : Store) :
    Option (List Item × Store) :=
  match code, stack with
  | .getstatic, stack => (store.read (.static field)).map fun v => (.value v :: stack, store)
  | .putstatic, .value v :: stack =>
    (store.read (.static field)).map fun _ => (stack, store.write (.static field) v)
  | .getfield, .value (.reference (some address)) :: stack =>
    (store.read (.member address field)).map fun v => (.value v :: stack, store)
  | .putfield, .value v :: .value (.reference (some address)) :: stack =>
    (store.read (.member address field)).map fun _ => (stack, store.write (.member address field) v)
  | _, stack =>
    if field.owner = ExprCode.builderName then
      outside.onBuilder? field.name field.descriptor stack store
    else none

/-- An operator with one operand or two. -/
def compute? (code : OpCode) (stack : List Item) : Option (List Item) :=
  match code.transfer?, stack with
  | some ([_], _), .value v :: stack => (outside.unary code v).map fun v => .value v :: stack
  | some ([_, _], _), .value w :: .value v :: stack =>
    (outside.binary code v w).map fun v => .value v :: stack
  | _, _ => none

/-- An operation without an operand beside the stack; the copies are those of one word. -/
def operate? (code : OpCode) (stack : List Item) (store : Store) : Option (List Item × Store) :=
  match code, stack with
  | .dup, x :: stack => some (x :: x :: stack, store)
  | .dupX1, x :: y :: stack => some (x :: y :: x :: stack, store)
  | .dupX2, x :: y :: z :: stack => some (x :: y :: z :: x :: stack, store)
  | .arraylength, .value (.reference (some address)) :: stack =>
    (store.lengths address).map fun length => (.value (.int length) :: stack, store)
  | .aastore, .value v :: .value (.int position) :: .value (.reference (some address)) :: stack =>
    (store.read (.element address position)).map fun _ =>
      (stack, store.write (.element address position) v)
  | code, stack =>
    if code.isElementLoad then store.loadElement? stack
    else (outside.compute? code stack).map fun stack => (stack, store)

/-- What an instruction of places and concatenations does. -/
def act? (i : Instr) (stack : List Item) (store : Store) : Option (List Item × Store) :=
  match i.access?, stack with
  | some ⟨.load, _, slot⟩, stack =>
    (store.read (.slot slot)).map fun v => (.value v :: stack, store)
  | some ⟨.store, _, slot⟩, .value v :: stack => some (stack, store.write (.slot slot) v)
  | some ⟨.step, _, slot⟩, stack =>
    match i, store.read (.slot slot) with
    | .iinc _ delta, some (.int v) => some (stack, store.write (.slot slot) (.int (v + .ofInt delta)))
    | _, _ => none
  | some _, _ => none
  | none, stack =>
    match i.constant? outside.constant, i with
    | some v, _ => some (.value v :: stack, store)
    | none, .noArg code => outside.operate? code stack store
    | none, .member code owner name descriptor =>
      outside.member? code ⟨owner, name, descriptor⟩ stack store
    | none, .reference .newObject type =>
      if type = ExprCode.builderName then some (.builder "" :: stack, store) else none
    | none, .label _ => some (stack, store)
    | none, _ => none

/-- What an instruction does. Where it is not one of places and concatenations, or the stack does not
suit it, that is left to the outside. -/
def exec (i : Instr) (thread : Thread) : Option (Effect Thread) :=
  match outside.act? i thread.stack thread.store with
  | some (stack, store) => some (.next ⟨stack, store⟩)
  | none => outside.other i thread

end Outside

/-- The machine that stores values. -/
def storeMachine (outside : Outside) : Machine Thread := fun i thread effect =>
  outside.exec i thread = some effect

/-! ## Straight code -/

/-- What instructions of places and concatenations do, one after the other. -/
def Outside.actAll? (outside : Outside) :
    List Instr → List Item → Store → Option (List Item × Store)
  | [], stack, store => some (stack, store)
  | i :: rest, stack, store =>
    (outside.act? i stack store).bind fun (stack, store) => outside.actAll? rest stack store

theorem Outside.runs_actAll {outside : Outside} (code : List Instr) {rest : List Instr}
    {stack last : List Item} {store after : Store}
    (h : outside.actAll? rest stack store = some (last, after)) :
    (storeMachine outside).Runs code rest.length (.running rest ⟨stack, store⟩)
      (.running [] ⟨last, after⟩) := by
  induction rest generalizing stack store with
  | nil =>
    cases h
    exact .refl _
  | cons i rest ih =>
    obtain ⟨⟨stack', store'⟩, hact, hrest⟩ := Option.bind_eq_some_iff.mp h
    have heffect : storeMachine outside i ⟨stack, store⟩ (.next ⟨stack', store'⟩) := by
      show outside.exec i ⟨stack, store⟩ = _
      unfold Outside.exec
      rw [hact]
    exact .step (.instr heffect) (ih hrest)

end ClassCompiler
