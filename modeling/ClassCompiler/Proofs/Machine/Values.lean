import ClassCompiler.Proofs.Machine.OneRun
import ClassCompiler.Proofs.Machine.Stack
import Mathlib.Algebra.Group.Int.Defs

/-!
# A machine on values

The instructions that conditions, calls and jumps are made of, with what they compute. Calls go to the
outside: what they answer is given by a world, and depends on all calls so far, so a program meets every
sequence of answers in some world. Numbers are compared as their types do it, `NaN` included; how one
type is widened to another is left to the world, too.

* `Value`, `FloatValue.compare?`
* `World`: the answers of calls; `World.zeros`
* `Instr.exec`, `valueMachine`: a run is determined by the world
* `calls_grow`: no call is taken back
-/

namespace ClassCompiler

/-! ## Values -/

/-- A value on the stack. Truth values are the numbers zero and one. -/
inductive Value
  | int (value : Int32)
  | long (value : Int64)
  | float (value : Number.Binary32)
  | double (value : Number.Binary64)
  /-- An object by its address, or `null`. -/
  | reference (address : Option Nat)
  deriving DecidableEq, Inhabited

namespace Value

def kind : Value → Kind
  | int _ => .int
  | long _ => .long
  | float _ => .float
  | double _ => .double
  | reference _ => .reference

def bool (value : Bool) : Value := int (if value then 1 else 0)

/-- A value of the kind of a type; a truth value if the type is `boolean`. -/
structure Fits (ty : Ty) (v : Value) : Prop where
  kind : v.kind = ty.kind
  truth : ty = .boolean → ∃ b, v = bool b

end Value

/-! ## Order of numbers -/

namespace Number.FloatValue

/-- A mantissa with its sign. -/
def signed (negative : Bool) (mantissa : Nat) : Int := if negative then -mantissa else mantissa

/-- The order of two floating-point values. Only `NaN` has none, and the zeros are equal. -/
def compare? : FloatValue → FloatValue → Option Ordering
  | nan, _ | _, nan => none
  | infinite s, infinite t => some (compare (signed s 1) (signed t 1))
  | infinite s, finite .. => some (compare (signed s 1) 0)
  | finite .., infinite t => some (compare 0 (signed t 1))
  | finite s m e _, finite t n f _ =>
    let low := min e f
    some (compare (signed s m * 2 ^ (e - low).toNat) (signed t n * 2 ^ (f - low).toNat))

end Number.FloatValue

/-- The order of two numbers of one kind, if they have one. -/
def Value.compare? : Value → Value → Option Ordering
  | int v, int w => some (compare v.toInt w.toInt)
  | long v, long w => some (compare v.toInt w.toInt)
  | float v, float w => v.value.compare? w.value
  | double v, double w => v.value.compare? w.value
  | _, _ => none

/-! ## Calls -/

/-- A call of a static method, with its arguments from first to last. -/
structure Call where
  owner : String
  name : String
  descriptor : String
  args : List Value
  deriving DecidableEq, Inhabited

/-- The descriptor is that of a method with a truth value. -/
def Descriptor.isPredicate (descriptor : String) : Prop := ∃ params, descriptor = params ++ ")Z"

/-- What a program cannot know: the answers of calls after the calls before them, latest first, the
addresses of string constants, and the widening of numbers. -/
structure World where
  answer : List Call → Call → Value
  text : String → Nat
  widen : Kind → Kind → Value → Value
  answer_kind : ∀ calls call params kind,
    Descriptor.method? call.descriptor = some (params, [kind]) → (answer calls call).kind = kind
  answer_truth : ∀ calls call params, Descriptor.method? call.descriptor = some (params, [.int]) →
    Descriptor.isPredicate call.descriptor → ∃ b, answer calls call = .bool b
  widen_kind : ∀ source target v, (widen source target v).kind = target

def Kind.zero : Kind → Value
  | int => .int 0
  | long => .long 0
  | float => .float .zero
  | double => .double .zero
  | reference => .reference none

theorem Kind.kind_zero (kind : Kind) : kind.zero.kind = kind := by
  cases kind <;> rfl

/-- The world in which every call answers zero, `false` or `null`. -/
def World.zeros : World where
  answer _ call :=
    match Descriptor.method? call.descriptor with
    | some (_, [kind]) => kind.zero
    | _ => default
  text _ := 0
  widen _ target v :=
    match target, v with
    | .long, .int v => .long v.toInt64
    | target, _ => target.zero
  answer_kind calls call params kind h := by
    rw [h]
    exact kind.kind_zero
  answer_truth calls call params h _ := by
    rw [h]
    exact ⟨false, rfl⟩
  widen_kind source target v := by
    cases target <;> cases v <;> rfl

/-! ## The machine -/

/-- The data of a running method. -/
structure Frame where
  /-- The topmost value first. -/
  stack : List Value
  locals : Nat → Value
  /-- The calls so far, latest first. -/
  calls : List Call

def Frame.push (frame : Frame) (v : Value) : Frame := { frame with stack := v :: frame.stack }

namespace OpCode

/-- The constant that the operation pushes. -/
def pushed? : OpCode → Option Value
  | aconstNull => some (.reference none)
  | iconstM1 => some (.int (-1))
  | iconst0 => some (.int 0)
  | iconst1 => some (.int 1)
  | iconst2 => some (.int 2)
  | iconst3 => some (.int 3)
  | iconst4 => some (.int 4)
  | iconst5 => some (.int 5)
  | lconst0 => some (.long 0)
  | lconst1 => some (.long 1)
  | fconst0 => some (.float .zero)
  | fconst1 => some (.float .one)
  | fconst2 => some (.float .two)
  | dconst0 => some (.double .zero)
  | dconst1 => some (.double .one)
  | _ => none

/-- The kinds between which the operation widens. -/
def widened? : OpCode → Option (Kind × Kind)
  | i2l => some (.int, .long)
  | i2f => some (.int, .float)
  | i2d => some (.int, .double)
  | l2f => some (.long, .float)
  | l2d => some (.long, .double)
  | f2d => some (.float, .double)
  | _ => none

/-- The kind that the operation compares, and its answer where there is no order. -/
def compared? : OpCode → Option (Kind × Int32)
  | lcmp => some (.long, 0)
  | fcmpl => some (.float, -1)
  | fcmpg => some (.float, 1)
  | dcmpl => some (.double, -1)
  | dcmpg => some (.double, 1)
  | _ => none

/-- The relation that a jump on one number, compared with zero, or on two numbers tests. -/
def relation? : OpCode → Option (Int → Int → Bool)
  | ifeq | ifIcmpeq => some fun v w => v == w
  | ifne | ifIcmpne => some fun v w => v != w
  | iflt | ifIcmplt => some fun v w => v < w
  | ifge | ifIcmpge => some fun v w => w ≤ v
  | ifgt | ifIcmpgt => some fun v w => w < v
  | ifle | ifIcmple => some fun v w => v ≤ w
  | _ => none

/-- Is the jump taken, and what is left of the stack? -/
def jump? (code : OpCode) (stack : List Value) : Option (Bool × List Value) :=
  match code, stack with
  | goto, stack => some (true, stack)
  | ifAcmpeq, .reference w :: .reference v :: rest => some (v == w, rest)
  | ifAcmpne, .reference w :: .reference v :: rest => some (v != w, rest)
  | ifeq, .int v :: rest | ifne, .int v :: rest | iflt, .int v :: rest | ifge, .int v :: rest
  | ifgt, .int v :: rest | ifle, .int v :: rest =>
    code.relation?.map fun relation => (relation v.toInt 0, rest)
  | _, .int w :: .int v :: rest => code.relation?.map fun relation => (relation v.toInt w.toInt, rest)
  | _, _ => none

end OpCode

/-- The number that stands for an order. -/
def orderNumber (unordered : Int32) : Option Ordering → Int32
  | some .lt => -1
  | some .eq => 0
  | some .gt => 1
  | none => unordered

namespace World

def constant (world : World) : Constant → Value
  | .int v => .int v
  | .long v => .long v
  | .float v => .float v
  | .double v => .double v
  | .string v => .reference (some (world.text v))

def widen? (world : World) (code : OpCode) : List Value → Option (List Value)
  | v :: rest => code.widened?.bind fun (source, target) =>
    if v.kind = source then some (world.widen source target v :: rest) else none
  | [] => none

end World

def OpCode.compare? (code : OpCode) : List Value → Option (List Value)
  | w :: v :: rest => code.compared?.bind fun (kind, unordered) =>
    if v.kind = kind ∧ w.kind = kind then
      some (.int (orderNumber unordered (v.compare? w)) :: rest)
    else none
  | _ => none

def OpCode.drop? : OpCode → List Value → Option (List Value)
  | pop, v :: rest => if v.kind.words = 1 then some rest else none
  | pop2, v :: rest => if v.kind.words = 2 then some rest else none
  | _, _ => none

namespace World

/-- An operation without an operand beside the stack. -/
def operate (world : World) (code : OpCode) (stack : List Value) : Option (List Value) :=
  code.pushed?.map (· :: stack) <|> world.widen? code stack <|> code.compare? stack
    <|> code.drop? stack

/-- A call: its arguments are taken, and the answer is pushed if the descriptor has a result. -/
def call (world : World) (owner name descriptor : String) (frame : Frame) : Option Frame :=
  match Descriptor.method? descriptor with
  | some (params, results) =>
    let args := (frame.stack.take params.length).reverse
    let rest := frame.stack.drop params.length
    if args.map Value.kind = params then
      let call : Call := ⟨owner, name, descriptor, args⟩
      let answers := results.map fun _ => world.answer frame.calls call
      some { frame with stack := answers ++ rest, calls := call :: frame.calls }
    else none
  | none => none

end World

/-- The frame behind a return: the returned value is all that is left on the stack. -/
def Frame.return? (code : OpCode) (frame : Frame) : Option Frame :=
  match code, frame.stack with
  | .vreturn, _ => some { frame with stack := [] }
  | .ireturn, v :: _ => if v.kind = .int then some { frame with stack := [v] } else none
  | .lreturn, v :: _ => if v.kind = .long then some { frame with stack := [v] } else none
  | .freturn, v :: _ => if v.kind = .float then some { frame with stack := [v] } else none
  | .dreturn, v :: _ => if v.kind = .double then some { frame with stack := [v] } else none
  | .areturn, v :: _ => if v.kind = .reference then some { frame with stack := [v] } else none
  | _, _ => none

/-- What an instruction does. The others than those of conditions, calls and jumps do nothing here, and
neither does one that the stack does not suit. -/
def Instr.exec (world : World) (i : Instr) (frame : Frame) : Option (Effect Frame) :=
  match i.access? with
  | some ⟨.load, kind, slot⟩ =>
    if (frame.locals slot).kind = kind then some (.next (frame.push (frame.locals slot))) else none
  | some _ => none
  | none =>
    match i with
    | noArg code =>
      if code.isReturn then (frame.return? code).map .leave
      else (world.operate code frame.stack).map fun stack => .next { frame with stack }
    | oneArg .bipush v | oneArg .sipush v => some (.next (frame.push (.int (.ofInt v))))
    | ldc constant => some (.next (frame.push (world.constant constant)))
    | branch code target => (code.jump? frame.stack).map fun (taken, stack) =>
      if taken then .jump target { frame with stack } else .next { frame with stack }
    | member .invokestatic owner name descriptor =>
      (world.call owner name descriptor frame).map .next
    | label _ => some (.next frame)
    | _ => none

/-- The machine that computes values. -/
def valueMachine (world : World) : Machine Frame := fun i frame effect =>
  i.exec world frame = some effect

theorem valueMachine_deterministic (world : World) : (valueMachine world).Deterministic :=
  fun _ _ _ _ h₁ h₂ => Option.some.inj (h₁.symm.trans h₂)

/-! ## Calls of a run -/

def Effect.state {σ : Type} : Effect σ → σ
  | next state | jump _ state | leave state => state

theorem Effect.state_config {σ : Type} (code rest : List Instr) (effect : Effect σ) :
    (effect.config code rest).state = effect.state := by
  cases effect with
  | next | leave => rfl
  | jump target state =>
    show (Config.land code target state).state = state
    unfold Config.land
    split <;> rfl

theorem Frame.calls_return? {code : OpCode} {frame after : Frame}
    (h : frame.return? code = some after) : after.calls = frame.calls := by
  unfold return? at h
  split at h <;> first | cases h; rfl | (split at h <;> cases h; rfl) | cases h

theorem World.calls_call {world : World} {owner name descriptor : String} {frame after : Frame}
    (h : world.call owner name descriptor frame = some after) : frame.calls <:+ after.calls := by
  unfold call at h
  split at h
  · dsimp only at h
    split at h
    · cases h
      exact List.suffix_cons _ _
    · cases h
  · cases h

/-- An instruction makes one call at most, and takes none back. -/
theorem Instr.calls_exec {world : World} {i : Instr} {frame : Frame} {effect : Effect Frame}
    (h : i.exec world frame = some effect) : frame.calls <:+ effect.state.calls := by
  unfold exec at h
  split at h
  · split at h
    · cases h
      exact List.suffix_refl _
    · cases h
  · cases h
  · split at h
    · split at h
      · obtain ⟨after, hafter, rfl⟩ := Option.map_eq_some_iff.mp h
        exact (Frame.calls_return? hafter).symm ▸ List.suffix_refl _
      · obtain ⟨after, -, rfl⟩ := Option.map_eq_some_iff.mp h
        exact List.suffix_refl _
    · cases h
      exact List.suffix_refl _
    · cases h
      exact List.suffix_refl _
    · cases h
      exact List.suffix_refl _
    · obtain ⟨⟨taken, after⟩, -, rfl⟩ := Option.map_eq_some_iff.mp h
      cases taken <;> exact List.suffix_refl _
    · obtain ⟨after, hafter, rfl⟩ := Option.map_eq_some_iff.mp h
      exact World.calls_call hafter
    · cases h
      exact List.suffix_refl _
    · cases h

theorem calls_grow {world : World} {code : List Instr} {n : Nat} {one two : Config Frame}
    (h : (valueMachine world).Runs code n one two) : one.state.calls <:+ two.state.calls := by
  induction h with
  | refl => exact List.suffix_refl _
  | step hstep _ ih =>
    cases hstep with
    | @instr _ rest _ effect heffect =>
      rw [Effect.state_config] at ih
      exact (Instr.calls_exec heffect).trans ih

end ClassCompiler
