import ClassCompiler.Proofs.Machine.Memory

/-!
# A machine on string builders

The instructions that concatenations are made of, on a platform that is known only by what it does:
its values and states may be anything. It can push the text of a builder as a `String`, it gives a
value that is appended a string form, by the overload of `append` that is called, and it does all other
instructions. A string form can take a call of `toString`, so it can change the state or end in an
exception; only the string form of a `String` that a builder has made is its text.

A builder is known only to the code that has made it, so it stands on the stack with its text.

* `Platform`, `Platform.machine`
* `Emit.Ends`, `Emit.Prints`: pieces that leave a value, or print to the builder on the stack
* `prints_then`, `prints_appendValue`, `ends_concatValue`
-/

namespace ClassCompiler

open Emit ExprCode

/-! ## The machine -/

/-- The end of an evaluation: a value, or an exception, which the state holds. -/
inductive Ending (σ α : Type)
  | value (v : α) (after : σ)
  | raised (after : σ)

namespace Ending

variable {σ α β γ : Type}

def map (f : α → β) : Ending σ α → Ending σ β
  | value v after => value (f v) after
  | raised after => raised after

theorem map_map (g : β → γ) (f : α → β) (r : Ending σ α) :
    (r.map f).map g = r.map fun v => g (f v) := by
  cases r <;> rfl

end Ending

/-- What stands on the stack: a value, or a builder with its text. -/
inductive Cell (ν : Type)
  | value (v : ν)
  | builder (text : String)

/-- A running method. The topmost cell comes first. -/
structure Activation (ν σ : Type) where
  stack : List (Cell ν)
  state : σ

/-- Values, states, and what can be done with them. -/
structure Platform (ν σ : Type) where
  /-- A new `String` with the text. -/
  string : String → ν
  /-- The string form of a value, for the `append` with this descriptor. -/
  form : String → ν → σ → Option (Ending σ String)
  form_string : ∀ text state,
    form (appendDescriptor .string) (string text) state = some (.value text state)
  /-- The effects of all instructions that are not about builders. -/
  other : Instr → Activation ν σ → Option (Effect (Activation ν σ))

namespace Platform

variable {ν σ : Type} (platform : Platform ν σ)

/-- A call of a builder. The constructor drops the copy that it is given. -/
def onBuilder? (name descriptor : String) :
    List (Cell ν) → σ → Option (Ending σ (List (Cell ν)))
  | .value v :: .builder text :: stack, state =>
    if name = "append" then
      (platform.form descriptor v state).map fun r =>
        r.map fun more => .builder (text ++ more) :: stack
    else none
  | .builder text :: stack, state =>
    if name = "<init>" then some (.value stack state)
    else if name = "toString" then some (.value (.value (platform.string text) :: stack) state)
    else none
  | _, _ => none

/-- What an instruction does with a builder. -/
def build? (i : Instr) (stack : List (Cell ν)) (state : σ) : Option (Ending σ (List (Cell ν))) :=
  match i, stack with
  | .reference .newObject type, stack =>
    if type = builderName then some (.value (.builder "" :: stack) state) else none
  | .noArg .dup, .builder text :: stack =>
    some (.value (.builder text :: .builder text :: stack) state)
  | .member _ owner name descriptor, stack =>
    if owner = builderName then platform.onBuilder? name descriptor stack state else none
  | _, _ => none

def exec (i : Instr) (now : Activation ν σ) : Option (Effect (Activation ν σ)) :=
  match platform.build? i now.stack now.state with
  | some (.value stack state) => some (.next ⟨stack, state⟩)
  | some (.raised state) => some (.leave ⟨now.stack, state⟩)
  | none => platform.other i now

/-- Loads and stores of locals are not about builders. -/
theorem build?_of_access {i : Instr} {access : Access} (h : i.access? = some access)
    (stack : List (Cell ν)) (state : σ) : platform.build? i stack state = none := by
  unfold build?
  split <;> first | rfl | cases h

/-- The machine of the platform. -/
def machine : Machine (Activation ν σ) := fun i now effect => platform.exec i now = some effect

end Platform

/-! ## Pieces -/

section

variable {ν σ : Type}

/-- The piece takes one stack to another, or ends in an exception. -/
def Emit.Comes (platform : Platform ν σ) (piece : Emit Unit) (stack : List (Cell ν)) (before : σ) :
    Ending σ (List (Cell ν)) → Prop
  | .value left after => piece.Leads platform.machine ⟨stack, before⟩ (.done (.next ⟨left, after⟩))
  | .raised after => ∃ left,
      piece.Leads platform.machine ⟨stack, before⟩ (.done (.leave ⟨left, after⟩))

/-- The piece leaves one value above an unchanged stack. -/
def Emit.Ends (platform : Platform ν σ) (piece : Emit Unit) (before : σ) (r : Ending σ ν) : Prop :=
  ∀ stack, piece.Comes platform stack before (r.map fun v => .value v :: stack)

/-- The piece prints a text behind that of the builder on top of the stack. -/
def Emit.Prints (platform : Platform ν σ) (piece : Emit Unit) (before : σ) (r : Ending σ String) :
    Prop :=
  ∀ text stack, piece.Comes platform (.builder text :: stack) before
    (r.map fun more => .builder (text ++ more) :: stack)

variable {platform : Platform ν σ} {first value parts : Emit Unit} {rest : Unit → Emit Unit}
  {stack left : List (Cell ν)} {before middle after : σ} {r : Ending σ String} {v : ν}

theorem comes_then {r : Ending σ (List (Cell ν))} (hcompletes : first.Completes)
    (h : first.Comes platform stack before (.value left middle))
    (hrest : (rest ()).Comes platform left middle r) :
    (first >>= rest).Comes platform stack before r := by
  cases r with
  | value => exact leads_then h hcompletes hrest
  | raised =>
    obtain ⟨last, hleads⟩ := hrest
    exact ⟨last, leads_then h hcompletes hleads⟩

theorem comes_stop (h : first.Comes platform stack before (.raised after)) :
    (first >>= rest).Comes platform stack before (.raised after) := by
  obtain ⟨last, hleads⟩ := h
  exact ⟨last, leads_stop hleads rfl⟩

theorem comes_instr {i : Instr} {r : Ending σ (List (Cell ν))}
    (h : platform.build? i stack before = some r) : (instr i).Comes platform stack before r := by
  cases r with
  | value left after =>
    have hexec : platform.exec i ⟨stack, before⟩ = some (.next ⟨left, after⟩) := by
      simp only [Platform.exec, h]
    exact leads_instr hexec
  | raised after =>
    have hexec : platform.exec i ⟨stack, before⟩ = some (.leave ⟨stack, after⟩) := by
      simp only [Platform.exec, h]
    exact ⟨stack, leads_instr hexec⟩

/-- What two pieces print stands in their order. -/
theorem prints_then {one : String} (hcompletes : first.Completes)
    (h : first.Prints platform before (.value one middle))
    (hrest : (rest ()).Prints platform middle r) :
    (first >>= rest).Prints platform before (r.map (one ++ ·)) := by
  intro text stack
  have hrest := hrest (text ++ one) stack
  rw [Ending.map_map]
  simp only [String.append_assoc] at hrest
  exact comes_then hcompletes (h text stack) hrest

theorem prints_stop (h : first.Prints platform before (.raised after)) :
    (first >>= rest).Prints platform before (.raised after) :=
  fun text stack => comes_stop (h text stack)

/-- A value is evaluated above the builder, and its string form is printed. -/
theorem prints_appendValue {ty : Ty} (hcompletes : value.Completes)
    (h : value.Ends platform before (.value v middle))
    (hform : platform.form (appendDescriptor ty) v middle = some r) :
    (value >>= fun _ => instr (appendValue ty)).Prints platform before r := by
  intro text stack
  refine comes_then hcompletes (h (.builder text :: stack)) (comes_instr ?_)
  show (if builderName = builderName then
    (platform.form (appendDescriptor ty) v middle).map _ else none) = _
  rw [if_pos rfl, hform]
  rfl

theorem prints_raised (h : value.Ends platform before (.raised after)) :
    (value >>= rest).Prints platform before (.raised after) :=
  fun text stack => comes_stop (h (.builder text :: stack))

/-- A string that a builder has made is printed as it is. -/
theorem prints_appendString (hcompletes : value.Completes)
    (h : value.Ends platform before (r.map platform.string)) :
    (value >>= fun _ => instr (appendValue .string)).Prints platform before r := by
  cases r with
  | value text after => exact prints_appendValue hcompletes h (platform.form_string text after)
  | raised after => exact prints_raised h

/-- A new builder, its parts, and the string that they make. -/
theorem ends_concatValue (hcompletes : parts.Completes) (h : parts.Prints platform before r) :
    (concatValue parts).Ends platform before (r.map platform.string) := by
  intro stack
  have hnew : (instr (.reference .newObject builderName)).Comes platform stack before
      (.value (.builder "" :: stack) before) := comes_instr rfl
  have hcopy : (op .dup).Comes platform (.builder "" :: stack) before
      (.value (.builder "" :: .builder "" :: stack) before) := comes_instr rfl
  have hinit : (instr (.member .invokespecial builderName "<init>" "()V")).Comes platform
      (.builder "" :: .builder "" :: stack) before (.value (.builder "" :: stack) before) :=
    comes_instr rfl
  have hparts := h "" stack
  simp only [String.empty_append] at hparts
  refine comes_then (completes_instr _) hnew (comes_then (completes_instr _) hcopy
    (comes_then (completes_instr _) hinit ?_))
  cases r with
  | value text after =>
    have hstring : (instr (.member .invokevirtual builderName "toString"
        "()Ljava/lang/String;")).Comes platform (.builder text :: stack) after
        (.value (.value (platform.string text) :: stack) after) := comes_instr rfl
    exact comes_then hcompletes hparts hstring
  | raised after => exact comes_stop hparts

end

end ClassCompiler
