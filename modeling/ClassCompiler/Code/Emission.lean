import ClassCompiler.ClassFile.Emitter
import ClassCompiler.Error

/-!
# Emission

Code as data: the instructions of a piece of a method, the labels it takes, and whether the piece
could be generated. Pieces are put together in order. A piece that fails keeps the instructions
before the failure, and nothing follows it.

* `Emit`: pieces of code
* `run_bind_ok`: the code of two pieces is the code of the first followed by that of the second
-/

namespace ClassCompiler

/-- What a piece of code comes to. -/
structure Emission (α : Type) where
  code : List Instr
  /-- The next free label. -/
  next : Nat
  result : Except CompileError α

/-- A piece of code, given the next free label. -/
def Emit (α : Type) : Type := Nat → Emission α

namespace Emit

variable {α β : Type}

def run (piece : Emit α) (next : Nat) : Emission α := piece next

protected def pure (value : α) : Emit α := fun next => ⟨[], next, .ok value⟩

protected def bind (first : Emit α) (rest : α → Emit β) : Emit β := fun next =>
  let one := first.run next
  match one.result with
  | .error error => ⟨one.code, one.next, .error error⟩
  | .ok value =>
    let two := (rest value).run one.next
    ⟨one.code ++ two.code, two.next, two.result⟩

instance : Monad Emit where
  pure := Emit.pure
  bind := Emit.bind

/-! ## Pieces -/

def fail (error : CompileError) : Emit α := fun next => ⟨[], next, .error error⟩

/-- A piece that fails where there is no value. -/
def ofOption (value : Option α) (error : CompileError) : Emit α :=
  match value with
  | some value => pure value
  | none => fail error

def instr (i : Instr) : Emit Unit := fun next => ⟨[i], next, .ok ()⟩

def op (code : OpCode) : Emit Unit := instr (.noArg code)

def ops (codes : List OpCode) : Emit Unit := fun next =>
  ⟨codes.map Instr.noArg, next, .ok ()⟩

def newLabel : Emit Label := fun next => ⟨[], next + 1, .ok ⟨next⟩⟩

/-- Puts a label at the current point. -/
def place (label : Label) : Emit Unit := instr (.label label)

def goto (target : Label) : Emit Unit := instr (.goto target)

/-! ## Running -/

@[simp] theorem run_pure (value : α) (next : Nat) :
    (pure value : Emit α).run next = ⟨[], next, .ok value⟩ := rfl

theorem run_bind_ok {first : Emit α} {rest : α → Emit β} {next : Nat} {value : α}
    (h : (first.run next).result = .ok value) :
    (first >>= rest).run next
      = ⟨(first.run next).code ++ ((rest value).run (first.run next).next).code,
          ((rest value).run (first.run next).next).next,
          ((rest value).run (first.run next).next).result⟩ := by
  show (Emit.bind first rest).run next = _
  simp only [Emit.bind, run] at h ⊢
  rw [h]

theorem run_bind_error {first : Emit α} {rest : α → Emit β} {next : Nat} {error : CompileError}
    (h : (first.run next).result = .error error) :
    (first >>= rest).run next
      = ⟨(first.run next).code, (first.run next).next, .error error⟩ := by
  show (Emit.bind first rest).run next = _
  simp only [Emit.bind, run] at h ⊢
  rw [h]

@[simp] theorem run_fail (error : CompileError) (next : Nat) :
    (fail error : Emit α).run next = ⟨[], next, .error error⟩ := rfl

@[simp] theorem run_instr (i : Instr) (next : Nat) : (instr i).run next = ⟨[i], next, .ok ()⟩ := rfl

@[simp] theorem run_newLabel (next : Nat) : newLabel.run next = ⟨[], next + 1, .ok ⟨next⟩⟩ := rfl

theorem ext {one two : Emit α} (h : ∀ next, one.run next = two.run next) : one = two := funext h

theorem bind_assoc {γ : Type} (first : Emit α) (second : α → Emit β) (third : β → Emit γ) :
    first >>= second >>= third = first >>= fun value => second value >>= third := by
  refine ext fun next => ?_
  cases h : (first.run next).result with
  | error e =>
    have h' : ((first >>= second).run next).result = .error e := by rw [run_bind_error h]
    rw [run_bind_error h, run_bind_error h', run_bind_error h]
  | ok value =>
    rw [run_bind_ok h]
    cases hs : ((second value).run (first.run next).next).result with
    | error e =>
      have h' : ((first >>= second).run next).result = .error e := by rw [run_bind_ok h]; exact hs
      rw [run_bind_error h', run_bind_ok h, run_bind_error hs]
    | ok two =>
      have h' : ((first >>= second).run next).result = .ok two := by rw [run_bind_ok h]; exact hs
      rw [run_bind_ok h', run_bind_ok h, run_bind_ok hs, List.append_assoc]

theorem id_map (piece : Emit α) : id <$> piece = piece := by
  refine ext fun next => ?_
  change (piece >>= fun value => (pure value : Emit α)).run next = piece.run next
  cases h : (piece.run next).result with
  | ok value => rw [run_bind_ok h]; simp [← h]
  | error e => rw [run_bind_error h, ← h]

theorem pure_bind (value : α) (rest : α → Emit β) : (pure value >>= rest) = rest value := by
  refine ext fun next => ?_
  have h : ((pure value : Emit α).run next).result = .ok value := rfl
  rw [run_bind_ok h]
  simp

instance : LawfulMonad Emit := LawfulMonad.mk' Emit id_map pure_bind bind_assoc

end Emit

end ClassCompiler
