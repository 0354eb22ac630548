import ClassCompiler.Proofs.Code.Computing

/-!
# Steps on a place

What pieces of code do in a memory, with an exception as one way to end, and what the steps of an
update do to a place whose operands are on the stack: they read its location, copy a value below the
operands, and store a value and drop the operands. Values and operands may have one word or two.

* `Emit.Does`: what a piece of code does in a memory
* `Place.location?`, `Host.store`
* `Place.does_load`, `Place.does_keep`, `Place.does_store`
-/

namespace ClassCompiler

open Emit ExprCode

/-! ## Results -/

/-- The end of an evaluation: a result, or an exception. -/
inductive Result (α : Type)
  | done (value : α) (after : Memory)
  | raised (fault : Fault) (after : Memory)

namespace Result

variable {α β : Type}

def map (f : α → β) : Result α → Result β
  | done value after => done (f value) after
  | raised fault after => raised fault after

/-- What follows on a result. -/
def andThen (r : Result α) (next : α → Memory → Result β) : Result β :=
  match r with
  | done value after => next value after
  | raised fault after => raised fault after

/-- A result is a value of the type. -/
def Gives (ty : Ty) : Result Value → Prop
  | done v _ => ty.holds v = true
  | raised .. => True

end Result

/-- The piece takes its operands from the stack and leaves other values there, or it ends in an
exception. What lies below stays. -/
def Emit.Does (host : Host) (piece : Emit Unit) (operands : List Value) (before : Memory) :
    Result (List Value) → Prop
  | .done left after => ∀ stack, piece.Moves host (operands ++ stack) before (left ++ stack) after
  | .raised fault after => ∀ stack, ∃ left,
      piece.Throws host (operands ++ stack) before fault left after

section

variable {host : Host} {piece first : Emit Unit} {rest : Unit → Emit Unit}
  {operands middle : List Value} {before between : Memory} {r : Result (List Value)}

theorem does_then (hcompletes : first.Completes)
    (h : first.Does host operands before (.done middle between))
    (hrest : (rest ()).Does host middle between r) :
    (first >>= rest).Does host operands before r := by
  cases r with
  | done left after => exact fun stack => leads_then (h stack) hcompletes (hrest stack)
  | raised fault after =>
    intro stack
    obtain ⟨left, hthrows⟩ := hrest stack
    exact ⟨left, leads_then (h stack) hcompletes hthrows⟩

theorem does_stop {fault : Fault} {after : Memory}
    (h : first.Does host operands before (.raised fault after)) :
    (first >>= rest).Does host operands before (.raised fault after) := by
  intro stack
  obtain ⟨left, hthrows⟩ := h stack
  exact ⟨left, leads_stop hthrows rfl⟩

/-- More operands below stay there. -/
theorem Emit.Does.above {value : Result Value} (below : List Value)
    (h : piece.Does host [] before (value.map fun v => [v])) :
    piece.Does host below before (value.map fun v => v :: below) := by
  cases value with
  | done v after => exact fun stack => h (below ++ stack)
  | raised fault after => exact fun stack => h (below ++ stack)

/-- More values below stay there. -/
theorem Emit.Does.frame {left : List Value} {after : Memory}
    (h : piece.Does host operands before (.done left after)) (below : List Value) :
    piece.Does host (operands ++ below) before (.done (left ++ below) after) := by
  intro stack
  rw [List.append_assoc, List.append_assoc]
  exact h (below ++ stack)

theorem does_pure (operands : List Value) (before : Memory) :
    (pure () : Emit Unit).Does host operands before (.done operands before) :=
  fun _ => leads_pure _

/-- A copy of all operands. -/
theorem does_copy {code : OpCode} (operands : List Value) (before : Memory)
    (h : code.copies? = some (Value.words operands, 0)) :
    (op code).Does host operands before (.done (operands ++ operands) before) := by
  intro stack
  rw [List.append_assoc]
  exact moves_copy operands [] h

end

/-! ## Places -/

/-- The location of a place with these operands on the stack. There is none of `null`. -/
def Place.location? (registry : Registry) : Place → List Value → Option Location
  | slot index, [] => some (.slot index)
  | static ref name, [] => some (.static (registry.fieldKey ref name))
  | member ref name, [.reference object] => object.map (.member · (registry.fieldKey ref name))
  | element, [.int position, .reference array] => array.map (.element · position)
  | _, _ => none

/-- The values are operands of the place. -/
def Place.Takes (operands : List Value) : Place → Prop
  | slot _ | static .. => operands = []
  | member .. => ∃ object, operands = [.reference object]
  | element => ∃ position array, operands = [.int position, .reference array]

/-- There is a value at the location. -/
def Memory.Has (memory : Memory) (location : Option Location) (v : Value) : Prop :=
  location.bind memory.read = some v

/-- There is no such location. Locals are always there. -/
def Memory.Lacks (memory : Memory) (location : Option Location) : Prop :=
  location.bind memory.read = none ∧ ∀ index, location ≠ some (.slot index)

/-- A store to a location, and what is left on the stack afterwards. -/
def Host.store (host : Host) (location : Option Location) (v : Value) (left : List Value)
    (memory : Memory) : Result (List Value) :=
  match host.put location v left memory with
  | .ok (left, after) => .done left after
  | .error fault => .raised fault memory

namespace Place

variable {host : Host} {registry : Registry} {memory : Memory} {place : Place} {ty : Ty}
  {operands left : List Value} {v : Value}

theorem act?_getstatic (ref : FieldRef) (name : String) (stack : List Value) :
    host.act? (.member .getstatic (registry.internalName ref.owner) name
        (registry.descriptor ref.ty)) stack memory
      = Host.fetch? (some (.static (registry.fieldKey ref name))) (fun _ => true) stack memory :=
  rfl

theorem act?_getfield (ref : FieldRef) (name : String) (object : Option Nat) (stack : List Value) :
    host.act? (.member .getfield (registry.internalName ref.owner) name
        (registry.descriptor ref.ty)) (.reference object :: stack) memory
      = Host.fetch? (object.map (.member · (registry.fieldKey ref name))) (fun _ => true) stack
          memory := rfl

theorem does_load (h : place.Takes operands)
    (hread : memory.Has (place.location? registry operands) v) (hv : ty.holds v = true) :
    (place.load registry ty).Does host operands memory (.done (v :: operands) memory) := by
  cases place with
  | slot index =>
    cases h
    exact fun stack => moves_load hread (Ty.kind_of_holds hv)
  | static ref name =>
    cases h
    exact fun stack => moves_act ((act?_getstatic ref name stack).trans
      (Host.fetch?_some hread rfl stack))
  | member ref name =>
    obtain ⟨object, rfl⟩ := h
    refine does_then (completes_instr _) (does_copy [.reference object] memory rfl) fun stack =>
      moves_act ?_
    exact (act?_getfield ref name object _).trans (Host.fetch?_some hread rfl _)
  | element =>
    obtain ⟨position, array, rfl⟩ := h
    refine does_then (completes_instr _)
      (does_copy [.int position, .reference array] memory rfl) fun stack => moves_act ?_
    exact (act?_arrayLoad ty array position).trans (Host.fetch?_some hread (Ty.holds_cell hv) _)

theorem does_load_missing (h : place.Takes operands)
    (hread : memory.Lacks (place.location? registry operands)) :
    (place.load registry ty).Does host operands memory (.raised .access memory) := by
  obtain ⟨hnone, hslot⟩ := hread
  cases place with
  | slot index =>
    cases h
    exact absurd rfl (hslot index)
  | static ref name =>
    cases h
    exact fun stack => ⟨_, throws_act ((act?_getstatic ref name stack).trans
      (Host.fetch?_none hnone stack))⟩
  | member ref name =>
    obtain ⟨object, rfl⟩ := h
    refine does_then (completes_instr _) (does_copy [.reference object] memory rfl) fun stack =>
      ⟨_, throws_act ?_⟩
    exact (act?_getfield ref name object _).trans (Host.fetch?_none hnone _)
  | element =>
    obtain ⟨position, array, rfl⟩ := h
    refine does_then (completes_instr _)
      (does_copy [.int position, .reference array] memory rfl) fun stack => ⟨_, throws_act ?_⟩
    exact (act?_arrayLoad ty array position).trans (Host.fetch?_none hnone _)

theorem exists_keep (h : place.Takes operands) (hkind : v.kind = ty.kind) :
    ∃ code, place.keep ty = op code
      ∧ code.copies? = some (Value.words [v], Value.words operands) := by
  have hwords : Value.words [v] = if ty.isWide then 2 else 1 := by
    show v.kind.words + 0 = _
    rw [hkind]
    split
    · next hwide => exact Ty.words_of_isWide hwide
    · next hwide => exact Ty.words_of_not_isWide hwide
  rw [hwords]
  cases place with
  | slot | static =>
    cases h
    refine ⟨_, rfl, ?_⟩
    split <;> rfl
  | member =>
    obtain ⟨object, rfl⟩ := h
    refine ⟨_, rfl, ?_⟩
    split <;> rfl
  | element =>
    obtain ⟨position, array, rfl⟩ := h
    refine ⟨_, rfl, ?_⟩
    split <;> rfl

/-- The value stays below the operands. -/
theorem does_keep (host : Host) (memory : Memory) (h : place.Takes operands)
    (hkind : v.kind = ty.kind) :
    (place.keep ty).Does host (v :: operands) memory (.done (v :: (operands ++ [v])) memory) := by
  obtain ⟨code, hcode, hcopies⟩ := exists_keep h hkind
  rw [hcode]
  intro stack
  have hmoves : (op code).Moves host ([v] ++ (operands ++ stack)) memory
      ([v] ++ (operands ++ ([v] ++ stack))) memory := moves_copy [v] operands hcopies
  simpa using hmoves

theorem exists_store (host : Host) (memory : Memory) (registry : Registry)
    (h : place.Takes operands) (hv : ty.holds v = true) :
    ∃ i, place.store registry ty = instr i ∧ ∀ stack,
      host.act? i (v :: (operands ++ stack)) memory
        = some (host.put (place.location? registry operands) v stack memory) := by
  cases place with
  | slot index =>
    cases h
    refine ⟨_, rfl, fun stack => ?_⟩
    simp only [Host.act?, Instr.access?_store, Ty.kind_of_holds hv, if_true]
    rfl
  | static ref name =>
    cases h
    exact ⟨_, rfl, fun stack => rfl⟩
  | member ref name =>
    obtain ⟨object, rfl⟩ := h
    exact ⟨_, rfl, fun stack => rfl⟩
  | element =>
    obtain ⟨position, array, rfl⟩ := h
    exact ⟨_, rfl, fun stack => act?_arrayStore (Ty.holds_cell hv) array position⟩

theorem does_store (host : Host) (memory : Memory) (registry : Registry)
    (h : place.Takes operands) (hv : ty.holds v = true)
    (left : List Value) : (place.store registry ty).Does host (v :: (operands ++ left)) memory
      (host.store (place.location? registry operands) v left memory) := by
  obtain ⟨i, hi, hact⟩ := exists_store host memory registry h hv
  rw [hi]
  have hstack : ∀ stack, host.act? i (v :: (operands ++ left) ++ stack) memory
      = some (host.put (place.location? registry operands) v (left ++ stack) memory) := by
    intro stack
    rw [List.cons_append, List.append_assoc]
    exact hact (left ++ stack)
  unfold Host.store
  rcases host.put_cases (place.location? registry operands) v memory with ⟨after, hput⟩ | hput
  · rw [hput]
    exact fun stack => moves_act ((hstack stack).trans (congrArg some (hput _)))
  · rw [hput]
    exact fun stack => ⟨_, throws_act ((hstack stack).trans (congrArg some (hput _)))⟩

end Place

end ClassCompiler
