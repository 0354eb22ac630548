import ClassCompiler.Proofs.Code.Places
import ClassCompiler.Proofs.Machine.Numbers

/-!
# Pieces that compute

What single instructions, conversions and operators do on the machine that computes and stores: one
rule for each form in which code generation uses them.

* `Emit.Moves`, `Emit.Throws`: a piece goes on, or ends in an exception
* `moves_ops`, `moves_binary`, `throws_binary`, `moves_copy`
* `Host.exists_convert`, `Host.exists_narrow`, `Host.exists_binary`: operators are defined on values
  of their types
-/

namespace ClassCompiler

open Emit ExprCode

variable {host : Host} {stack rest : List Value} {memory after : Memory} {v w : Value}

/-- The piece takes the machine on, from one stack and memory to others. -/
abbrev Emit.Moves (host : Host) (piece : Emit Unit) (stack : List Value) (memory : Memory)
    (rest : List Value) (after : Memory) : Prop :=
  piece.Leads (numberMachine host) ⟨stack, memory, none⟩ (.done (.next ⟨rest, after, none⟩))

/-- The piece ends in an exception, with this left of the stack. -/
abbrev Emit.Throws (host : Host) (piece : Emit Unit) (stack : List Value) (memory : Memory)
    (fault : Fault) (left : List Value) (after : Memory) : Prop :=
  piece.Leads (numberMachine host) ⟨stack, memory, none⟩ (.done (.leave ⟨left, after, some fault⟩))

/-! ## Instructions -/

theorem moves_act {i : Instr} (h : host.act? i stack memory = some (.ok (rest, after))) :
    (instr i).Moves host stack memory rest after := by
  apply leads_instr
  show host.exec i ⟨stack, memory, none⟩ = _
  simp only [Host.exec, h]

theorem throws_act {i : Instr} {fault : Fault}
    (h : host.act? i stack memory = some (.error fault)) :
    (instr i).Throws host stack memory fault stack memory := by
  apply leads_instr
  show host.exec i ⟨stack, memory, none⟩ = _
  simp only [Host.exec, h]

theorem moves_load {ty : Ty} {slot : Nat} (h : memory.read (.slot slot) = some v)
    (hkind : v.kind = ty.kind) :
    (instr (.load ty slot)).Moves host stack memory (v :: stack) memory := by
  apply moves_act
  simp only [Host.act?, Instr.access?_load, h, hkind, if_true]

theorem moves_aload0 {object : Option Nat} (h : memory.read (.slot 0) = some (.reference object)) :
    (op .aload0).Moves host stack memory (.reference object :: stack) memory := by
  have haccess : Instr.access? (.noArg .aload0) = some ⟨.load, .reference, 0⟩ := rfl
  have hkind : Value.kind (.reference object) = .reference := rfl
  apply moves_act
  simp only [Host.act?, haccess, h, hkind, if_true]

theorem moves_constant {i : Instr} (haccess : i.access? = none) (h : host.constant? i = some v) :
    (instr i).Moves host stack memory (v :: stack) memory := by
  apply moves_act
  simp only [Host.act?, haccess, h]

/-! ## Copies -/

theorem act?_copy {code : OpCode} {top below : Nat} (h : code.copies? = some (top, below)) :
    host.act? (.noArg code) stack memory
      = (Value.copy? top below stack).map fun stack => .ok (stack, memory) := by
  cases code <;> cases h <;> rfl

/-- A copy of the topmost values below some more values. -/
theorem moves_copy {code : OpCode} (top below : List Value)
    (h : code.copies? = some (Value.words top, Value.words below)) :
    (op code).Moves host (top ++ (below ++ stack)) memory (top ++ (below ++ (top ++ stack)))
      memory := by
  apply moves_act
  rw [act?_copy h, Value.copy?_append]
  rfl

/-! ## Fields and elements -/

theorem act?_arrayLoad (ty : Ty) (array : Option Nat) (position : Int32) :
    host.act? (.arrayLoad ty) (.int position :: .reference array :: stack) memory
      = Host.fetch? (array.map (.element · position)) (Prim.holds? ty.cell?) stack memory := by
  unfold Instr.arrayLoad Ty.cell?
  cases ty.prim? with
  | none => rfl
  | some p => cases p <;> rfl

theorem act?_arrayStore {ty : Ty} (h : Prim.holds? ty.cell? v = true) (array : Option Nat)
    (position : Int32) :
    host.act? (.arrayStore ty) (v :: .int position :: .reference array :: stack) memory
      = some (host.put (array.map (.element · position)) v stack memory) := by
  have hsame : host.act? (.arrayStore ty) (v :: .int position :: .reference array :: stack) memory
      = if Prim.holds? ty.cell? v then
          some (host.put (array.map (.element · position)) v stack memory)
        else none := by
    unfold Instr.arrayStore Ty.cell?
    cases ty.prim? with
    | none => rfl
    | some p => cases p <;> rfl
  rw [hsame, if_pos h]

/-! ## Operators on the stack -/

theorem act?_unary {code : OpCode} (hcode : code.isUnary = true) (v : Value) :
    host.act? (.noArg code) (v :: stack) memory
      = (host.unary? code v).map fun u => .ok (u :: stack, memory) := by
  cases code <;> first | rfl | cases hcode

theorem act?_binary {code : OpCode} (hcode : code.isBinary = true) (v w : Value) :
    host.act? (.noArg code) (w :: v :: stack) memory = (host.binary? code v w).map fun
      | some u => .ok (u :: stack, memory)
      | none => .error .division := by
  cases code <;> first | rfl | cases hcode

theorem moves_unary {code : OpCode} (hcode : code.isUnary = true)
    (h : host.unary? code v = some w) :
    (op code).Moves host (v :: stack) memory (w :: stack) memory := by
  apply moves_act
  rw [act?_unary hcode, h]
  rfl

theorem moves_binary {code : OpCode} (hcode : code.isBinary = true) {u : Value}
    (h : host.binary? code v w = some (some u)) :
    (op code).Moves host (w :: v :: stack) memory (u :: stack) memory := by
  apply moves_act
  rw [act?_binary hcode, h]
  rfl

theorem throws_binary {code : OpCode} (hcode : code.isBinary = true)
    (h : host.binary? code v w = some none) :
    (op code).Throws host (w :: v :: stack) memory .division (w :: v :: stack) memory := by
  apply throws_act
  rw [act?_binary hcode, h]
  rfl

/-- A value after some conversions. -/
def Host.convert? (host : Host) (codes : List OpCode) (v : Value) : Option Value :=
  codes.foldlM (fun v code => host.unary? code v) v

theorem moves_ops {codes : List OpCode} (hcodes : ∀ code ∈ codes, code.isUnary = true)
    (h : host.convert? codes v = some w) :
    (ops codes).Moves host (v :: stack) memory (w :: stack) memory := by
  induction codes generalizing v with
  | nil =>
    cases h
    exact leads_pure _
  | cons code codes ih =>
    obtain ⟨u, hu, hrest⟩ := Option.bind_eq_some_iff.mp h
    have hcode := hcodes code List.mem_cons_self
    have hmore : ∀ code ∈ codes, code.isUnary = true :=
      fun code hcode => hcodes code (List.mem_cons_of_mem _ hcode)
    rw [ops_cons]
    exact leads_then (moves_unary hcode hu) (completes_instr _) (ih hmore hrest)

theorem moves_conversion {source target : Ty}
    (h : host.convert? (conversion source target) v = some w) :
    (ops (conversion source target)).Moves host (v :: stack) memory (w :: stack) memory :=
  moves_ops (fun _ => OpCode.isUnary_of_mem_conversion) h

/-! ## Operators on values of their types -/

/-- The result of an operator as a value. Only a quotient or a remainder may be missing. -/
theorem BinaryOp.onBits?_gives (op : BinaryOp) {n : Nat} {x y : BitVec n} {value : BitVec n → Value}
    {kind : Kind} (hvalue : ∀ bits, (value bits).kind = kind) :
    (∀ u, (op.onBits? x y).map value = some u → u.kind = kind)
      ∧ ((op.onBits? x y).map value = none → op = .div ∨ op = .rem) := by
  constructor
  · intro u hu
    obtain ⟨bits, -, rfl⟩ := Option.map_eq_some_iff.mp hu
    exact hvalue bits
  · intro hnone
    have hnone := Option.map_eq_none_iff.mp hnone
    cases op with
    | div => exact .inl rfl
    | rem => exact .inr rfl
    | _ => cases hnone

theorem Prim.kind_ne_reference {p : Prim} (hp : p ∈ computed) : p.kind ≠ .reference := by
  cases p <;> first | decide | exact absurd hp (by decide)

theorem Prim.holds_of_kind {p : Prim} (hp : p ∈ computed) (h : v.kind = p.kind) :
    p.holds v = true := by
  simp only [computed, List.mem_cons, List.not_mem_nil, or_false] at hp
  rcases hp with rfl | rfl | rfl | rfl <;> cases v <;> first | rfl | cases h

namespace Host

variable (host : Host)

/-- Numbers can be converted to every type that arithmetic computes in. -/
theorem exists_convert {source : Ty} {q : Prim} (hsource : source.kind = v.kind)
    (hnumber : v.kind ≠ .reference) (hq : q ∈ Prim.computed) :
    ∃ w, host.convert? (conversion source (.prim q)) v = some w ∧ w.kind = q.kind := by
  unfold conversion
  rw [hsource, Ty.prim?_prim]
  simp only [Prim.computed, List.mem_cons, List.not_mem_nil, or_false] at hq
  cases v with
  | reference => exact absurd rfl hnumber
  | _ =>
    rcases hq with rfl | rfl | rfl | rfl <;> refine ⟨_, rfl, ?_⟩ <;>
      first | rfl | exact host.convert_kind _ _

/-- A number of a promoted type can be converted back. -/
theorem exists_narrow {p q : Prim} (hpromoted : q.promoted? = some p) (hv : v.kind = p.kind) :
    ∃ w, host.convert? (conversion (.prim p) (.prim q)) v = some w ∧ q.holds w = true := by
  unfold conversion
  rw [Ty.kind_prim, Ty.prim?_prim]
  cases q with
  | int | long | float | double =>
    cases hpromoted
    cases v <;> cases hv
    exact ⟨_, rfl, rfl⟩
  | byte =>
    cases hpromoted
    cases v <;> cases hv
    next v =>
      refine ⟨.int v.toInt8.toInt32, rfl, decide_eq_true ?_⟩
      rw [Int8.toInt_toInt32]
      have hlow := Int8.le_toInt v.toInt8
      have hhigh := Int8.toInt_lt v.toInt8
      omega
  | short =>
    cases hpromoted
    cases v <;> cases hv
    next v =>
      refine ⟨.int v.toInt16.toInt32, rfl, decide_eq_true ?_⟩
      rw [Int16.toInt_toInt32]
      have hlow := Int16.le_toInt v.toInt16
      have hhigh := Int16.toInt_lt v.toInt16
      omega
  | char =>
    cases hpromoted
    cases v <;> cases hv
    next v =>
      refine ⟨.int (.ofInt (v.toInt % 65536)), rfl, decide_eq_true ?_⟩
      rw [Int32.toInt_ofInt_of_le (by omega) (by omega)]
      omega
  | boolean | void => cases hpromoted

/-- An operator has a value on operands of its type, but for a division by zero. -/
theorem exists_binary {op : BinaryOp} {p : Prim} {code : OpCode} (hp : p ∈ Prim.computed)
    (hcode : arithmeticOp? op (.prim p) = some code) (hv : v.kind = p.kind)
    (hw : w.kind = if op.isShift then Kind.int else p.kind) :
    ∃ result, host.binary? code v w = some result
      ∧ (∀ u, result = some u → u.kind = p.kind)
      ∧ (result = none → op = .div ∨ op = .rem) := by
  rw [arithmeticOp?_prim] at hcode
  simp only [Prim.computed, List.mem_cons, List.not_mem_nil, or_false] at hp
  rcases hp with rfl | rfl | rfl | rfl
  · cases hcode
    have hint : w.kind = .int := by
      rw [hw]
      split <;> rfl
    cases v <;> cases hv
    cases w <;> cases hint
    have hcode : op.onInt.arithmetic? = some (op, .int) := by cases op <;> rfl
    simp only [binary?, hcode]
    exact ⟨_, rfl, op.onBits?_gives fun _ => rfl⟩
  · cases hcode
    cases v <;> cases hv
    have hcode : op.onLong.arithmetic? = some (op, .long) := by cases op <;> rfl
    cases hshift : op.isShift with
    | true =>
      rw [hshift] at hw
      cases w <;> cases hw
      simp only [binary?, hcode, hshift, if_true]
      exact ⟨_, rfl, op.onBits?_gives fun _ => rfl⟩
    | false =>
      rw [hshift] at hw
      cases w <;> cases hw
      simp only [binary?, hcode, hshift, Bool.false_eq_true, if_false]
      exact ⟨_, rfl, op.onBits?_gives fun _ => rfl⟩
  · cases v <;> cases hv
    cases op <;> cases hcode <;> cases w <;> cases hw <;>
      exact ⟨_, rfl, fun u hu => by cases hu; rfl, fun hnone => by cases hnone⟩
  · cases v <;> cases hv
    cases op <;> cases hcode <;> cases w <;> cases hw <;>
      exact ⟨_, rfl, fun u hu => by cases hu; rfl, fun hnone => by cases hnone⟩

end Host
end ClassCompiler
