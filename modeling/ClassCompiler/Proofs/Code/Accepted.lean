import ClassCompiler.Code.Method
import ClassCompiler.Proofs.Accepted

/-!
# Code of accepted trees

Every look-up of code generation succeeds on accepted trees. So the pieces of code can be written
without the ways to fail: one equation for each piece that looks something up.

* `Expr.Accepted.provenTy`, `Expr.Accepted.exists_place`, `Expr.Accepted.onPlace`
* `ExprCode.binaryValue_eq`, `ExprCode.assignValue_eq`, `ExprCode.incrementValue_eq`, ...
-/

namespace ClassCompiler

variable {ctx : BodyCtx}

/-! ## Types and places -/

theorem Emit.provenTy_eq {e : Expr} {ty : Ty} (hty : e.ty = some ty) (hany : ty ≠ .any) :
    provenTy e = pure ty := by
  unfold provenTy Expr.provenTy
  rw [hty]
  simp only [if_neg hany]
  rfl

namespace Expr.Accepted

variable {e : Expr} {ty : Ty}

theorem provenTy (h : e.Accepted ctx ty) : Emit.provenTy e = pure ty :=
  Emit.provenTy_eq h.ty_eq h.ne_any

theorem exists_place (h : e.Accepted ctx ty) (hplace : e.isAssignable = true) :
    ∃ place, e.place = .ok place := by
  cases h with
  | slot | ownField | field | index => exact ⟨_, rfl⟩
  | _ => cases hplace

theorem onPlace (h : e.Accepted ctx ty) {place : Place} (hplace : e.place = .ok place)
    (step : Ty → Place → Emit Unit) : e.onPlace step = step ty place := by
  unfold Expr.onPlace
  rw [h.provenTy, hplace]
  rfl

end Expr.Accepted

/-- A piece that is there only if the test holds. -/
def Emit.optionally (test : Bool) (piece : Emit Unit) : Emit Unit :=
  if test then piece else pure ()

theorem Emit.ofOption_some {α : Type} {value : Option α} {a : α} (h : value = some a)
    (error : CompileError) : Emit.ofOption value error = pure a := by
  rw [h]
  rfl

namespace ExprCode

/-! ## Operators -/

variable {lhs rhs operand e : Expr} {left right ty : Ty}

theorem appendOnce_eq (h : e.Accepted ctx ty) (value : Emit Unit) :
    appendOnce e value = (do
      value
      Emit.instr (appendValue ty)) := by
  unfold appendOnce
  rw [h.provenTy, pure_bind]

theorem unaryValue_eq {op : UnaryOp} {operandTy : Ty} (h : e.Accepted ctx ty)
    (hoperand : operand.Accepted ctx operandTy) (value : Emit Unit) :
    unaryValue op e operand value = (do
      value
      Emit.ops (conversion operandTy ty)
      (unaryOps op ty).forM Emit.instr) := by
  unfold unaryValue
  rw [h.provenTy, hoperand.provenTy, pure_bind, pure_bind]

theorem binaryValue_eq {op : BinaryOp} {rule : BinaryRule} (hlhs : lhs.Accepted ctx left)
    (hrhs : rhs.Accepted ctx right) (hrule : resolveBinary? op left right = some rule) (line : Nat)
    (l r : Emit Unit) :
    binaryValue op line lhs rhs l r = (do
      l
      Emit.ops rule.left
      r
      Emit.ops rule.right
      Emit.op rule.op) := by
  unfold binaryValue
  rw [hlhs.provenTy, hrhs.provenTy]
  simp only [pure_bind, Emit.ofOption_some hrule]

/-! ## Conditions -/

theorem compareBranch?_isSome (op : CompareOp) {operand : Ty} (h : operand ∈ comparableTypes)
    (onTrue : Bool) : ∃ selected, compareBranch? op operand onTrue = some selected := by
  unfold compareBranch?
  rcases List.mem_pair.mp h with rfl | rfl
  · exact ⟨_, if_pos rfl⟩
  · have hne : Ty.double ≠ Ty.int := fun h => by cases Ty.prim_injective (p := .double) (q := .int) h
    rw [if_neg hne, if_pos rfl]
    exact ⟨_, rfl⟩

theorem compareJump_eq {op : CompareOp} {onTrue : Bool} {selected : BranchTest}
    (hlhs : lhs.Accepted ctx left) (hselected : compareBranch? op left onTrue = some selected)
    (registry : Registry) (l r : Emit Unit) (target : Label) :
    compareJump registry op lhs l r target onTrue = (do
      l
      r
      test selected target) := by
  unfold compareJump
  rw [hlhs.provenTy]
  simp only [pure_bind, Emit.ofOption_some hselected]

/-- The type that both operands of an equality are converted to. -/
def equalityOperand (kind : EqualityKind) (left : Ty) : Ty :=
  match kind with
  | .numeric promoted => promoted
  | _ => left

theorem equalityJump_eq {op : EqualityOp} {kind : EqualityKind} (hlhs : lhs.Accepted ctx left)
    (hrhs : rhs.Accepted ctx right) (hkind : equalityKind? left right = some kind)
    (l r : Emit Unit) (target : Label) (onTrue : Bool) :
    equalityJump op lhs rhs l r target onTrue = (do
      l
      Emit.ops (conversion left (equalityOperand kind left))
      r
      Emit.ops (conversion right (equalityOperand kind left))
      test (equalityBranch kind op onTrue) target) := by
  unfold equalityJump
  rw [hlhs.provenTy, hrhs.provenTy]
  simp only [pure_bind, Emit.ofOption_some hkind]
  rfl

/-! ## Assignments -/

/-- The new value of an assignment. -/
def newValue (registry : Registry) (op : AssignOp) (place : Place) (left right : Ty)
    (r : Emit Unit) : Emit Unit :=
  match op with
  | .plain => r
  | .compound op =>
    if op = .add ∧ left = .string then r
    else do
      place.load registry left
      r
      Emit.ops (conversion right (if op.isShift then .int else left))
      Emit.op ((arithmeticOp? op left).getD .nop)

theorem assignValue_eq {op : AssignOp} {place : Place} (hlhs : lhs.Accepted ctx left)
    (hrhs : rhs.Accepted ctx right) (hplace : lhs.place = .ok place) (hfits : op.Fits left right)
    (registry : Registry) (n : Node) (operands r : Emit Unit) :
    assignValue registry n op lhs rhs operands r = (do
      operands
      newValue registry op place left right r
      Emit.optionally (!n.isStatement) (place.keep left)
      place.store registry left) := by
  unfold assignValue
  simp only [hlhs.onPlace hplace]
  rw [hlhs.provenTy, pure_bind]
  refine congrArg (Bind.bind operands) (funext fun _ => ?_)
  have hkeep : (do
      if n.isStatement then pure () else place.keep left
      place.store registry left) = (do
      Emit.optionally (!n.isStatement) (place.keep left)
      place.store registry left) := by
    unfold Emit.optionally
    cases n.isStatement <;> rfl
  cases op with
  | plain => exact congrArg (Bind.bind r) (funext fun _ => hkeep)
  | compound op =>
    unfold newValue
    dsimp only
    split
    · exact congrArg (Bind.bind r) (funext fun _ => hkeep)
    · next hconcat =>
      rcases hfits with ⟨hadd, hstring, -⟩ | ⟨hleft, -⟩
      · exact absurd ⟨hadd, hstring⟩ hconcat
      · obtain ⟨code, hcode⟩ := arithmeticOp?_isSome hleft
        unfold compoundValue
        rw [hrhs.provenTy]
        simp only [pure_bind, bind_assoc, hlhs.onPlace hplace, hcode]
        rw [← hkeep]
        rfl

/-! ## Increments -/

/-- The type that an increment is computed in, and its instruction. -/
theorem exists_incrementOp {ty : Ty} (hnumeric : ty.isNumeric = true) (op : IncrementOp) :
    ∃ p code, unaryPromotion? ty = some (.prim p)
      ∧ arithmeticOp? (if 0 < op.delta then .add else .sub) (.prim p) = some code := by
  obtain ⟨q, rfl, hq⟩ := Ty.exists_prim_of_any hnumeric
  have hpromoted : ∃ p, q.promoted? = some p ∧ p ∈ Prim.computed := by
    cases q <;> first | exact ⟨_, rfl, by decide⟩ | cases hq
  obtain ⟨p, hp, hmem⟩ := hpromoted
  have hcode : ∀ op : BinaryOp, op = .add ∨ op = .sub →
      ∃ code, arithmeticOp? op (.prim p) = some code := by
    rintro op (rfl | rfl) <;> rw [arithmeticOp?_prim] <;>
      simp only [Prim.computed, List.mem_cons, List.not_mem_nil, or_false] at hmem <;>
      rcases hmem with rfl | rfl | rfl | rfl <;> exact ⟨_, rfl⟩
  obtain ⟨code, hcode⟩ := hcode (if 0 < op.delta then .add else .sub) (by split <;> simp)
  exact ⟨p, code, by rw [unaryPromotion?_prim, hp]; rfl, hcode⟩

theorem incrementLocal_eq (op : IncrementOp) (ty : Ty) (slot : Nat) (keepOld keepNew : Bool) :
    incrementLocal op ty slot keepOld keepNew = (do
      Emit.optionally keepOld (Emit.instr (.load ty slot))
      Emit.instr (.iinc slot op.delta)
      Emit.optionally keepNew (Emit.instr (.load ty slot))) := by
  unfold incrementLocal Emit.optionally
  cases keepOld <;> rfl

theorem incrementPlace_eq {op : IncrementOp} {place : Place} {p : Prim} {code : OpCode}
    (hoperand : operand.Accepted ctx ty) (hplace : operand.place = .ok place)
    (hpromoted : unaryPromotion? ty = some (.prim p))
    (hcode : arithmeticOp? (if 0 < op.delta then .add else .sub) (.prim p) = some code)
    (registry : Registry) (line : Nat) (operands : Emit Unit) (keepOld keepNew : Bool) :
    incrementPlace registry op line operand ty operands keepOld keepNew = (do
      operands
      place.load registry ty
      Emit.optionally keepOld (place.keep ty)
      Emit.instr (.pushOne (.prim p))
      Emit.op code
      Emit.ops (conversion (.prim p) ty)
      Emit.optionally keepNew (place.keep ty)
      place.store registry ty) := by
  unfold incrementPlace Emit.optionally
  simp only [Emit.ofOption_some hpromoted, Emit.ofOption_some hcode, pure_bind,
    hoperand.onPlace hplace]
  cases keepOld <;> cases keepNew <;> rfl

/-- The slot of an `int` local, which has an instruction of its own. -/
def intSlot? (ty : Ty) : Place → Option Nat
  | .slot index => if ty = .int then some index else none
  | _ => none

theorem incrementValue_eq {place : Place} (hoperand : operand.Accepted ctx ty)
    (hplace : operand.place = .ok place) (registry : Registry) (n : Node) (op : IncrementOp)
    (operands : Emit Unit) :
    incrementValue registry n op operand operands =
      match intSlot? ty place with
      | some slot =>
        incrementLocal op ty slot (!n.isStatement && !op.isPre) (!n.isStatement && op.isPre)
      | none =>
        incrementPlace registry op n.line operand ty operands (!n.isStatement && !op.isPre)
          (!n.isStatement && op.isPre) := by
  unfold incrementValue
  rw [hoperand.provenTy, pure_bind]
  cases hoperand with
  | slot =>
    cases hplace
    unfold intSlot?
    dsimp only
    split <;> rfl
  | @ownField _ _ ref =>
    cases hplace
    cases ref.isStatic <;> rfl
  | field | index =>
    cases hplace
    rfl
  | _ => cases hplace

/-! ## Calls -/

theorem callValue_eq (registry : Registry) (n : Node) (text : String) (method : MethodRef)
    (target : Option (Emit Unit)) (args : Emit Unit) :
    callValue registry n text (some method) target args = (do
      Emit.optionally (!method.isStatic) (target.getD (Emit.op .aload0))
      args
      Emit.instr (.member (invokeOp method) (registry.internalName method.owner) text
        method.descriptor)) := by
  unfold callValue Emit.optionally
  dsimp only
  cases method.isStatic <;> rfl

theorem code_call (registry : Registry) (n : Node) (target : Option Expr) (text : String)
    (args : List Expr) (method : Option MethodRef) :
    (Expr.call n target text args method).code registry
      = ofValue (.call n target text args method) (callValue registry n text method
          (target.map fun e => (e.code registry).value) (Expr.argsCode registry args)) := by
  conv => lhs; unfold Expr.code
  cases target <;> rfl

end ExprCode

end ClassCompiler
