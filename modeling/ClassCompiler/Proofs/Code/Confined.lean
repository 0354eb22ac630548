import ClassCompiler.Code.Stmt
import ClassCompiler.Proofs.Code.Accepted
import ClassCompiler.Proofs.Code.Instructions
import ClassCompiler.Proofs.Machine.Slots
import ClassCompiler.Proofs.Tree.Nodes

/-!
# What the code of an expression reads

The slots that an expression names are all that its code reads, and its jumps go to the given target
or to labels of its own. This needs no acceptance: a piece that cannot be generated has fewer
instructions.

* `Expr.slotRead?`: the slot that a node reads by itself
* `Expr.Reads`: all slots that an expression reads are in a set
* `Expr.code_confined`
-/

namespace ClassCompiler

open Emit

/-! ## Slots of an expression -/

namespace Expr

/-- The slot that a node reads by itself. The receiver of the method is in slot zero. -/
def slotRead? : Expr → Option Nat
  | name _ _ (some (.slot slot)) => some slot
  | name _ _ (some (.field ref)) => if ref.isStatic then none else some 0
  | self _ => some 0
  | call _ none _ _ (some method) => if method.isStatic then none else some 0
  | _ => none

/-- Whatever the expression reads is in the set. -/
def Reads (S : Set Nat) (e : Expr) : Prop :=
  ∀ d ∈ e.nodes, ∀ slot, d.slotRead? = some slot → slot ∈ S

variable {S : Set Nat} {e c : Expr}

theorem Reads.child (h : e.Reads S) (hc : c ∈ e.children) : c.Reads S :=
  fun d hd => h d (mem_nodes.mpr (.inr ⟨c, hc, hd⟩))

theorem Reads.self (h : e.Reads S) {slot : Nat} (hslot : e.slotRead? = some slot) : slot ∈ S :=
  h e (mem_nodes_self e) slot hslot

theorem reads_of_children (hself : ∀ slot, e.slotRead? = some slot → slot ∈ S)
    (h : ∀ c ∈ e.children, c.Reads S) : e.Reads S := by
  intro d hd
  rcases mem_nodes.mp hd with rfl | ⟨c, hc, hd⟩
  · exact hself
  · exact h c hc d hd

theorem slotRead?_withNode (n : Node) (e : Expr) : (e.withNode n).slotRead? = e.slotRead? := by
  cases e with
  | name _ _ binding => rcases binding with _ | _ | _ <;> rfl
  | call _ target _ _ method => cases target <;> cases method <;> rfl
  | _ => rfl

theorem Reads.withNode (h : e.Reads S) (n : Node) : (e.withNode n).Reads S := by
  refine reads_of_children (fun slot hread => h.self (slotRead?_withNode n e ▸ hread)) fun c hc => ?_
  rw [children_withNode] at hc
  exact h.child hc

theorem reads_univ (e : Expr) : e.Reads Set.univ := fun _ _ _ _ => trivial

end Expr

/-! ## Instructions -/

/-- The instruction uses no slot and does not jump. -/
def Instr.isInert : Instr → Bool
  | branch .. => false
  | i => i.access?.isNone

namespace Emit

variable {S : Set Nat} {targets : List Label}

theorem confined_inert {i : Instr} (h : i.isInert = true) : (instr i).Confined S targets := by
  unfold Instr.isInert at h
  split at h
  · cases h
  · next hjump =>
    exact confined_instr (Instr.readsStored_of_access (Option.isNone_iff_eq_none.mp h))
      fun op target heq => (hjump op target heq).elim

theorem confined_access {i : Instr} {access : Access} (h : i.access? = some access)
    (hread : access.mode ≠ .store → access.slot ∈ S) : (instr i).Confined S targets := by
  refine confined_instr (fun found hfound hmode => ?_) fun op target heq => ?_
  · rw [h] at hfound
    cases hfound
    exact hread hmode
  · rw [heq] at h
    cases h

theorem confined_load {ty : Ty} {slot : Nat} (h : slot ∈ S) :
    (instr (.load ty slot)).Confined S targets := confined_access (Instr.access?_load ty slot) fun _ => h

theorem confined_store (ty : Ty) (slot : Nat) : (instr (.store ty slot)).Confined S targets :=
  confined_access (Instr.access?_store ty slot) fun hmode => (hmode rfl).elim

theorem confined_receiver (h : 0 ∈ S) : (Emit.op .aload0).Confined S targets :=
  confined_access (show (Instr.noArg .aload0).access? = some ⟨.load, .reference, 0⟩ from rfl)
    fun _ => h

theorem confined_provenTy (e : Expr) : (provenTy e).Confined S targets := confined_ofExcept _

theorem confined_conversion (source target : Ty) :
    (ops (conversion source target)).Confined S targets := by
  refine confined_ops ?_
  unfold conversion
  generalize source.kind = kind
  generalize target.prim? = prim
  cases prim with
  | none => cases kind <;> decide
  | some p => cases kind <;> cases p <;> decide

end Emit

/-- Arithmetic is on the stack alone. -/
theorem shortAccess?_arithmeticOp? {op : BinaryOp} {ty : Ty} {code : OpCode}
    (h : arithmeticOp? op ty = some code) : code.shortAccess? = none := by
  unfold arithmeticOp? at h
  split at h <;> cases op <;> cases h <;> rfl

theorem BinaryRule.shortAccess? {op : BinaryOp} {left right : Ty} {rule : BinaryRule}
    (h : resolveBinary? op left right = some rule) : rule.op.shortAccess? = none := by
  rcases resolveBinary?_eq_some h with ⟨-, -, rfl⟩ | ⟨_, _, -, -, -, hcode, rfl⟩
    | ⟨_, _, -, -, hcode, rfl⟩
  · cases op <;> rfl
  · exact shortAccess?_arithmeticOp? hcode
  · exact shortAccess?_arithmeticOp? hcode

/-- What follows a failure is not part of the piece. -/
theorem Emit.confined_ofOption_bind {α β : Type} {S : Set Nat} {targets : List Label}
    {value : Option α} {error : CompileError} {rest : α → Emit β}
    (h : ∀ a, value = some a → (rest a).Confined S targets) :
    (ofOption value error >>= rest).Confined S targets := by
  cases value with
  | none => exact confined_nil fun _ => ⟨rfl, rfl⟩
  | some a =>
    rw [show ofOption (some a) error = pure a from rfl, Emit.pure_bind]
    exact h a rfl

/-! ## Places -/

section

variable {S : Set Nat} {targets : List Label} (registry : Registry)

theorem confined_field (op : OpCode) (ref : FieldRef) (name : String) :
    (Emit.field registry op ref name).Confined S targets := confined_member _ _ _ _

theorem Place.load_confined (ty : Ty) {place : Place}
    (h : ∀ slot, place = .slot slot → slot ∈ S) : (place.load registry ty).Confined S targets := by
  cases place with
  | slot index => exact confined_load (h index rfl)
  | static ref name => exact confined_field registry _ _ _
  | member ref name => exact confined_bind (confined_op rfl) fun _ => confined_field registry _ _ _
  | element =>
    refine confined_bind (confined_op rfl) fun _ => confined_inert ?_
    unfold Instr.arrayLoad
    split <;> rfl

theorem Place.keep_confined (ty : Ty) (place : Place) : (place.keep ty).Confined S targets := by
  have hdup : ∀ p : Prop, [Decidable p] → ∀ one two : OpCode, one.shortAccess? = none →
      two.shortAccess? = none → (Emit.op (if p then one else two)).Confined S targets := by
    intro p _ one two hone htwo
    split
    · exact confined_op hone
    · exact confined_op htwo
  cases place <;> exact hdup _ _ _ rfl rfl

theorem Place.store_confined (ty : Ty) (place : Place) :
    (place.store registry ty).Confined S targets := by
  cases place with
  | slot index => exact confined_store ty index
  | static ref name | member ref name => exact confined_field registry _ _ _
  | element =>
    refine confined_inert ?_
    unfold Instr.arrayStore
    split <;> rfl

theorem Expr.slotRead?_of_place {target : Expr} {slot : Nat}
    (h : target.place = .ok (.slot slot)) : target.slotRead? = some slot := by
  unfold Expr.place at h
  split at h
  · cases h
    rfl
  · next ref =>
    split at h <;> cases h
  · cases h
  · cases h
  · cases h
  · cases h
  · cases h

/-- A step on a place reads no more than the expression that denotes the place. -/
theorem Expr.confined_onPlace {target : Expr} (h : target.Reads S) {step : Ty → Place → Emit Unit}
    (hstep : ∀ ty place, (∀ slot, place = .slot slot → slot ∈ S) →
      (step ty place).Confined S targets) : (target.onPlace step).Confined S targets := by
  refine confined_bind (confined_provenTy target) fun ty => ?_
  cases hplace : target.place with
  | error e => exact confined_nil fun _ => ⟨rfl, rfl⟩
  | ok place =>
    rw [show ofExcept (.ok place) = pure place from rfl, Emit.pure_bind]
    refine hstep ty place fun slot hslot => ?_
    subst hslot
    exact h.self (slotRead?_of_place hplace)

end

/-! ## Parts of an expression -/

/-- All uses of an expression are confined. -/
structure ExprCode.Confined (S : Set Nat) (code : ExprCode) : Prop where
  value : code.value.Confined S []
  branch : ∀ target onTrue, (code.branch target onTrue).Confined S [target]
  operands : code.operands.Confined S []
  append : code.append.Confined S []

namespace ExprCode

variable {S : Set Nat}

theorem confined_branchOnValue {value : Emit Unit} (h : value.Confined S []) (target : Label)
    (onTrue : Bool) : (branchOnValue value target onTrue).Confined S [target] :=
  confined_bind (h.widen (List.nil_subset _)) fun _ => confined_branch List.mem_cons_self

theorem confined_valueOfBranch {branch : Label → Bool → Emit Unit}
    (h : ∀ target onTrue, (branch target onTrue).Confined S [target]) :
    (valueOfBranch branch).Confined S [] :=
  confined_newLabel fun onFalse => confined_newLabel fun _ =>
    confined_bind ((h onFalse false).widen (List.subset_cons_self _ _)) fun _ =>
    confined_bind (confined_op rfl) fun _ => confined_bind (confined_goto List.mem_cons_self) fun _ =>
    confined_bind (confined_place _) fun _ => confined_bind (confined_op rfl) fun _ =>
    confined_place _

theorem confined_appendOnce (e : Expr) {value : Emit Unit} (h : value.Confined S []) :
    (appendOnce e value).Confined S [] :=
  confined_bind (confined_provenTy e) fun _ => confined_bind h fun _ => confined_inert rfl

theorem confined_ofValue (e : Expr) {value : Emit Unit} (h : value.Confined S []) :
    (ofValue e value).Confined S :=
  ⟨h, confined_branchOnValue h, confined_fail _, confined_appendOnce e h⟩

theorem confined_ofPlace (e : Expr) {operands value : Emit Unit} (ho : operands.Confined S [])
    (h : value.Confined S []) : (ofPlace e operands value).Confined S :=
  ⟨h, confined_branchOnValue h, ho, confined_appendOnce e h⟩

theorem confined_ofBranch (e : Expr) {branch : Label → Bool → Emit Unit}
    (h : ∀ target onTrue, (branch target onTrue).Confined S [target]) :
    (ofBranch e branch).Confined S :=
  ⟨confined_valueOfBranch h, h, confined_fail _, confined_appendOnce e (confined_valueOfBranch h)⟩

theorem confined_concatValue {parts : Emit Unit} (h : parts.Confined S []) :
    (concatValue parts).Confined S [] :=
  confined_bind (confined_inert rfl) fun _ => confined_bind (confined_op rfl) fun _ =>
    confined_bind (confined_inert rfl) fun _ => confined_bind h fun _ => confined_inert rfl

theorem isInert_literalInstr (value : Literal) : (literalInstr value).isInert = true := by
  have hite : ∀ (p : Prop) [Decidable p] {one two : Instr}, one.isInert = true →
      two.isInert = true → (if p then one else two).isInert = true := by
    intro p _ one two hone htwo
    exact if h : p then (if_pos h).symm ▸ hone else (if_neg h).symm ▸ htwo
  have hint : ∀ v, (Instr.pushInt v).isInert = true := fun v =>
    hite _ rfl (hite _ rfl (hite _ rfl (hite _ rfl (hite _ rfl (hite _ rfl (hite _ rfl
      (hite _ rfl (hite _ rfl rfl))))))))
  cases value with
  | int | bool | char => exact hint _
  | long => exact hite _ rfl (hite _ rfl rfl)
  | float => exact hite _ rfl (hite _ rfl (hite _ rfl rfl))
  | double => exact hite _ rfl (hite _ rfl rfl)
  | string | null => rfl

theorem confined_unaryValue (op : UnaryOp) (e operand : Expr) {value : Emit Unit}
    (h : value.Confined S []) : (unaryValue op e operand value).Confined S [] := by
  refine confined_bind (confined_provenTy _) fun operandTy => confined_bind (confined_provenTy _)
    fun ty => confined_bind h fun _ => confined_bind (confined_conversion _ _) fun _ =>
    confined_forM fun i hi => confined_inert ?_
  unfold unaryOps at hi
  split at hi
  · exact absurd hi List.not_mem_nil
  · rw [List.mem_singleton.mp hi]
    split <;> rfl
  · split at hi <;> rcases List.mem_pair.mp hi with rfl | rfl <;> rfl

theorem confined_binaryValue (op : BinaryOp) (line : Nat) (lhs rhs : Expr) {left right : Emit Unit}
    (hl : left.Confined S []) (hr : right.Confined S []) :
    (binaryValue op line lhs rhs left right).Confined S [] := by
  refine confined_bind (confined_provenTy _) fun leftTy => confined_bind (confined_provenTy _)
    fun rightTy => confined_ofOption_bind fun rule hrule => ?_
  have hconversions : (ops rule.left).Confined S [] ∧ (ops rule.right).Confined S [] := by
    rcases resolveBinary?_eq_some hrule with ⟨-, -, rfl⟩ | ⟨_, _, -, -, -, -, rfl⟩
      | ⟨_, _, -, -, -, rfl⟩
    · exact ⟨confined_ops fun _ h => (List.not_mem_nil h).elim,
        confined_ops fun _ h => (List.not_mem_nil h).elim⟩
    · exact ⟨confined_conversion _ _, confined_conversion _ _⟩
    · exact ⟨confined_conversion _ _, confined_conversion _ _⟩
  exact confined_bind hl fun _ => confined_bind hconversions.1 fun _ => confined_bind hr fun _ =>
    confined_bind hconversions.2 fun _ => confined_op (BinaryRule.shortAccess? hrule)

theorem confined_test {selected : BranchTest} {target : Label}
    (h : ∀ op, selected.compare = some op → op.shortAccess? = none) :
    (test selected target).Confined S [target] :=
  confined_bind (confined_ops fun op hop => h op (Option.mem_toList.mp hop)) fun _ =>
    confined_branch List.mem_cons_self

theorem confined_compareJump (registry : Registry) (op : CompareOp) (lhs : Expr)
    {left right : Emit Unit} (hl : left.Confined S []) (hr : right.Confined S []) (target : Label)
    (onTrue : Bool) : (compareJump registry op lhs left right target onTrue).Confined S [target] := by
  refine confined_bind (confined_provenTy _) fun operand => confined_ofOption_bind
    fun selected hselected => confined_bind (hl.widen (List.nil_subset _)) fun _ =>
    confined_bind (hr.widen (List.nil_subset _)) fun _ => confined_test fun code hcode => ?_
  unfold compareBranch? at hselected
  dsimp only at hselected
  split at hselected
  · cases hselected
    cases hcode
  · split at hselected
    · cases hselected
      cases hcode
      cases op <;> rfl
    · cases hselected

theorem confined_equalityJump (op : EqualityOp) (lhs rhs : Expr) {left right : Emit Unit}
    (hl : left.Confined S []) (hr : right.Confined S []) (target : Label) (onTrue : Bool) :
    (equalityJump op lhs rhs left right target onTrue).Confined S [target] := by
  refine confined_bind (confined_provenTy _) fun leftTy => confined_bind (confined_provenTy _)
    fun rightTy => confined_bind (confined_ofOption _ _) fun kind =>
    confined_bind (hl.widen (List.nil_subset _)) fun _ =>
    confined_bind (confined_conversion _ _) fun _ =>
    confined_bind (hr.widen (List.nil_subset _)) fun _ =>
    confined_bind (confined_conversion _ _) fun _ => confined_test fun code hcode => ?_
  unfold equalityBranch EqualityKind.forms at hcode
  cases kind with
  | boolean | reference => cases hcode
  | numeric ty =>
    dsimp only at hcode
    split at hcode
    · cases hcode
    · split at hcode
      · cases hcode
        rfl
      · split at hcode <;> cases hcode <;> rfl

theorem confined_logicalJump (op : LogicalOp) {left right : Label → Bool → Emit Unit}
    (hl : ∀ target onTrue, (left target onTrue).Confined S [target])
    (hr : ∀ target onTrue, (right target onTrue).Confined S [target]) (target : Label)
    (onTrue : Bool) : (logicalJump op left right target onTrue).Confined S [target] := by
  unfold logicalJump
  refine confined_ite (fun _ => confined_bind (hl _ _) fun _ => hr _ _) fun _ =>
    confined_newLabel fun skip => confined_bind ((hl skip _).widen ?_) fun _ =>
    confined_bind ((hr target _).widen (List.subset_cons_self _ _)) fun _ => confined_place _
  exact List.cons_subset.mpr ⟨List.mem_cons_self, List.nil_subset _⟩

theorem confined_callValue (registry : Registry) (n : Node) (text : String)
    (method : Option MethodRef) {target : Option (Emit Unit)} {args : Emit Unit}
    (htarget : ∀ piece, target = some piece → piece.Confined S [])
    (hthis : ∀ found, method = some found → target = none → found.isStatic = false → 0 ∈ S)
    (hargs : args.Confined S []) : (callValue registry n text method target args).Confined S [] := by
  cases method with
  | none => exact confined_fail _
  | some method =>
    rw [callValue_eq]
    refine confined_bind (confined_ite (fun hinstance => ?_) fun _ => confined_pure _) fun _ =>
      confined_bind hargs fun _ => confined_member _ _ _ _
    cases target with
    | none => exact confined_receiver (hthis method rfl rfl (by simpa using hinstance))
    | some piece => exact htarget piece rfl

theorem confined_assignValue (registry : Registry) (n : Node) (op : AssignOp) {lhs : Expr}
    (rhs : Expr) {operands right : Emit Unit} (hlhs : lhs.Reads S) (ho : operands.Confined S [])
    (hr : right.Confined S []) :
    (assignValue registry n op lhs rhs operands right).Confined S [] := by
  have hplace : ∀ step : Ty → Place → Emit Unit, (∀ ty place,
      (∀ slot, place = .slot slot → slot ∈ S) → (step ty place).Confined S []) →
      (lhs.onPlace step).Confined S [] := fun _ h => Expr.confined_onPlace hlhs h
  have hstore := hplace _ fun ty place _ => place.store_confined registry ty
  have hkept := confined_bind (hplace _ fun ty place _ => place.keep_confined ty) fun _ => hstore
  have hlast := confined_ite (p := n.isStatement = true) (fun _ => hstore) fun _ => hkept
  refine confined_bind (confined_provenTy _) fun left => confined_bind ho fun _ => ?_
  dsimp only
  cases op with
  | plain => exact confined_bind hr fun _ => hlast
  | compound op =>
    refine confined_ite (fun _ => confined_bind hr fun _ => hlast) fun _ =>
      confined_bind ?_ fun _ => hlast
    exact confined_bind (confined_provenTy _) fun _ => confined_ofOption_bind fun code hcode =>
      confined_bind (hplace _ fun ty place h => Place.load_confined registry ty h) fun _ =>
      confined_bind hr fun _ => confined_bind (confined_conversion _ _) fun _ =>
      confined_op (shortAccess?_arithmeticOp? hcode)

theorem confined_incrementLocal (op : IncrementOp) (ty : Ty) {slot : Nat} (h : slot ∈ S)
    (keepOld keepNew : Bool) : (incrementLocal op ty slot keepOld keepNew).Confined S [] := by
  rw [incrementLocal_eq]
  exact confined_bind (confined_ite (fun _ => confined_load h) fun _ => confined_pure _) fun _ =>
    confined_bind (confined_access (show (Instr.iinc slot op.delta).access? =
      some ⟨.step, .int, slot⟩ from rfl) fun _ => h) fun _ =>
    confined_ite (fun _ => confined_load h) fun _ => confined_pure _

theorem confined_incrementPlace (registry : Registry) (op : IncrementOp) (line : Nat)
    {target : Expr} (ty : Ty) {operands : Emit Unit} (htarget : target.Reads S)
    (ho : operands.Confined S []) (keepOld keepNew : Bool) :
    (incrementPlace registry op line target ty operands keepOld keepNew).Confined S [] := by
  have hplace : ∀ step : Ty → Place → Emit Unit, (∀ ty place,
      (∀ slot, place = .slot slot → slot ∈ S) → (step ty place).Confined S []) →
      (target.onPlace step).Confined S [] := fun _ h => Expr.confined_onPlace htarget h
  have hstore := hplace _ fun ty place _ => place.store_confined registry ty
  have hkeep {rest : Emit Unit} (keep : Bool) (hrest : rest.Confined S []) :=
    confined_ite (p := keep = true)
      (fun _ => confined_bind (hplace _ fun ty place _ => place.keep_confined ty) fun _ => hrest)
      fun _ => hrest
  refine confined_bind (confined_ofOption _ _) fun promoted => confined_ofOption_bind
    fun code hcode => confined_bind ho fun _ =>
    confined_bind (hplace _ fun ty place h => Place.load_confined registry ty h) fun _ => ?_
  refine hkeep keepOld (confined_bind (confined_inert ?_) fun _ =>
    confined_bind (confined_op (shortAccess?_arithmeticOp? hcode)) fun _ =>
    confined_bind (confined_conversion _ _) fun _ => hkeep keepNew hstore)
  unfold Instr.pushOne
  generalize promoted.kind = kind
  cases kind <;> rfl

theorem confined_incrementValue (registry : Registry) (n : Node) (op : IncrementOp)
    {target : Expr} {operands : Emit Unit} (htarget : target.Reads S)
    (ho : operands.Confined S []) : (incrementValue registry n op target operands).Confined S [] := by
  refine confined_bind (confined_provenTy _) fun ty => ?_
  have hother := confined_incrementPlace registry op n.line ty htarget ho
    (!n.isStatement && !op.isPre) (!n.isStatement && op.isPre)
  dsimp only
  split
  · exact confined_ite (fun _ => confined_incrementLocal op ty (htarget.self rfl) _ _) fun _ => hother
  · exact hother

end ExprCode

/-! ## Expressions -/

open ExprCode

theorem Expr.code_confined (registry : Registry) {S : Set Nat} (e : Expr) (h : e.Reads S) :
    (e.code registry).Confined S := by
  induction e using Expr.induction with
  | literal n value =>
    have hvalue := confined_ofValue (.literal n value) (confined_inert (S := S) (isInert_literalInstr value))
    cases value with
    | bool value =>
      refine ⟨hvalue.value, fun target onTrue => ?_, hvalue.operands, hvalue.append⟩
      exact confined_ite (fun _ => confined_goto List.mem_cons_self) fun _ => confined_pure _
    | _ => exact hvalue
  | name n text binding =>
    refine confined_ofPlace _ ?_ ?_
    · unfold nameOperands
      split
      · exact confined_pure _
      · next ref =>
        refine confined_ite (fun _ => confined_pure _) fun hstatic => confined_receiver ?_
        exact h.self (if_neg hstatic)
      · exact confined_fail _
    · unfold nameValue
      split
      · exact confined_bind (confined_provenTy _) fun _ => confined_load (h.self rfl)
      · next ref =>
        refine confined_ite (fun _ => confined_field registry _ _ _) fun hstatic =>
          confined_bind (confined_receiver ?_) fun _ => confined_field registry _ _ _
        exact h.self (if_neg hstatic)
      · exact confined_fail _
  | self n => exact confined_ofValue _ (confined_receiver (h.self rfl))
  | field n target text ref ih =>
    have htarget := (ih (h.child List.mem_cons_self)).value
    refine confined_ofPlace _ ?_ ?_
    · unfold fieldOperands
      split
      · exact htarget
      · exact confined_fail _
    · unfold fieldValue
      split
      · exact confined_bind htarget fun _ => confined_field registry _ _ _
      · exact confined_fail _
  | index n array position iharray ihposition =>
    have hoperands := confined_bind (iharray (h.child List.mem_cons_self)).value fun _ =>
      (ihposition (h.child (List.mem_cons_of_mem _ List.mem_cons_self))).value
    refine confined_ofPlace _ hoperands (confined_bind (confined_provenTy _) fun element =>
      confined_bind hoperands fun _ => confined_inert ?_)
    unfold Instr.arrayLoad
    split <;> rfl
  | length n array ih =>
    exact confined_ofValue _ (confined_bind (ih (h.child List.mem_cons_self)).value fun _ =>
      confined_op rfl)
  | unary n op operand ih =>
    exact confined_ofValue _ (confined_unaryValue op _ operand (ih (h.child List.mem_cons_self)).value)
  | not n operand ih =>
    exact confined_ofBranch _ fun target onTrue =>
      (ih (h.child List.mem_cons_self)).branch target (!onTrue)
  | binary n op lhs rhs ihl ihr =>
    exact confined_ofValue _ (confined_binaryValue op n.line lhs rhs
      (ihl (h.child List.mem_cons_self)).value
      (ihr (h.child (List.mem_cons_of_mem _ List.mem_cons_self))).value)
  | compare n op lhs rhs ihl ihr =>
    exact confined_ofBranch _ (confined_compareJump registry op lhs
      (ihl (h.child List.mem_cons_self)).value
      (ihr (h.child (List.mem_cons_of_mem _ List.mem_cons_self))).value)
  | equality n op lhs rhs ihl ihr =>
    exact confined_ofBranch _ (confined_equalityJump op lhs rhs
      (ihl (h.child List.mem_cons_self)).value
      (ihr (h.child (List.mem_cons_of_mem _ List.mem_cons_self))).value)
  | logical n op lhs rhs ihl ihr =>
    exact confined_ofBranch _ (confined_logicalJump op
      (ihl (h.child List.mem_cons_self)).branch
      (ihr (h.child (List.mem_cons_of_mem _ List.mem_cons_self))).branch)
  | concat n lhs rhs ihl ihr =>
    have hparts := confined_bind (ihl (h.child List.mem_cons_self)).append fun _ =>
      (ihr (h.child (List.mem_cons_of_mem _ List.mem_cons_self))).append
    have hvalue := confined_concatValue hparts
    exact ⟨hvalue, confined_branchOnValue hvalue, confined_fail _, hparts⟩
  | assign n op lhs rhs ihl ihr =>
    have hlhs := h.child List.mem_cons_self
    exact confined_ofValue _ (confined_assignValue registry n op rhs hlhs (ihl hlhs).operands
      (ihr (h.child (List.mem_cons_of_mem _ List.mem_cons_self))).value)
  | increment n op operand ih =>
    have hoperand := h.child List.mem_cons_self
    exact confined_ofValue _ (confined_incrementValue registry n op hoperand (ih hoperand).operands)
  | call n target text args method ihtarget ihargs =>
    have hargs : (argsCode registry args).Confined S [] := by
      have hchild : ∀ a ∈ args, (a.code registry).Confined S := fun a ha =>
        ihargs a ha (h.child (List.mem_append_right _ ha))
      clear h ihargs ihtarget
      induction args with
      | nil => exact confined_pure _
      | cons first rest ih =>
        exact confined_bind (hchild first List.mem_cons_self).value fun _ =>
          ih fun a ha => hchild a (List.mem_cons_of_mem _ ha)
    rw [code_call]
    refine confined_ofValue _ (confined_callValue registry n text method ?_ ?_ hargs)
    · intro piece hpiece
      obtain ⟨t, ht, rfl⟩ := Option.map_eq_some_iff.mp hpiece
      exact (ihtarget t ht (h.child (List.mem_append_left _ (Option.mem_toList.mpr ht)))).value
    · rintro found rfl hnone hstatic
      obtain rfl : target = none := Option.map_eq_none_iff.mp hnone
      exact h.self (if_neg (by rw [hstatic]; decide))

/-! ## Statements -/

section

variable (env : CodeEnv) {S : Set Nat}

theorem Expr.statementCode_confined {e : Expr} (h : e.Reads S) :
    (e.statementCode env).Confined S [] := by
  refine confined_bind (e.code_confined env.registry h).value fun _ => ?_
  cases e with
  | call =>
    refine confined_bind (confined_provenTy _) fun ty => confined_forM fun i hi =>
      confined_inert ?_
    unfold Instr.pop? at hi
    split at hi
    · exact (List.not_mem_nil hi).elim
    · rw [List.mem_singleton.mp hi]
      split <;> rfl
  | _ => exact confined_pure _

end

end ClassCompiler
