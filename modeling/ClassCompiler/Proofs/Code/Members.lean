import ClassCompiler.Code.Method
import ClassCompiler.Proofs.Code.Success
import ClassCompiler.Proofs.Tree.Nodes

/-!
# Members that code names

An instruction names a member for one of two reasons: a node of the tree is bound to the member, or
a concatenation works on its string builder. What is put between these instructions names nothing.
This needs no acceptance, as a piece that cannot be generated has fewer instructions.

* `MemberUse`: what an instruction says of a member
* `Expr.uses`: the uses that a node is the reason for
* `Expr.code_names`, `MethodDecl.bodyCode_names`
-/

namespace ClassCompiler

open Emit

/-! ## Uses of members -/

/-- What an instruction says of a member. -/
structure MemberUse where
  op : OpCode
  owner : String
  name : String
  descriptor : String
  deriving DecidableEq, Inhabited

def Instr.use? : Instr → Option MemberUse
  | member op owner name descriptor => some ⟨op, owner, name, descriptor⟩
  | _ => none

/-- An access to a field, to read it or to write it. -/
def FieldRef.use (registry : Registry) (op : OpCode) (name : String) (ref : FieldRef) : MemberUse :=
  ⟨op, registry.internalName ref.owner, name, registry.descriptor ref.ty⟩

def MethodRef.use (registry : Registry) (name : String) (method : MethodRef) : MemberUse :=
  ⟨ExprCode.invokeOp method, registry.internalName method.owner, name, method.descriptor⟩

/-- The accesses to a place. -/
def Place.uses (registry : Registry) : Place → List MemberUse
  | static ref name => [ref.use registry .getstatic name, ref.use registry .putstatic name]
  | member ref name => [ref.use registry .getfield name, ref.use registry .putfield name]
  | slot _ | element => []

/-- The uses that a node is the reason for. -/
def Expr.uses (registry : Registry) : Expr → List MemberUse
  | call _ _ text _ (some method) => [method.use registry text]
  | e =>
    match e.place with
    | .ok place => place.uses registry
    | .error _ => []

/-- The calls on the string builder of a concatenation. -/
def builderUses : List MemberUse :=
  ⟨.invokespecial, ExprCode.builderName, "<init>", "()V"⟩
    :: ⟨.invokevirtual, ExprCode.builderName, "toString", "()Ljava/lang/String;"⟩
    :: ["I", "C", "Z", "J", "F", "D", "Ljava/lang/String;", "Ljava/lang/Object;"].map fun param =>
      ⟨.invokevirtual, ExprCode.builderName, "append",
        "(" ++ param ++ ")Ljava/lang/StringBuilder;"⟩

theorem appendValue_mem_builderUses (ty : Ty) : ∀ use,
    (ExprCode.appendValue ty).use? = some use → use ∈ builderUses := by
  have hparam : ExprCode.appendParam ty
      ∈ ["I", "C", "Z", "J", "F", "D", "Ljava/lang/String;", "Ljava/lang/Object;"] := by
    unfold ExprCode.appendParam
    split
    all_goals first | decide | (split <;> decide)
  intro use huse
  cases huse
  exact List.mem_cons_of_mem _ (List.mem_cons_of_mem _
    (List.mem_map_of_mem (f := fun param => (⟨.invokevirtual, ExprCode.builderName, "append",
      "(" ++ param ++ ")Ljava/lang/StringBuilder;"⟩ : MemberUse)) hparam))

/-! ## Pieces -/

namespace Emit

variable {α β : Type} {U : MemberUse → Prop}

/-- The code of the piece names nothing but the given uses. -/
def Names (U : MemberUse → Prop) (piece : Emit α) : Prop :=
  ∀ next, ∀ i ∈ (piece.run next).code, ∀ use, i.use? = some use → U use

theorem names_nil {piece : Emit α} (h : ∀ next, (piece.run next).code = []) : piece.Names U := by
  intro next i hi
  rw [h] at hi
  exact (List.not_mem_nil hi).elim

theorem names_pure (a : α) : (pure a : Emit α).Names U := names_nil fun _ => rfl

theorem names_fail (error : CompileError) : (fail error : Emit α).Names U := names_nil fun _ => rfl

theorem names_ofExcept (result : Except CompileError α) : (ofExcept result).Names U :=
  names_nil fun _ => rfl

theorem names_ofOption (value : Option α) (error : CompileError) :
    (ofOption value error).Names U := by
  cases value <;> exact names_nil fun _ => rfl

theorem names_newLabel : newLabel.Names U := names_nil fun _ => rfl

theorem names_instr {i : Instr} (h : ∀ use, i.use? = some use → U use) : (instr i).Names U := by
  intro next j hj
  rw [List.mem_singleton.mp hj]
  exact h

theorem names_plain {i : Instr} (h : i.use? = none) : (instr i).Names U := by
  refine names_instr fun use huse => ?_
  rw [h] at huse
  cases huse

theorem names_op (code : OpCode) : (op code).Names U := names_plain rfl

theorem names_ops (codes : List OpCode) : (ops codes).Names U := by
  intro next i hi use huse
  obtain ⟨code, -, rfl⟩ := List.mem_map.mp hi
  cases huse

theorem names_place (label : Label) : (place label).Names U := names_plain rfl

theorem names_goto (target : Label) : (goto target).Names U := names_plain rfl

theorem names_bind {first : Emit α} {rest : α → Emit β} (h : first.Names U)
    (hrest : ∀ a, (rest a).Names U) : (first >>= rest).Names U := by
  intro next i hi
  cases hfirst : (first.run next).result with
  | error error =>
    rw [run_bind_error hfirst] at hi
    exact h next i hi
  | ok a =>
    rw [run_bind_ok hfirst] at hi
    rcases List.mem_append.mp hi with hi | hi
    · exact h next i hi
    · exact hrest a _ i hi

theorem names_ite {p : Prop} [Decidable p] {one two : Emit α} (h : one.Names U)
    (h' : two.Names U) : (if p then one else two).Names U := by
  split
  · exact h
  · exact h'

theorem names_forM {items : List β} {step : β → Emit PUnit} (h : ∀ b ∈ items, (step b).Names U) :
    (items.forM step).Names U := by
  induction items with
  | nil => exact names_pure _
  | cons first rest ih =>
    exact names_bind (h first List.mem_cons_self) fun _ =>
      ih fun b hb => h b (List.mem_cons_of_mem _ hb)

theorem names_part {piece : α → Emit Unit} {part : Option α}
    (h : ∀ a, part = some a → (piece a).Names U) : (Emit.part piece part).Names U := by
  cases part with
  | none => exact names_pure _
  | some a => exact h a rfl

theorem names_provenTy (e : Expr) : (provenTy e).Names U := names_ofExcept _

theorem names_load (ty : Ty) (slot : Nat) : (instr (.load ty slot)).Names U := by
  refine names_plain ?_
  unfold Instr.load Instr.localAccess
  split <;> rfl

theorem names_store (ty : Ty) (slot : Nat) : (instr (.store ty slot)).Names U := by
  refine names_plain ?_
  unfold Instr.store Instr.localAccess
  split <;> rfl

theorem names_field {registry : Registry} {op : OpCode} {ref : FieldRef} {name : String}
    (h : U (ref.use registry op name)) : (Emit.field registry op ref name).Names U := by
  refine names_instr fun use huse => ?_
  cases huse
  exact h

end Emit

/-! ## Places -/

section

variable {U : MemberUse → Prop} {registry : Registry} (ty : Ty)

theorem Place.load_names {place : Place} (h : ∀ use ∈ place.uses registry, U use) :
    (place.load registry ty).Names U := by
  cases place with
  | slot index => exact names_load ty index
  | static ref name => exact names_field (h _ List.mem_cons_self)
  | member ref name => exact names_bind (names_op _) fun _ => names_field (h _ List.mem_cons_self)
  | element =>
    refine names_bind (names_op _) fun _ => names_plain ?_
    unfold Instr.arrayLoad
    split <;> rfl

theorem Place.keep_names (place : Place) : (place.keep ty).Names U := by
  cases place with
  | slot | static => exact names_plain rfl
  | member => exact names_plain rfl
  | element => exact names_plain rfl

theorem Place.store_names {place : Place} (h : ∀ use ∈ place.uses registry, U use) :
    (place.store registry ty).Names U := by
  cases place with
  | slot index => exact names_store ty index
  | static ref name | member ref name =>
    exact names_field (h _ (List.mem_cons_of_mem _ List.mem_cons_self))
  | element =>
    refine names_plain ?_
    unfold Instr.arrayStore
    split <;> rfl

end

namespace Expr

/-- Every use that some node of the expression is the reason for, is among the given ones. -/
abbrev Makes (registry : Registry) (U : MemberUse → Prop) : Expr → Prop :=
  Everywhere fun d => ∀ use ∈ d.uses registry, U use

variable {registry : Registry} {U : MemberUse → Prop}

theorem Makes.self {e : Expr} (h : e.Makes registry U) : ∀ use ∈ e.uses registry, U use :=
  h e (mem_nodes_self e)

theorem Makes.place {e : Expr} (h : e.Makes registry U) {place : Place} (hplace : e.place = .ok place) :
    ∀ use ∈ place.uses registry, U use := by
  intro use huse
  refine h.self use ?_
  unfold uses
  split
  · cases hplace
  · rw [hplace]
    exact huse

/-- A step on a place names what accesses to the place name. -/
theorem Makes.onPlace {e : Expr} (h : e.Makes registry U) {step : Ty → Place → Emit Unit}
    (hstep : ∀ ty place, (∀ use ∈ place.uses registry, U use) → (step ty place).Names U) :
    (e.onPlace step).Names U := by
  refine names_bind (names_provenTy e) fun ty => ?_
  cases hplace : e.place with
  | error error => exact names_nil fun _ => rfl
  | ok place =>
    rw [show ofExcept (.ok place) = pure place from rfl, Emit.pure_bind]
    exact hstep ty place (h.place hplace)

end Expr

/-! ## Parts of an expression -/

/-- All uses of an expression name the given members alone. -/
structure ExprCode.Names (U : MemberUse → Prop) (code : ExprCode) : Prop where
  value : code.value.Names U
  branch : ∀ target onTrue, (code.branch target onTrue).Names U
  operands : code.operands.Names U
  append : code.append.Names U

namespace ExprCode

variable {U : MemberUse → Prop}

theorem names_branchOnValue {value : Emit Unit} (h : value.Names U) (target : Label)
    (onTrue : Bool) : (branchOnValue value target onTrue).Names U :=
  names_bind h fun _ => names_plain rfl

theorem names_valueOfBranch {branch : Label → Bool → Emit Unit}
    (h : ∀ target onTrue, (branch target onTrue).Names U) : (valueOfBranch branch).Names U :=
  names_bind names_newLabel fun onFalse => names_bind names_newLabel fun _ =>
    names_bind (h onFalse false) fun _ => names_bind (names_op _) fun _ =>
    names_bind (names_goto _) fun _ => names_bind (names_place _) fun _ =>
    names_bind (names_op _) fun _ => names_place _

section

variable (hbuilder : ∀ use ∈ builderUses, U use)

include hbuilder

theorem names_appendOnce (e : Expr) {value : Emit Unit} (h : value.Names U) :
    (appendOnce e value).Names U :=
  names_bind (names_provenTy e) fun ty => names_bind h fun _ =>
    names_instr fun use huse => hbuilder use (appendValue_mem_builderUses ty use huse)

theorem names_ofValue (e : Expr) {value : Emit Unit} (h : value.Names U) : (ofValue e value).Names U :=
  ⟨h, names_branchOnValue h, names_fail _, names_appendOnce hbuilder e h⟩

theorem names_ofPlace (e : Expr) {operands value : Emit Unit} (ho : operands.Names U)
    (h : value.Names U) : (ofPlace e operands value).Names U :=
  ⟨h, names_branchOnValue h, ho, names_appendOnce hbuilder e h⟩

theorem names_ofBranch (e : Expr) {branch : Label → Bool → Emit Unit}
    (h : ∀ target onTrue, (branch target onTrue).Names U) : (ofBranch e branch).Names U :=
  ⟨names_valueOfBranch h, h, names_fail _, names_appendOnce hbuilder e (names_valueOfBranch h)⟩

theorem names_concatValue {parts : Emit Unit} (h : parts.Names U) : (concatValue parts).Names U := by
  have hcall : ∀ use ∈ builderUses, (instr (.member use.op use.owner use.name use.descriptor)).Names U := by
    intro use huse
    refine names_instr fun found hfound => ?_
    cases hfound
    exact hbuilder use huse
  exact names_bind (names_plain rfl) fun _ => names_bind (names_op _) fun _ =>
    names_bind (hcall _ List.mem_cons_self) fun _ => names_bind h fun _ =>
    hcall _ (List.mem_cons_of_mem _ List.mem_cons_self)

end

theorem use?_literalInstr (value : Literal) : (literalInstr value).use? = none := by
  have hite : ∀ (p : Prop) [Decidable p] {one two : Instr}, one.use? = none → two.use? = none →
      (if p then one else two).use? = none := by
    intro p _ one two hone htwo
    split
    · exact hone
    · exact htwo
  have hint : ∀ v, (Instr.pushInt v).use? = none := fun v =>
    hite _ rfl (hite _ rfl (hite _ rfl (hite _ rfl (hite _ rfl (hite _ rfl (hite _ rfl
      (hite _ rfl (hite _ rfl rfl))))))))
  cases value with
  | int | bool | char => exact hint _
  | long => exact hite _ rfl (hite _ rfl rfl)
  | float => exact hite _ rfl (hite _ rfl (hite _ rfl rfl))
  | double => exact hite _ rfl (hite _ rfl rfl)
  | string | null => rfl

theorem names_unaryValue (op : UnaryOp) (e operand : Expr) {value : Emit Unit} (h : value.Names U) :
    (unaryValue op e operand value).Names U := by
  refine names_bind (names_provenTy _) fun _ => names_bind (names_provenTy _) fun ty =>
    names_bind h fun _ => names_bind (names_ops _) fun _ => names_forM fun i hi => names_plain ?_
  unfold unaryOps at hi
  split at hi
  · exact absurd hi List.not_mem_nil
  · rw [List.mem_singleton.mp hi]
    rfl
  · split at hi <;> rcases List.mem_pair.mp hi with rfl | rfl <;> rfl

theorem names_binaryValue (op : BinaryOp) (line : Nat) (lhs rhs : Expr) {left right : Emit Unit}
    (hl : left.Names U) (hr : right.Names U) : (binaryValue op line lhs rhs left right).Names U :=
  names_bind (names_provenTy _) fun _ => names_bind (names_provenTy _) fun _ =>
    names_bind (names_ofOption _ _) fun _ => names_bind hl fun _ => names_bind (names_ops _) fun _ =>
    names_bind hr fun _ => names_bind (names_ops _) fun _ => names_op _

theorem names_test (selected : BranchTest) (target : Label) : (test selected target).Names U :=
  names_bind (names_ops _) fun _ => names_plain rfl

theorem names_compareJump (registry : Registry) (op : CompareOp) (lhs : Expr)
    {left right : Emit Unit} (hl : left.Names U) (hr : right.Names U) (target : Label)
    (onTrue : Bool) : (compareJump registry op lhs left right target onTrue).Names U :=
  names_bind (names_provenTy _) fun _ => names_bind (names_ofOption _ _) fun _ =>
    names_bind hl fun _ => names_bind hr fun _ => names_test _ _

theorem names_equalityJump (op : EqualityOp) (lhs rhs : Expr) {left right : Emit Unit}
    (hl : left.Names U) (hr : right.Names U) (target : Label) (onTrue : Bool) :
    (equalityJump op lhs rhs left right target onTrue).Names U :=
  names_bind (names_provenTy _) fun _ => names_bind (names_provenTy _) fun _ =>
    names_bind (names_ofOption _ _) fun _ => names_bind hl fun _ => names_bind (names_ops _) fun _ =>
    names_bind hr fun _ => names_bind (names_ops _) fun _ => names_test _ _

theorem names_logicalJump (op : LogicalOp) {left right : Label → Bool → Emit Unit}
    (hl : ∀ target onTrue, (left target onTrue).Names U)
    (hr : ∀ target onTrue, (right target onTrue).Names U) (target : Label) (onTrue : Bool) :
    (logicalJump op left right target onTrue).Names U :=
  names_ite (names_bind (hl _ _) fun _ => hr _ _)
    (names_bind names_newLabel fun _ => names_bind (hl _ _) fun _ => names_bind (hr _ _) fun _ =>
      names_place _)

theorem names_optionally (test : Bool) {piece : Emit Unit} (h : piece.Names U) :
    (optionally test piece).Names U := names_ite h (names_pure _)

theorem names_callValue {registry : Registry} (n : Node) (text : String)
    {method : Option MethodRef} {target : Option (Emit Unit)} {args : Emit Unit}
    (hself : ∀ found, method = some found → U (found.use registry text))
    (htarget : ∀ piece, target = some piece → piece.Names U) (hargs : args.Names U) :
    (callValue registry n text method target args).Names U := by
  cases method with
  | none => exact names_fail _
  | some method =>
    rw [callValue_eq]
    refine names_bind (names_optionally _ ?_) fun _ => names_bind hargs fun _ =>
      names_instr fun use huse => ?_
    · cases target with
      | none => exact names_op _
      | some piece => exact htarget piece rfl
    · cases huse
      exact hself method rfl

section

variable {registry : Registry} (n : Node) {target : Expr} (htarget : target.Makes registry U)

include htarget

theorem names_assignValue (op : AssignOp) (rhs : Expr) {operands right : Emit Unit}
    (ho : operands.Names U) (hr : right.Names U) :
    (assignValue registry n op target rhs operands right).Names U := by
  have hstore := htarget.onPlace fun ty place h => Place.store_names ty h
  have hlast := names_ite (p := n.isStatement = true) hstore
    (names_bind (htarget.onPlace fun ty place _ => place.keep_names ty) fun _ => hstore)
  refine names_bind (names_provenTy _) fun left => names_bind ho fun _ => ?_
  dsimp only
  cases op with
  | plain => exact names_bind hr fun _ => hlast
  | compound op =>
    refine names_ite (names_bind hr fun _ => hlast) (names_bind ?_ fun _ => hlast)
    exact names_bind (names_provenTy _) fun _ => names_bind (names_ofOption _ _) fun _ =>
      names_bind (htarget.onPlace fun ty place h => Place.load_names ty h) fun _ =>
      names_bind hr fun _ => names_bind (names_ops _) fun _ => names_op _

theorem names_incrementPlace (op : IncrementOp) (line : Nat) (ty : Ty) {operands : Emit Unit}
    (ho : operands.Names U) (keepOld keepNew : Bool) :
    (incrementPlace registry op line target ty operands keepOld keepNew).Names U := by
  have hstore := htarget.onPlace fun ty place h => Place.store_names ty h
  have hkeep {rest : Emit Unit} (keep : Bool) (hrest : rest.Names U) :=
    names_ite (p := keep = true)
      (names_bind (htarget.onPlace fun ty place _ => place.keep_names ty) fun _ => hrest) hrest
  exact names_bind (names_ofOption _ _) fun promoted => names_bind (names_ofOption _ _) fun _ =>
    names_bind ho fun _ =>
    names_bind (htarget.onPlace fun ty place h => Place.load_names ty h) fun _ =>
    hkeep keepOld (names_bind (names_plain rfl) fun _ => names_bind (names_op _) fun _ =>
      names_bind (names_ops _) fun _ => hkeep keepNew hstore)

theorem names_incrementValue (op : IncrementOp) {operands : Emit Unit} (ho : operands.Names U) :
    (incrementValue registry n op target operands).Names U := by
  refine names_bind (names_provenTy _) fun ty => ?_
  have hother := names_incrementPlace htarget op n.line ty ho
    (!n.isStatement && !op.isPre) (!n.isStatement && op.isPre)
  dsimp only
  split
  · refine names_ite ?_ hother
    rw [incrementLocal_eq]
    exact names_bind (names_optionally _ (names_load _ _)) fun _ =>
      names_bind (names_plain rfl) fun _ => names_optionally _ (names_load _ _)
  · exact hother

end

end ExprCode

/-! ## Expressions and statements -/

open ExprCode

theorem Stmt.listCode_names (env : CodeEnv) (loop : Option LoopLabels) {U : MemberUse → Prop}
    {stmts : List Stmt} (h : ∀ s ∈ stmts, (s.code env loop).Names U) :
    (listCode env loop stmts).Names U := by
  induction stmts with
  | nil => exact names_pure _
  | cons first rest ih =>
    exact names_bind (h first List.mem_cons_self) fun _ =>
      ih fun s hs => h s (List.mem_cons_of_mem _ hs)

section

variable {U : MemberUse → Prop} (hbuilder : ∀ use ∈ builderUses, U use)

include hbuilder

/-- The code of an expression names the string builder, and what its nodes are the reason for. -/
theorem Expr.code_names (registry : Registry) (e : Expr) (h : e.Makes registry U) :
    (e.code registry).Names U := by
  have hfirst {c : Expr} {rest : List Expr} : c ∈ c :: rest := List.mem_cons_self
  have hsecond {c d : Expr} {rest : List Expr} : d ∈ c :: d :: rest :=
    List.mem_cons_of_mem _ List.mem_cons_self
  induction e using Expr.induction with
  | literal n value =>
    have hvalue := names_ofValue hbuilder (.literal n value)
      (names_plain (use?_literalInstr value))
    cases value with
    | bool value =>
      refine ⟨hvalue.value, fun target onTrue => ?_, hvalue.operands, hvalue.append⟩
      exact names_ite (names_goto _) (names_pure _)
    | _ => exact hvalue
  | name n text binding =>
    refine names_ofPlace hbuilder _ ?_ ?_
    · unfold nameOperands
      split
      · exact names_pure _
      · exact names_ite (names_pure _) (names_op _)
      · exact names_fail _
    · unfold nameValue
      split
      · exact names_bind (names_provenTy _) fun _ => names_load _ _
      · next ref =>
        have huses : ∀ use ∈ (if ref.isStatic then Place.static ref text
            else .member ref text).uses registry, U use := h.place rfl
        by_cases hstatic : ref.isStatic = true
        · rw [if_pos hstatic] at huses ⊢
          exact names_field (huses _ List.mem_cons_self)
        · rw [if_neg hstatic] at huses ⊢
          exact names_bind (names_op _) fun _ => names_field (huses _ List.mem_cons_self)
      · exact names_fail _
  | self n => exact names_ofValue hbuilder _ (names_op _)
  | field n target text ref ih =>
    have htarget := (ih (h.child hfirst)).value
    refine names_ofPlace hbuilder _ ?_ ?_
    · unfold fieldOperands
      split
      · exact htarget
      · exact names_fail _
    · unfold fieldValue
      split
      · next ref =>
        have huses : ∀ use ∈ (Place.member ref text).uses registry, U use := h.place rfl
        exact names_bind htarget fun _ => names_field (huses _ List.mem_cons_self)
      · exact names_fail _
  | index n array position iharray ihposition =>
    have hoperands := names_bind (iharray (h.child hfirst)).value fun _ =>
      (ihposition (h.child hsecond)).value
    refine names_ofPlace hbuilder _ hoperands (names_bind (names_provenTy _) fun _ =>
      names_bind hoperands fun _ => names_plain ?_)
    unfold Instr.arrayLoad
    split <;> rfl
  | length n array ih =>
    exact names_ofValue hbuilder _ (names_bind (ih (h.child hfirst)).value fun _ => names_op _)
  | unary n op operand ih =>
    exact names_ofValue hbuilder _ (names_unaryValue op _ operand (ih (h.child hfirst)).value)
  | not n operand ih =>
    exact names_ofBranch hbuilder _ fun target onTrue =>
      (ih (h.child hfirst)).branch target (!onTrue)
  | binary n op lhs rhs ihl ihr =>
    exact names_ofValue hbuilder _ (names_binaryValue op n.line lhs rhs (ihl (h.child hfirst)).value
      (ihr (h.child hsecond)).value)
  | compare n op lhs rhs ihl ihr =>
    exact names_ofBranch hbuilder _ (names_compareJump registry op lhs (ihl (h.child hfirst)).value
      (ihr (h.child hsecond)).value)
  | equality n op lhs rhs ihl ihr =>
    exact names_ofBranch hbuilder _ (names_equalityJump op lhs rhs (ihl (h.child hfirst)).value
      (ihr (h.child hsecond)).value)
  | logical n op lhs rhs ihl ihr =>
    exact names_ofBranch hbuilder _ (names_logicalJump op (ihl (h.child hfirst)).branch
      (ihr (h.child hsecond)).branch)
  | concat n lhs rhs ihl ihr =>
    have hparts := names_bind (ihl (h.child hfirst)).append fun _ =>
      (ihr (h.child hsecond)).append
    have hvalue := names_concatValue hbuilder hparts
    exact ⟨hvalue, names_branchOnValue hvalue, names_fail _, hparts⟩
  | assign n op lhs rhs ihl ihr =>
    have hlhs := h.child hfirst
    exact names_ofValue hbuilder _ (names_assignValue n hlhs op rhs (ihl hlhs).operands
      (ihr (h.child hsecond)).value)
  | increment n op operand ih =>
    have hoperand := h.child hfirst
    exact names_ofValue hbuilder _ (names_incrementValue n hoperand op (ih hoperand).operands)
  | call n target text args method ihtarget ihargs =>
    have hargs : (argsCode registry args).Names U := by
      have hchild : ∀ a ∈ args, (a.code registry).Names U := fun a ha =>
        ihargs a ha (h.child (List.mem_append_right _ ha))
      clear h ihargs ihtarget
      induction args with
      | nil => exact names_pure _
      | cons first rest ih =>
        exact names_bind (hchild first List.mem_cons_self).value fun _ =>
          ih fun a ha => hchild a (List.mem_cons_of_mem _ ha)
    rw [code_call]
    refine names_ofValue hbuilder _ (names_callValue n text (fun found hfound => ?_)
      (fun piece hpiece => ?_) hargs)
    · subst hfound
      exact h.self _ List.mem_cons_self
    · obtain ⟨t, ht, rfl⟩ := Option.map_eq_some_iff.mp hpiece
      exact (ihtarget t ht (h.child (List.mem_append_left _ (Option.mem_toList.mpr ht)))).value

variable (env : CodeEnv)

theorem Expr.statementCode_names {e : Expr} (h : e.Makes env.registry U) :
    (e.statementCode env).Names U := by
  refine names_bind (e.code_names hbuilder env.registry h).value fun _ => ?_
  cases e with
  | call =>
    refine names_bind (names_provenTy _) fun ty => names_forM fun i hi => names_plain ?_
    unfold Instr.pop? at hi
    split at hi
    · exact (List.not_mem_nil hi).elim
    · rw [List.mem_singleton.mp hi]
      rfl
  | _ => exact names_pure _

theorem LocalDecl.code_names {decl : LocalDecl}
    (h : ∀ e ∈ decl.roots, e.Makes env.registry U) : (decl.code env).Names U :=
  names_forM fun e he =>
    (e.code_names hbuilder env.registry (h e (List.mem_append_right _ he))).value

theorem ForInit.code_names {init : ForInit} (h : ∀ e ∈ init.roots, e.Makes env.registry U) :
    (init.code env).Names U := by
  cases init with
  | exprs es => exact names_forM fun e he => Expr.statementCode_names hbuilder env (h e he)
  | decl d => exact LocalDecl.code_names hbuilder env h

theorem Stmt.code_names (s : Stmt) (h : s.Everywhere fun d => ∀ use ∈ d.uses env.registry, U use) :
    ∀ loop : Option LoopLabels, (s.code env loop).Names U := by
  have hexit : ∀ (e : Expr) (target : Label), e.Makes env.registry U →
      (e.exitCode env target).Names U := fun e target he =>
    (e.code_names hbuilder env.registry he).branch target false
  induction s using Stmt.induction with
  | block stmts line ih =>
    intro loop
    unfold code
    exact listCode_names env loop fun s hs => ih s hs (h.child hs) loop
  | declare decl =>
    intro loop
    unfold code
    exact decl.code_names hbuilder env fun e he => h.root he
  | expr e line =>
    intro loop
    unfold code
    exact e.statementCode_names hbuilder env (h.root List.mem_cons_self)
  | branch condition onTrue onFalse line ihTrue ihFalse =>
    intro loop
    have hcondition := h.root (e := condition) List.mem_cons_self
    rw [code_branch]
    refine names_bind names_newLabel fun otherwise => names_bind (hexit _ _ hcondition) fun _ =>
      names_bind (ihTrue (h.child List.mem_cons_self) loop) fun _ => ?_
    cases onFalse with
    | none => exact names_place _
    | some stmt =>
      have hfalse := ihFalse stmt rfl (h.child (List.mem_cons_of_mem _ List.mem_cons_self)) loop
      exact names_bind names_newLabel fun done => names_bind (names_goto _) fun _ =>
        names_bind (names_place _) fun _ => names_bind hfalse fun _ => names_place _
  | whileLoop condition body line ih =>
    intro loop
    unfold code
    exact names_bind names_newLabel fun top => names_bind names_newLabel fun out =>
      names_bind (names_place _) fun _ => names_bind (hexit _ _ (h.root List.mem_cons_self)) fun _ =>
      names_bind (ih (h.child List.mem_cons_self) _) fun _ => names_bind (names_goto _) fun _ =>
      names_place _
  | forLoop init condition update body line ih =>
    intro loop
    have hinit : ∀ i, init = some i → (i.code env).Names U := fun i hi =>
      ForInit.code_names hbuilder env fun e he => h.root (List.mem_append_left _
        (List.mem_append_left _ (List.mem_flatMap.mpr ⟨i, Option.mem_toList.mpr hi, he⟩)))
    have hcondition : ∀ target e, condition = some e → (e.exitCode env target).Names U :=
      fun target e he => hexit e target (h.root (List.mem_append_left _
        (List.mem_append_right _ (Option.mem_toList.mpr he))))
    have hupdate : ∀ e ∈ update, (e.statementCode env).Names U := fun e he =>
      e.statementCode_names hbuilder env (h.root (List.mem_append_right _ he))
    rw [code_forLoop]
    exact names_bind (names_part hinit) fun _ => names_bind names_newLabel fun top =>
      names_bind names_newLabel fun again => names_bind names_newLabel fun out =>
      names_bind (names_place _) fun _ => names_bind (names_part (hcondition out)) fun _ =>
      names_bind (ih (h.child List.mem_cons_self) _) fun _ => names_bind (names_place _) fun _ =>
      names_bind (names_forM hupdate) fun _ => names_bind (names_goto _) fun _ => names_place _
  | ret value line =>
    intro loop
    unfold code returnCode
    cases value with
    | none => exact names_plain rfl
    | some value =>
      refine names_bind (value.code_names hbuilder env.registry (h.root List.mem_cons_self)).value
        fun _ => names_plain ?_
      unfold Instr.ret
      split <;> rfl
  | breakOut line | continueOn line =>
    intro loop
    unfold code jumpOut
    split
    · exact names_goto _
    · exact names_fail _
  | empty line =>
    intro loop
    exact names_pure _

/-- The code of a method names the string builder, and what its nodes are the reason for. -/
theorem MethodDecl.bodyCode_names {method : MethodDecl}
    (h : ∀ d ∈ method.nodes, ∀ use ∈ d.uses env.registry, U use) :
    (method.bodyCode env).Names U := by
  rw [bodyCode_eq]
  refine names_bind (names_part fun body hbody => ?_) fun _ => names_optionally _ (names_op _)
  have hstmts : ∀ s ∈ body.stmts, (s.code env none).Names U := fun s hs =>
    s.code_names hbuilder env (fun d hd => h d (List.mem_flatMap.mpr
      ⟨body, Option.mem_toList.mpr hbody, Stmt.mem_nodesList.mpr ⟨s, hs, hd⟩⟩)) none
  exact Stmt.listCode_names env none hstmts

end

end ClassCompiler
