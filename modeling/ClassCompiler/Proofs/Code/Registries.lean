import ClassCompiler.Proofs.Code.Members

/-!
# Code over two registries

Code depends on the registry in two ways. Instructions name members by their classes and types, and
some failures show a type. So two registries with the same names for the members of a tree give the
same code, wherever there is code at all.

* `Emit.Same`: the first piece fails, or the second one does the same
* `Expr.code_same`, `MethodDecl.bodyCode_same`
-/

namespace ClassCompiler

open Emit

/-! ## Pieces -/

namespace Emit

variable {α β : Type}

/-- Where the first piece succeeds, the second one is no different. -/
def Same (one two : Emit α) : Prop :=
  ∀ next a, (one.run next).result = .ok a → two.run next = one.run next

theorem same_refl (piece : Emit α) : piece.Same piece := fun _ _ _ => rfl

theorem same_of_eq {one two : Emit α} (h : one = two) : one.Same two := h ▸ same_refl one

theorem same_fail (error error' : CompileError) : (fail error : Emit α).Same (fail error') := by
  intro next a h
  cases h

/-- Only the failure may differ. -/
theorem same_ofOption (value : Option α) (error error' : CompileError) :
    (ofOption value error).Same (ofOption value error') := by
  cases value with
  | none => exact same_fail error error'
  | some a => exact same_refl (pure a)

theorem same_bind {one two : Emit α} {rest rest' : α → Emit β} (h : one.Same two)
    (hrest : ∀ a, (rest a).Same (rest' a)) : (one >>= rest).Same (two >>= rest') := by
  intro next b hok
  cases hone : (one.run next).result with
  | error error =>
    rw [run_bind_error hone] at hok
    cases hok
  | ok a =>
    have hsame := h next a hone
    have htwo : (two.run next).result = .ok a := by rw [hsame, hone]
    rw [run_bind_ok hone] at hok ⊢
    rw [run_bind_ok htwo, hsame, hrest a _ b hok]

/-- After the same piece. -/
theorem same_then (piece : Emit α) {rest rest' : α → Emit β}
    (hrest : ∀ a, (rest a).Same (rest' a)) : (piece >>= rest).Same (piece >>= rest') :=
  same_bind (same_refl piece) hrest

/-- Before the same piece. -/
theorem same_before {one two : Emit α} (h : one.Same two) (rest : α → Emit β) :
    (one >>= rest).Same (two >>= rest) := same_bind h fun a => same_refl (rest a)

theorem same_ite {p : Prop} [Decidable p] {one two one' two' : Emit α} (h : one.Same one')
    (h' : two.Same two') : (if p then one else two).Same (if p then one' else two') := by
  split
  · exact h
  · exact h'

theorem same_forM {items : List β} {step step' : β → Emit PUnit}
    (h : ∀ b ∈ items, (step b).Same (step' b)) : (items.forM step).Same (items.forM step') := by
  induction items with
  | nil => exact same_refl _
  | cons first rest ih =>
    exact same_bind (h first List.mem_cons_self) fun _ =>
      ih fun b hb => h b (List.mem_cons_of_mem _ hb)

theorem same_part {piece piece' : α → Emit Unit} {part : Option α}
    (h : ∀ a, part = some a → (piece a).Same (piece' a)) :
    (Emit.part piece part).Same (Emit.part piece' part) := by
  cases part with
  | none => exact same_refl _
  | some a => exact h a rfl

end Emit

/-! ## Places -/

variable {s t : Registry}

/-- The instruction of a use. -/
theorem Emit.field_eq {op : OpCode} {ref : FieldRef} {name : String}
    (h : ref.use t op name = ref.use s op name) :
    Emit.field t op ref name = Emit.field s op ref name := by
  injection h with _ howner _ hdescriptor
  unfold Emit.field
  rw [howner, hdescriptor]

namespace Place

variable {place : Place}

theorem load_eq (h : place.uses t = place.uses s) (ty : Ty) :
    place.load t ty = place.load s ty := by
  cases place with
  | slot | element => rfl
  | static ref name => exact field_eq (List.cons_eq_cons.mp h).1
  | member ref name =>
    unfold load
    dsimp only
    rw [field_eq (List.cons_eq_cons.mp h).1]

theorem store_eq (h : place.uses t = place.uses s) (ty : Ty) :
    place.store t ty = place.store s ty := by
  cases place with
  | slot | element => rfl
  | static ref name | member ref name =>
    exact field_eq (List.cons_eq_cons.mp (List.cons_eq_cons.mp h).2).1

end Place

namespace Expr

/-- The members that the nodes of the expression are bound to have the same names in both. -/
abbrev Agrees (s t : Registry) : Expr → Prop := Everywhere fun d => d.uses t = d.uses s

theorem Agrees.self {e : Expr} (h : e.Agrees s t) : e.uses t = e.uses s := h e (mem_nodes_self e)

theorem Agrees.place {e : Expr} (h : e.Agrees s t) {place : Place} (hplace : e.place = .ok place) :
    place.uses t = place.uses s := by
  have hself := h.self
  unfold uses at hself
  split at hself
  · cases hplace
  · rwa [hplace] at hself

theorem Agrees.onPlace {e : Expr} (h : e.Agrees s t) (step step' : Ty → Place → Emit Unit)
    (hstep : ∀ ty place, place.uses t = place.uses s → step' ty place = step ty place) :
    e.onPlace step' = e.onPlace step := by
  unfold Expr.onPlace
  congr 1
  funext ty
  cases hplace : e.place with
  | error => rfl
  | ok place =>
    show pure place >>= step' ty = pure place >>= step ty
    rw [Emit.pure_bind, Emit.pure_bind, hstep ty place (h.place hplace)]

end Expr

/-! ## Parts of an expression -/

/-- The same code in all uses. -/
structure ExprCode.Same (one two : ExprCode) : Prop where
  value : one.value.Same two.value
  branch : ∀ target onTrue, (one.branch target onTrue).Same (two.branch target onTrue)
  operands : one.operands.Same two.operands
  append : one.append.Same two.append

namespace ExprCode

variable {value value' left left' right right' operands operands' : Emit Unit}

theorem same_branchOnValue (h : value.Same value') (target : Label) (onTrue : Bool) :
    (branchOnValue value target onTrue).Same (branchOnValue value' target onTrue) :=
  same_before h _

theorem same_valueOfBranch {branch branch' : Label → Bool → Emit Unit}
    (h : ∀ target onTrue, (branch target onTrue).Same (branch' target onTrue)) :
    (valueOfBranch branch).Same (valueOfBranch branch') :=
  same_then _ fun onFalse => same_then _ fun _ => same_before (h onFalse false) _

theorem same_appendOnce (e : Expr) (h : value.Same value') :
    (appendOnce e value).Same (appendOnce e value') := same_then _ fun _ => same_before h _

theorem same_ofValue (e : Expr) (h : value.Same value') : (ofValue e value).Same (ofValue e value') :=
  ⟨h, same_branchOnValue h, same_refl _, same_appendOnce e h⟩

theorem same_ofPlace (e : Expr) (ho : operands.Same operands') (h : value.Same value') :
    (ofPlace e operands value).Same (ofPlace e operands' value') :=
  ⟨h, same_branchOnValue h, ho, same_appendOnce e h⟩

theorem same_ofBranch (e : Expr) {branch branch' : Label → Bool → Emit Unit}
    (h : ∀ target onTrue, (branch target onTrue).Same (branch' target onTrue)) :
    (ofBranch e branch).Same (ofBranch e branch') :=
  ⟨same_valueOfBranch h, h, same_refl _, same_appendOnce e (same_valueOfBranch h)⟩

theorem same_concatValue (h : value.Same value') : (concatValue value).Same (concatValue value') :=
  same_then _ fun _ => same_then _ fun _ => same_then _ fun _ => same_before h _

/-- A concatenation goes to the string builder around it part by part. -/
theorem same_ofParts (e : Expr) (h : value.Same value') :
    { ofValue e (concatValue value) with append := value : ExprCode }.Same
      { ofValue e (concatValue value') with append := value' } :=
  ⟨same_concatValue h, same_branchOnValue (same_concatValue h), same_refl _, h⟩

theorem same_unaryValue (op : UnaryOp) (e operand : Expr) (h : value.Same value') :
    (unaryValue op e operand value).Same (unaryValue op e operand value') :=
  same_then _ fun _ => same_then _ fun _ => same_before h _

section

variable (hl : left.Same left') (hr : right.Same right')

include hl hr

theorem same_binaryValue (op : BinaryOp) (line : Nat) (lhs rhs : Expr) :
    (binaryValue op line lhs rhs left right).Same (binaryValue op line lhs rhs left' right') :=
  same_then _ fun _ => same_then _ fun _ => same_then _ fun _ => same_bind hl fun _ =>
    same_then _ fun _ => same_before hr _

theorem same_compareJump (op : CompareOp) (lhs : Expr) (target : Label) (onTrue : Bool) :
    (compareJump s op lhs left right target onTrue).Same
      (compareJump t op lhs left' right' target onTrue) :=
  same_then _ fun _ => same_bind (same_ofOption _ _ _) fun _ => same_bind hl fun _ =>
    same_before hr _

theorem same_equalityJump (op : EqualityOp) (lhs rhs : Expr) (target : Label) (onTrue : Bool) :
    (equalityJump op lhs rhs left right target onTrue).Same
      (equalityJump op lhs rhs left' right' target onTrue) :=
  same_then _ fun _ => same_then _ fun _ => same_then _ fun _ => same_bind hl fun _ =>
    same_then _ fun _ => same_before hr _

end

theorem same_logicalJump (op : LogicalOp) {left left' right right' : Label → Bool → Emit Unit}
    (hl : ∀ target onTrue, (left target onTrue).Same (left' target onTrue))
    (hr : ∀ target onTrue, (right target onTrue).Same (right' target onTrue)) (target : Label)
    (onTrue : Bool) :
    (logicalJump op left right target onTrue).Same (logicalJump op left' right' target onTrue) :=
  same_ite (same_bind (hl _ _) fun _ => hr _ _)
    (same_then _ fun _ => same_bind (hl _ _) fun _ => same_before (hr _ _) _)

theorem same_callValue (n : Node) (text : String) {method : Option MethodRef}
    {target target' : Option (Emit Unit)}
    (hself : ∀ found, method = some found → found.use t text = found.use s text)
    (htarget : (target.getD (op .aload0)).Same (target'.getD (op .aload0)))
    (hargs : value.Same value') :
    (callValue s n text method target value).Same (callValue t n text method target' value') := by
  cases method with
  | none => exact same_refl _
  | some method =>
    have huse := hself method rfl
    injection huse with _ howner
    rw [callValue_eq, callValue_eq, howner]
    exact same_bind (same_ite htarget (same_refl _)) fun _ => same_before hargs _

section

variable (n : Node) {target : Expr} (htarget : target.Agrees s t)

include htarget

theorem same_assignValue (op : AssignOp) (rhs : Expr) (ho : operands.Same operands')
    (hr : right.Same right') :
    (assignValue s n op target rhs operands right).Same
      (assignValue t n op target rhs operands' right') := by
  have hstore := htarget.onPlace (fun ty place => place.store s ty)
    (fun ty place => place.store t ty) fun ty place h => place.store_eq h ty
  have hload := htarget.onPlace (fun ty place => place.load s ty)
    (fun ty place => place.load t ty) fun ty place h => place.load_eq h ty
  unfold assignValue compoundValue
  rw [hstore, hload]
  refine same_then _ fun left => same_bind ho fun _ => ?_
  dsimp only
  cases op with
  | plain => exact same_before hr _
  | compound op =>
    refine same_ite (same_before hr _) (same_before ?_ _)
    exact same_then _ fun _ => same_bind (same_ofOption _ _ _) fun _ => same_then _ fun _ =>
      same_before hr _

theorem same_incrementPlace (op : IncrementOp) (line : Nat) (ty : Ty)
    (ho : operands.Same operands') (keepOld keepNew : Bool) :
    (incrementPlace s op line target ty operands keepOld keepNew).Same
      (incrementPlace t op line target ty operands' keepOld keepNew) := by
  have hstore := htarget.onPlace (fun ty place => place.store s ty)
    (fun ty place => place.store t ty) fun ty place h => place.store_eq h ty
  have hload := htarget.onPlace (fun ty place => place.load s ty)
    (fun ty place => place.load t ty) fun ty place h => place.load_eq h ty
  unfold incrementPlace
  rw [hstore, hload]
  exact same_then _ fun _ => same_then _ fun _ => same_before ho _

theorem same_incrementValue (op : IncrementOp) (ho : operands.Same operands') :
    (incrementValue s n op target operands).Same (incrementValue t n op target operands') := by
  refine same_then _ fun ty => ?_
  have hother := same_incrementPlace htarget op n.line ty ho
    (!n.isStatement && !op.isPre) (!n.isStatement && op.isPre)
  dsimp only
  split
  · exact same_ite (same_refl _) hother
  · exact hother

end

end ExprCode

/-! ## Expressions -/

open ExprCode

/-- The code of an expression is the same for registries that agree on its members. -/
theorem Expr.code_same (e : Expr) (h : e.Agrees s t) : (e.code s).Same (e.code t) := by
  have hfirst {c : Expr} {rest : List Expr} : c ∈ c :: rest := List.mem_cons_self
  have hsecond {c d : Expr} {rest : List Expr} : d ∈ c :: d :: rest :=
    List.mem_cons_of_mem _ List.mem_cons_self
  induction e using Expr.induction with
  | literal n value =>
    cases value with
    | _ => exact ⟨same_refl _, fun _ _ => same_refl _, same_refl _, same_refl _⟩
  | self n => exact same_ofValue _ (same_refl _)
  | name n text binding =>
    refine same_ofPlace _ (same_refl _) (same_of_eq ?_)
    unfold nameValue
    split
    · rfl
    · next ref =>
      have huses : (if ref.isStatic then Place.static ref text
          else .member ref text).uses t = Place.uses s _ := h.place rfl
      by_cases hstatic : ref.isStatic = true
      · rw [if_pos hstatic] at huses
        rw [if_pos hstatic, if_pos hstatic, field_eq (List.cons_eq_cons.mp huses).1]
      · rw [if_neg hstatic] at huses
        rw [if_neg hstatic, if_neg hstatic, field_eq (List.cons_eq_cons.mp huses).1]
    · rfl
  | field n target text ref ih =>
    have htarget := (ih (h.child hfirst)).value
    cases ref with
    | none => exact same_ofPlace _ (same_refl _) (same_refl _)
    | some ref =>
      have huses : (Place.member ref text).uses t = (Place.member ref text).uses s := h.place rfl
      refine same_ofPlace _ htarget (same_bind htarget fun _ => same_of_eq ?_)
      exact (field_eq (List.cons_eq_cons.mp huses).1).symm
  | index n array position iharray ihposition =>
    have hoperands := same_bind (iharray (h.child hfirst)).value fun _ =>
      (ihposition (h.child hsecond)).value
    exact same_ofPlace _ hoperands (same_then _ fun _ => same_before hoperands _)
  | length n array ih => exact same_ofValue _ (same_before (ih (h.child hfirst)).value _)
  | unary n op operand ih =>
    exact same_ofValue _ (same_unaryValue op _ operand (ih (h.child hfirst)).value)
  | not n operand ih =>
    exact same_ofBranch _ fun target onTrue => (ih (h.child hfirst)).branch target (!onTrue)
  | binary n op lhs rhs ihl ihr =>
    exact same_ofValue _ (same_binaryValue (ihl (h.child hfirst)).value
      (ihr (h.child hsecond)).value op n.line lhs rhs)
  | compare n op lhs rhs ihl ihr =>
    exact same_ofBranch _ (same_compareJump (ihl (h.child hfirst)).value
      (ihr (h.child hsecond)).value op lhs)
  | equality n op lhs rhs ihl ihr =>
    exact same_ofBranch _ (same_equalityJump (ihl (h.child hfirst)).value
      (ihr (h.child hsecond)).value op lhs rhs)
  | logical n op lhs rhs ihl ihr =>
    exact same_ofBranch _ (same_logicalJump op (ihl (h.child hfirst)).branch
      (ihr (h.child hsecond)).branch)
  | concat n lhs rhs ihl ihr =>
    have hparts := same_bind (ihl (h.child hfirst)).append fun _ =>
      (ihr (h.child hsecond)).append
    exact same_ofParts _ hparts
  | assign n op lhs rhs ihl ihr =>
    have hlhs := h.child hfirst
    exact same_ofValue _ (same_assignValue n hlhs op rhs (ihl hlhs).operands
      (ihr (h.child hsecond)).value)
  | increment n op operand ih =>
    have hoperand := h.child hfirst
    exact same_ofValue _ (same_incrementValue n hoperand op (ih hoperand).operands)
  | call n target text args method ihtarget ihargs =>
    have hargs : (argsCode s args).Same (argsCode t args) := by
      have hchild : ∀ a ∈ args, (a.code s).Same (a.code t) := fun a ha =>
        ihargs a ha (h.child (List.mem_append_right _ ha))
      clear h ihargs ihtarget
      induction args with
      | nil => exact same_refl _
      | cons first rest ih =>
        exact same_bind (hchild first List.mem_cons_self).value fun _ =>
          ih fun a ha => hchild a (List.mem_cons_of_mem _ ha)
    rw [code_call, code_call]
    refine same_ofValue _ (same_callValue n text (fun found hfound => ?_) ?_ hargs)
    · subst hfound
      exact (List.cons_eq_cons.mp h.self).1
    · cases target with
      | none => exact same_refl _
      | some target => exact (ihtarget target rfl (h.child List.mem_cons_self)).value

/-! ## Statements -/

theorem Stmt.listCode_same {env env' : CodeEnv} (loop : Option LoopLabels) {stmts : List Stmt}
    (h : ∀ stmt ∈ stmts, (stmt.code env loop).Same (stmt.code env' loop)) :
    (listCode env loop stmts).Same (listCode env' loop stmts) := by
  induction stmts with
  | nil => exact same_refl _
  | cons first rest ih =>
    exact same_bind (h first List.mem_cons_self) fun _ =>
      ih fun stmt hstmt => h stmt (List.mem_cons_of_mem _ hstmt)

section

variable (returnTy : Ty)

theorem Expr.statementCode_same {e : Expr} (h : e.Agrees s t) :
    (e.statementCode ⟨s, returnTy⟩).Same (e.statementCode ⟨t, returnTy⟩) :=
  same_before (e.code_same h).value _

theorem LocalDecl.code_same {decl : LocalDecl} (h : ∀ e ∈ decl.roots, e.Agrees s t) :
    (decl.code ⟨s, returnTy⟩).Same (decl.code ⟨t, returnTy⟩) :=
  same_forM fun e he => (e.code_same (h e (List.mem_append_right _ he))).value

theorem ForInit.code_same {init : ForInit} (h : ∀ e ∈ init.roots, e.Agrees s t) :
    (init.code ⟨s, returnTy⟩).Same (init.code ⟨t, returnTy⟩) := by
  cases init with
  | exprs es => exact same_forM fun e he => Expr.statementCode_same returnTy (h e he)
  | decl d => exact LocalDecl.code_same returnTy h

theorem Stmt.code_same (stmt : Stmt) (h : stmt.Everywhere fun d => d.uses t = d.uses s) :
    ∀ loop : Option LoopLabels,
      (stmt.code ⟨s, returnTy⟩ loop).Same (stmt.code ⟨t, returnTy⟩ loop) := by
  have hexit : ∀ (e : Expr) (target : Label), e.Agrees s t →
      (e.exitCode ⟨s, returnTy⟩ target).Same (e.exitCode ⟨t, returnTy⟩ target) :=
    fun e target he => (e.code_same he).branch target false
  induction stmt using Stmt.induction with
  | block stmts line ih =>
    intro loop
    unfold code
    exact listCode_same loop fun stmt hstmt => ih stmt hstmt (h.child hstmt) loop
  | declare decl =>
    intro loop
    unfold code
    exact decl.code_same returnTy fun e he => h.root he
  | expr e line =>
    intro loop
    unfold code
    exact e.statementCode_same returnTy (h.root List.mem_cons_self)
  | branch condition onTrue onFalse line ihTrue ihFalse =>
    intro loop
    have hcondition := h.root (e := condition) List.mem_cons_self
    rw [code_branch, code_branch]
    refine same_then _ fun otherwise => same_bind (hexit _ _ hcondition) fun _ =>
      same_bind (ihTrue (h.child List.mem_cons_self) loop) fun _ => ?_
    cases onFalse with
    | none => exact same_refl _
    | some stmt =>
      have hfalse := ihFalse stmt rfl (h.child (List.mem_cons_of_mem _ List.mem_cons_self)) loop
      exact same_then _ fun _ => same_then _ fun _ => same_then _ fun _ => same_before hfalse _
  | whileLoop condition body line ih =>
    intro loop
    unfold code
    exact same_then _ fun top => same_then _ fun out => same_then _ fun _ =>
      same_bind (hexit _ _ (h.root List.mem_cons_self)) fun _ =>
      same_before (ih (h.child List.mem_cons_self) _) _
  | forLoop init condition update body line ih =>
    intro loop
    have hinit : ∀ i, init = some i → (i.code ⟨s, returnTy⟩).Same (i.code ⟨t, returnTy⟩) :=
      fun i hi => ForInit.code_same returnTy fun e he => h.root (List.mem_append_left _
        (List.mem_append_left _ (List.mem_flatMap.mpr ⟨i, Option.mem_toList.mpr hi, he⟩)))
    have hcondition : ∀ target e, condition = some e →
        (e.exitCode ⟨s, returnTy⟩ target).Same (e.exitCode ⟨t, returnTy⟩ target) :=
      fun target e he => hexit e target (h.root (List.mem_append_left _
        (List.mem_append_right _ (Option.mem_toList.mpr he))))
    have hupdate : ∀ e ∈ update,
        (e.statementCode ⟨s, returnTy⟩).Same (e.statementCode ⟨t, returnTy⟩) := fun e he =>
      e.statementCode_same returnTy (h.root (List.mem_append_right _ he))
    rw [code_forLoop, code_forLoop]
    exact same_bind (same_part hinit) fun _ => same_then _ fun top => same_then _ fun again =>
      same_then _ fun out => same_then _ fun _ => same_bind (same_part (hcondition out)) fun _ =>
      same_bind (ih (h.child List.mem_cons_self) _) fun _ => same_then _ fun _ =>
      same_before (same_forM hupdate) _
  | ret value line =>
    intro loop
    unfold code returnCode
    cases value with
    | none => exact same_refl _
    | some value => exact same_before (value.code_same (h.root List.mem_cons_self)).value _
  | breakOut line | continueOn line | empty line => exact fun loop => same_refl _

end

/-- The code of a method is the same for registries that agree on the members of its nodes. -/
theorem MethodDecl.bodyCode_same {method : MethodDecl} (returnTy : Ty)
    (h : ∀ d ∈ method.nodes, d.uses t = d.uses s) :
    (method.bodyCode ⟨s, returnTy⟩).Same (method.bodyCode ⟨t, returnTy⟩) := by
  rw [bodyCode_eq, bodyCode_eq]
  refine same_before (same_part fun body hbody => ?_) _
  exact Stmt.listCode_same none fun stmt hstmt => stmt.code_same returnTy (fun d hd =>
    h d (List.mem_flatMap.mpr ⟨body, Option.mem_toList.mpr hbody,
      Stmt.mem_nodesList.mpr ⟨stmt, hstmt, hd⟩⟩)) none

end ClassCompiler
