import ClassCompiler.Proofs.Code.Success
import ClassCompiler.Proofs.Code.Tests

/-!
# Evaluation of conditions

The meaning of conditions and of the operands that they test: literals, locals, unqualified calls of
static methods, relations, equalities, and the logical operators. Operands are evaluated from left to
right, and a connective evaluates its right operand only if the left one does not decide. What can be
seen of an evaluation are its calls.

The code of such an expression computes what it means, as a value and as a jump.

* `Expr.isSimple`, `Expr.eval`
* `Expr.Accepted.computes`
-/

namespace ClassCompiler

/-! ## Meaning -/

namespace Expr

mutual

/-- The expression is made of literals, locals, unqualified static calls, tests and connectives. -/
def isSimple : Expr → Bool
  | literal _ _ => true
  | name _ _ (some (.slot _)) => true
  | not _ operand => operand.isSimple
  | compare _ _ lhs rhs => lhs.isSimple && rhs.isSimple
  | equality _ _ lhs rhs => lhs.isSimple && rhs.isSimple
  | logical _ _ lhs rhs => lhs.isSimple && rhs.isSimple
  | call _ none _ args (some method) => method.isStatic && listIsSimple args
  | _ => false

def listIsSimple : List Expr → Bool
  | [] => true
  | first :: rest => first.isSimple && listIsSimple rest

end

section

variable (registry : Registry) (world : World) (locals : Nat → Value)

mutual

/-- The value of a simple expression, and all calls afterwards, latest first. -/
def eval : Expr → List Call → Value × List Call
  | literal _ value, calls => (world.literal value, calls)
  | name _ _ (some (.slot slot)), calls => (locals slot, calls)
  | not _ operand, calls =>
    let result := operand.eval calls
    (.bool (result.1 == .bool false), result.2)
  | compare _ op lhs rhs, calls =>
    let left := lhs.eval calls
    let right := rhs.eval left.2
    (.bool (op.holds (left.1.compare? right.1)), right.2)
  | equality _ op lhs rhs, calls =>
    let left := lhs.eval calls
    let right := rhs.eval left.2
    (.bool (op.holds (world.same left.1 right.1)), right.2)
  | logical _ op lhs rhs, calls =>
    let left := lhs.eval calls
    if left.1 = .bool (op == .or) then left else rhs.eval left.2
  | call _ _ text args (some method), calls =>
    let values := evalList args calls
    let call : Call :=
      ⟨registry.internalName method.owner, text, method.descriptor, values.1⟩
    (world.answer values.2 call, call :: values.2)
  | _, calls => (default, calls)

def evalList : List Expr → List Call → List Value × List Call
  | [], calls => ([], calls)
  | first :: rest, calls =>
    let value := first.eval calls
    let values := evalList rest value.2
    (value.1 :: values.1, values.2)

end

end

/-- The local that an expression names. -/
def namedLocal? : Expr → Option Local
  | name n _ (some (.slot slot)) => n.ty.map fun ty => { slot, ty }
  | _ => none

/-- Every local that the expression names holds a value of its type. -/
def HeldBy (locals : Nat → Value) (e : Expr) : Prop :=
  ∀ d ∈ e.nodes, ∀ named, d.namedLocal? = some named → (locals named.slot).Fits named.ty

variable {locals : Nat → Value} {e c : Expr}

theorem HeldBy.child (h : e.HeldBy locals) (hc : c ∈ e.children) : c.HeldBy locals :=
  fun d hd => h d (mem_nodes.mpr (.inr ⟨c, hc, hd⟩))

theorem isSimple_of_mem {args : List Expr} (h : listIsSimple args = true) :
    ∀ a ∈ args, a.isSimple = true := by
  induction args with
  | nil => exact fun a ha => (List.not_mem_nil ha).elim
  | cons first rest ih =>
    obtain ⟨hfirst, hrest⟩ := Bool.and_eq_true_iff.mp h
    exact List.forall_mem_cons.mpr ⟨hfirst, ih hrest⟩

end Expr

/-! ## Pieces -/

open Emit

variable {world : World} {locals : Nat → Value} {calls : List Call} {stack : List Value}

theorem leads_test {selected : BranchTest} {v w : Value} {taken : Bool}
    (h : selected.Decides v w taken) (target : Label) :
    (ExprCode.test selected target).Leads (valueMachine world) ⟨w :: v :: stack, locals, calls⟩
      (.done (.branch taken target ⟨stack, locals, calls⟩)) := by
  have hdecides := h stack
  unfold ExprCode.test
  cases hcompare : selected.compare with
  | none =>
    rw [hcompare] at hdecides
    exact leads_then (leads_pure _) (completes_pure) (leads_jump hdecides target)
  | some code =>
    rw [hcompare] at hdecides
    obtain ⟨n, hreturn, haccess, hoperate, hjump⟩ := hdecides
    exact leads_then (leads_then (leads_op hreturn haccess (hoperate world)) (completes_instr _)
      (leads_pure _)) (succeeds_ops [code]).completes (leads_jump hjump target)

/-- The call of a static method, with the values of the arguments on the stack. -/
theorem leads_call {method : MethodRef} {params args : List Ty} (h : method.Takes params args)
    (hstatic : method.isStatic = true) {values : List Value}
    (hvalues : values.map Value.kind = args.map Ty.kind) (owner name : String) :
    (instr (.member (ExprCode.invokeOp method) owner name method.descriptor)).Leads
      (valueMachine world) ⟨values.reverse ++ stack, locals, calls⟩
      (.done (.next ⟨method.returnTy.results.map (fun _ =>
          world.answer calls ⟨owner, name, method.descriptor, values⟩) ++ stack, locals,
        ⟨owner, name, method.descriptor, values⟩ :: calls⟩)) := by
  have hread := h.descriptor.method?_eq h.values h.returnTy
  have hkinds := hvalues.trans h.kinds_eq
  have hlength : (params.map Ty.kind).length = values.reverse.length := by
    rw [← hkinds, List.length_map, List.length_reverse]
  refine leads_exec ?_
  unfold ExprCode.invokeOp
  rw [if_pos hstatic]
  show (world.call _ _ _ _).map Effect.next = _
  unfold World.call
  rw [hread]
  dsimp only
  rw [hlength, List.take_left, List.drop_left, List.reverse_reverse, if_pos hkinds]
  rfl

/-- The answer of a call is a value of its type. -/
theorem fits_answer {method : MethodRef} {params args : List Ty} (h : method.Takes params args)
    (hvoid : method.returnTy ≠ .void) (calls : List Call) {call : Call}
    (hcall : call.descriptor = method.descriptor) :
    (world.answer calls call).Fits method.returnTy := by
  have hread := h.descriptor.method?_eq h.values h.returnTy
  rw [Ty.results, if_neg hvoid, ← hcall] at hread
  refine ⟨world.answer_kind _ _ _ _ hread, fun hboolean => ?_⟩
  rw [hboolean, Ty.kind_boolean] at hread
  refine world.answer_truth _ _ _ hread ?_
  obtain ⟨registry, -, hdescriptor⟩ := h.descriptor
  refine ⟨"(" ++ String.join (params.map registry.descriptor), ?_⟩
  have hletter : registry.descriptor .boolean = "Z" := by
    unfold Registry.descriptor
    rw [show Ty.boolean = .prim .boolean from rfl, Ty.prim?_prim]
    rfl
  rw [hcall, hdescriptor, Registry.methodDescriptor, hboolean, hletter, String.append_assoc]
  rfl

/-! ## Expressions -/

namespace ExprCode

/-- The code gives the value of the expression, in both uses that an operand has. -/
structure Computes (world : World) (locals : Nat → Value) (calls : List Call) (code : ExprCode)
    (ty : Ty) (result : Value × List Call) : Prop where
  fits : ty ≠ .void → result.1.Fits ty
  value : ∀ stack, code.value.Leads (valueMachine world) ⟨stack, locals, calls⟩
    (.done (.next ⟨ty.results.map (fun _ => result.1) ++ stack, locals, result.2⟩))
  branch : ty = .boolean → ∀ target onTrue stack,
    (code.branch target onTrue).Leads (valueMachine world) ⟨stack, locals, calls⟩
      (.done (.branch (result.1 == .bool onTrue) target ⟨stack, locals, result.2⟩))

variable {registry : Registry} {ty : Ty} {v : Value} {after : List Call}
  {result : Value × List Call}

theorem Computes.push {code : ExprCode} (h : code.Computes world locals calls ty result)
    (hty : ty ≠ .void) (stack : List Value) :
    code.value.Leads (valueMachine world) ⟨stack, locals, calls⟩
      (.done (.next ⟨result.1 :: stack, locals, result.2⟩)) := by
  have hvalue := h.value stack
  rwa [Ty.results, if_neg hty] at hvalue

/-- Jumps on a truth value. -/
theorem leads_branchOnValue {value : Emit Unit} (hcompletes : value.Completes) {b : Bool}
    (h : value.Leads (valueMachine world) ⟨stack, locals, calls⟩
      (.done (.next ⟨.bool b :: stack, locals, after⟩))) (target : Label) (onTrue : Bool) :
    (branchOnValue value target onTrue).Leads (valueMachine world) ⟨stack, locals, calls⟩
      (.done (.branch (b == onTrue) target ⟨stack, locals, after⟩)) := by
  refine leads_then h hcompletes (leads_jump ?_ target)
  cases b <;> cases onTrue <;> rfl

theorem computes_ofValue {value operands append : Emit Unit} (hcompletes : value.Completes)
    (hfits : ty ≠ .void → v.Fits ty)
    (h : ∀ stack, value.Leads (valueMachine world) ⟨stack, locals, calls⟩
      (.done (.next ⟨ty.results.map (fun _ => v) ++ stack, locals, after⟩))) :
    (⟨value, branchOnValue value, operands, append⟩ : ExprCode).Computes world locals calls ty
      (v, after) := by
  refine ⟨hfits, h, fun hboolean target onTrue stack => ?_⟩
  subst hboolean
  obtain ⟨b, rfl⟩ := (hfits Ty.isValue_boolean.2).bool
  have hvalue := h stack
  rw [Ty.results_of_isValue Ty.isValue_boolean] at hvalue
  rw [Value.bool_beq]
  exact leads_branchOnValue hcompletes hvalue target onTrue

/-- The jump on a condition is taken as its value says. -/
def JumpsOn (world : World) (locals : Nat → Value) (calls : List Call)
    (branch : Label → Bool → Emit Unit) (b : Bool) (after : List Call) : Prop :=
  ∀ target onTrue stack, (branch target onTrue).Leads (valueMachine world) ⟨stack, locals, calls⟩
    (.done (.branch (b == onTrue) target ⟨stack, locals, after⟩))

variable {branch : Label → Bool → Emit Unit}

theorem Computes.jumpsOn {code : ExprCode} (h : code.Computes world locals calls .boolean result)
    {b : Bool} (hb : result.1 = .bool b) : JumpsOn world locals calls code.branch b result.2 := by
  intro target onTrue stack
  rw [← Value.bool_beq, ← hb]
  exact h.branch rfl target onTrue stack

theorem leads_valueOfBranch (hcompletes : ∀ target onTrue, (branch target onTrue).Completes)
    {b : Bool} (h : JumpsOn world locals calls branch b after) (stack : List Value) :
    (valueOfBranch branch).Leads (valueMachine world) ⟨stack, locals, calls⟩
      (.done (.next ⟨.bool b :: stack, locals, after⟩)) := by
  refine leads_newLabel fun onFalse => leads_newLabel fun done => ?_
  have hbranch := h onFalse false stack
  cases b with
  | true =>
    exact leads_then hbranch (hcompletes _ _) (leads_then (leads_exec rfl) (completes_instr _)
      (leads_into (leads_goto _ _) (completes_instr _) (leadsInside_bind (completes_instr _)
      (leadsInside_bind (completes_instr _) (leadsInside_place _ _)))))
  | false =>
    exact leads_into hbranch (hcompletes _ _) (leadsInside_bind (completes_instr _)
      (leadsInside_bind (completes_instr _) (leadsInside_place_bind (leads_then (leads_exec rfl)
      (completes_instr _) (leads_place (exec_label _ _))) _)))

theorem computes_ofBranch (hcompletes : ∀ target onTrue, (branch target onTrue).Completes)
    {b : Bool} (h : JumpsOn world locals calls branch b after) (e : Expr) :
    (ofBranch e branch).Computes world locals calls .boolean (.bool b, after) := by
  refine ⟨fun _ => Value.fits_bool b, fun stack => ?_, fun _ target onTrue stack => ?_⟩
  · rw [Ty.results_of_isValue Ty.isValue_boolean]
    exact leads_valueOfBranch hcompletes h stack
  · rw [Value.bool_beq]
    exact h target onTrue stack

theorem leads_logicalJump (op : LogicalOp) {left right : Label → Bool → Emit Unit}
    (hleft : ∀ target onTrue, (left target onTrue).Completes)
    (hright : ∀ target onTrue, (right target onTrue).Completes) {a b : Bool} {middle : List Call}
    (hl : JumpsOn world locals calls left a middle)
    (hr : JumpsOn world locals middle right b after) :
    JumpsOn world locals calls (logicalJump op left right) (if a = (op == .or) then a else b)
      (if a = (op == .or) then middle else after) := by
  intro target onTrue stack
  unfold logicalJump
  by_cases hop : onTrue = (op == .or)
  · rw [if_pos hop, ← hop]
    have hfirst := hl target onTrue stack
    by_cases ha : a = onTrue
    · rw [if_pos ha, if_pos ha]
      rw [beq_iff_eq.mpr ha] at hfirst ⊢
      exact leads_stop hfirst rfl
    · rw [if_neg ha, if_neg ha]
      rw [beq_eq_false_iff_ne.mpr ha] at hfirst
      exact leads_then hfirst (hleft _ _) (hr target onTrue stack)
  · have hop' : (!onTrue) = (op == .or) := by
      cases onTrue <;> cases hor : op == .or <;> simp_all
    rw [if_neg hop, ← hop']
    refine leads_newLabel fun skip => ?_
    have hfirst := hl skip (!onTrue) stack
    by_cases ha : a = !onTrue
    · rw [if_pos ha, if_pos ha, show (a == onTrue) = false by rw [ha]; cases onTrue <;> rfl]
      rw [beq_iff_eq.mpr ha] at hfirst
      exact leads_into hfirst (hleft _ _) (leadsInside_bind (hright _ _) (leadsInside_place _ _))
    · rw [if_neg ha, if_neg ha]
      rw [beq_eq_false_iff_ne.mpr ha] at hfirst
      refine leads_then hfirst (hleft _ _) ?_
      have hsecond := hr target onTrue stack
      cases hb : b == onTrue with
      | true =>
        rw [hb] at hsecond
        exact leads_stop hsecond rfl
      | false =>
        rw [hb] at hsecond
        exact leads_then hsecond (hright _ _) (leads_place (exec_label _ _))

theorem computes_literal (n : Node) (value : Literal) (calls : List Call) :
    ((Expr.literal n value).code registry).Computes world locals calls value.ty
      (world.literal value, calls) := by
  have hfits : value.ty ≠ .void → (world.literal value).Fits value.ty := fun _ => fits_literal value
  have hvalue : ∀ stack, (instr (literalInstr value)).Leads (valueMachine world)
      ⟨stack, locals, calls⟩ (.done (.next ⟨value.ty.results.map (fun _ => world.literal value)
        ++ stack, locals, calls⟩)) := by
    intro stack
    rw [Ty.results_of_isValue value.ty_isValue]
    exact leads_exec (Instr.exec_literal value)
  cases value with
  | bool b =>
    refine ⟨hfits, hvalue, fun _ target onTrue stack => ?_⟩
    show (literalBranch b target onTrue).Leads _ _ (.done (.branch (Value.bool b == .bool onTrue) _ _))
    rw [Value.bool_beq]
    unfold literalBranch
    by_cases hb : b = onTrue
    · rw [if_pos hb, beq_iff_eq.mpr hb]
      exact leads_goto target _
    · rw [if_neg hb, beq_eq_false_iff_ne.mpr hb]
      exact leads_pure _
  | _ => exact computes_ofValue (completes_instr _) hfits hvalue

theorem completes_args {args : List Expr} (h : ∀ a ∈ args, (a.code registry).value.Completes) :
    (Expr.argsCode registry args).Completes := by
  induction args with
  | nil => exact completes_pure
  | cons first rest ih =>
    exact completes_bind (h first List.mem_cons_self)
      (ih fun a ha => h a (List.mem_cons_of_mem _ ha))

/-- The arguments of a call are pushed from left to right. -/
theorem leads_args {args : List Expr}
    (hargs : ∀ a ∈ args, a.tyOrAny ≠ .void ∧ (a.code registry).value.Completes
      ∧ ∀ calls, (a.code registry).Computes world locals calls a.tyOrAny
        (a.eval registry world locals calls)) (calls : List Call) (stack : List Value) :
    (Expr.argsCode registry args).Leads (valueMachine world) ⟨stack, locals, calls⟩
        (.done (.next ⟨(Expr.evalList registry world locals args calls).1.reverse ++ stack, locals,
          (Expr.evalList registry world locals args calls).2⟩))
      ∧ (Expr.evalList registry world locals args calls).1.map Value.kind
        = (args.map Expr.tyOrAny).map Ty.kind := by
  induction args generalizing calls stack with
  | nil => exact ⟨leads_pure _, rfl⟩
  | cons first rest ih =>
    obtain ⟨hvoid, hcompletes, hfirst⟩ := hargs first List.mem_cons_self
    obtain ⟨hrest, hkinds⟩ := ih (fun a ha => hargs a (List.mem_cons_of_mem _ ha))
      (first.eval registry world locals calls).2
      ((first.eval registry world locals calls).1 :: stack)
    constructor
    · refine leads_then ((hfirst calls).push hvoid stack) hcompletes ?_
      simpa [Expr.evalList] using hrest
    · rw [List.map_cons, List.map_cons, ← hkinds, ← ((hfirst calls).fits hvoid).kind]
      rfl

end ExprCode

open ExprCode

theorem Expr.isSimple_call {n : Node} {target : Option Expr} {text : String} {args : List Expr}
    {method : MethodRef} (h : (Expr.call n target text args (some method)).isSimple = true) :
    target = none ∧ method.isStatic = true ∧ ∀ a ∈ args, a.isSimple = true := by
  cases target with
  | none =>
    obtain ⟨hstatic, hargs⟩ := Bool.and_eq_true_iff.mp h
    exact ⟨rfl, hstatic, isSimple_of_mem hargs⟩
  | some => cases h

section

variable {ctx : BodyCtx} {registry : Registry} {lhs rhs : Expr} {left right : Ty}
  {l r : Value × List Call}

/-- Both operands of a relation, and the jump on it. -/
theorem jumpsOn_compare {operand : Ty} (hoperand : operand ∈ comparableTypes)
    (hlhs : lhs.Accepted ctx operand) (hrhs : rhs.Accepted ctx operand)
    (hl : (lhs.code registry).Computes world locals calls operand l)
    (hr : (rhs.code registry).Computes world locals l.2 operand r) (op : CompareOp) :
    JumpsOn world locals calls
      (compareJump registry op lhs (lhs.code registry).value (rhs.code registry).value)
      (op.holds (l.1.compare? r.1)) r.2 := by
  intro target onTrue stack
  have hvoid : operand ≠ .void := by
    rcases List.mem_pair.mp hoperand with rfl | rfl
    · exact (Ty.isValue_prim (p := .int) (by decide)).2
    · exact (Ty.isValue_prim (p := .double) (by decide)).2
  obtain ⟨selected, hselected⟩ := compareBranch?_isSome op hoperand onTrue
  have hdecides := decides_compare hselected (hl.fits hvoid).kind (hr.fits hvoid).kind
  rw [compareJump_eq hlhs hselected]
  exact leads_then (hl.push hvoid _) (hlhs.succeeds registry).value.completes
    (leads_then (hr.push hvoid _) (hrhs.succeeds registry).value.completes
    (leads_test hdecides target))

/-- Both operands of an equality, with their conversions, and the jump on it. -/
theorem jumpsOn_equality {kind : EqualityKind} (hkind : equalityKind? left right = some kind)
    (hlhs : lhs.Accepted ctx left) (hrhs : rhs.Accepted ctx right)
    (hl : (lhs.code registry).Computes world locals calls left l)
    (hr : (rhs.code registry).Computes world locals l.2 right r) (op : EqualityOp) :
    JumpsOn world locals calls
      (equalityJump op lhs rhs (lhs.code registry).value (rhs.code registry).value)
      (op.holds (world.same l.1 r.1)) r.2 := by
  intro target onTrue stack
  obtain ⟨hleft, hright, -⟩ := equality_converts hkind
  obtain ⟨common, hcompares⟩ := equality_decides hkind (hl.fits hleft.isValue.2)
    (hr.fits hright.isValue.2)
  rw [equalityJump_eq hlhs hrhs hkind]
  exact leads_then (hl.push hleft.isValue.2 _) (hlhs.succeeds registry).value.completes
    (leads_then (hcompares.first _ _ _) (succeeds_ops _).completes
    (leads_then (hr.push hright.isValue.2 _) (hrhs.succeeds registry).value.completes
    (leads_then (hcompares.second _ _ _) (succeeds_ops _).completes
    (leads_test (hcompares.jump op onTrue) target))))

/-- The right operand of a logical operator counts where the left one does not decide. -/
theorem eval_logical {a b : Bool} (ha : (lhs.eval registry world locals calls).1 = .bool a)
    (hb : (rhs.eval registry world locals (lhs.eval registry world locals calls).2).1 = .bool b)
    (n : Node) (op : LogicalOp) : (Expr.logical n op lhs rhs).eval registry world locals calls
      = (.bool (if a = (op == .or) then a else b), if a = (op == .or) then
        (lhs.eval registry world locals calls).2
        else (rhs.eval registry world locals (lhs.eval registry world locals calls).2).2) := by
  have hdecided : (lhs.eval registry world locals calls).1 = .bool (op == .or)
      ↔ a = (op == .or) := by
    rw [ha, ← beq_iff_eq, Value.bool_beq, beq_iff_eq]
  show (if _ then _ else _) = _
  by_cases hop : a = (op == .or)
  · rw [if_pos (hdecided.mpr hop), if_pos hop, if_pos hop, ← ha]
  · rw [if_neg (mt hdecided.mp hop), if_neg hop, if_neg hop, ← hb]

end

/-- The code of a simple expression computes its value, as a value and as a jump. -/
theorem Expr.Accepted.computes {ctx : BodyCtx} {e : Expr} {ty : Ty} (h : e.Accepted ctx ty)
    (hsimple : e.isSimple = true) (hheld : e.HeldBy locals) (registry : Registry) (world : World)
    (calls : List Call) : (e.code registry).Computes world locals calls ty
      (e.eval registry world locals calls) := by
  have he := h
  induction h generalizing calls with
  | literal => exact computes_literal _ _ _
  | @slot n text index ty hty hlocal hvalue =>
    have hfits : (locals index).Fits ty :=
      hheld _ (mem_nodes_self _) ⟨index, ty⟩ (Option.map_eq_some_iff.mpr ⟨ty, hty, rfl⟩)
    have hload : nameValue registry n text (some (.slot index)) = instr (.load ty index) := by
      unfold nameValue
      dsimp only
      rw [he.provenTy, Emit.pure_bind]
    refine computes_ofValue (he.succeeds registry).value.completes (fun _ => hfits) fun stack => ?_
    rw [hload, Ty.results_of_isValue hvalue]
    exact leads_exec (Instr.exec_load hfits.kind)
  | @not n operand hty hoperand ih =>
    have hcomputes := ih hsimple (hheld.child List.mem_cons_self) calls hoperand
    obtain ⟨b, hb⟩ := (hcomputes.fits Ty.isValue_boolean.2).bool
    have heval : (Expr.not n operand).eval registry world locals calls
        = (.bool (!b), (operand.eval registry world locals calls).2) := by
      show (Value.bool (_ == Value.bool false), _) = _
      rw [hb, Value.bool_beq, beq_false]
    rw [heval]
    refine computes_ofBranch (fun target onTrue =>
      ((he.succeeds registry).branch target onTrue).completes) (fun target onTrue stack => ?_) _
    have hjumps := hcomputes.jumpsOn hb target (!onTrue) stack
    rwa [show ((!b) == onTrue) = (b == !onTrue) by cases b <;> cases onTrue <;> rfl]
  | @compare n op lhs rhs operand hty hlhs hrhs hoperand ihl ihr =>
    obtain ⟨hl, hr⟩ := Bool.and_eq_true_iff.mp hsimple
    have hleft := ihl hl (hheld.child List.mem_cons_self) calls hlhs
    have hright := ihr hr (hheld.child (List.mem_cons_of_mem _ List.mem_cons_self))
      (lhs.eval registry world locals calls).2 hrhs
    exact computes_ofBranch (fun target onTrue =>
      ((he.succeeds registry).branch target onTrue).completes)
      (jumpsOn_compare hoperand hlhs hrhs hleft hright op) _
  | @equality n op lhs rhs left right kind hty hlhs hrhs hkind ihl ihr =>
    obtain ⟨hl, hr⟩ := Bool.and_eq_true_iff.mp hsimple
    have hleft := ihl hl (hheld.child List.mem_cons_self) calls hlhs
    have hright := ihr hr (hheld.child (List.mem_cons_of_mem _ List.mem_cons_self))
      (lhs.eval registry world locals calls).2 hrhs
    exact computes_ofBranch (fun target onTrue =>
      ((he.succeeds registry).branch target onTrue).completes)
      (jumpsOn_equality hkind hlhs hrhs hleft hright op) _
  | @logical n op lhs rhs hty hlhs hrhs ihl ihr =>
    obtain ⟨hl, hr⟩ := Bool.and_eq_true_iff.mp hsimple
    have hleft := ihl hl (hheld.child List.mem_cons_self) calls hlhs
    have hright := ihr hr (hheld.child (List.mem_cons_of_mem _ List.mem_cons_self))
      (lhs.eval registry world locals calls).2 hrhs
    obtain ⟨a, ha⟩ := (hleft.fits Ty.isValue_boolean.2).bool
    obtain ⟨b, hb⟩ := (hright.fits Ty.isValue_boolean.2).bool
    have hjumps := leads_logicalJump op
      (fun target onTrue => ((hlhs.succeeds registry).branch target onTrue).completes)
      (fun target onTrue => ((hrhs.succeeds registry).branch target onTrue).completes)
      (hleft.jumpsOn ha) (hright.jumpsOn hb)
    rw [eval_logical ha hb]
    exact computes_ofBranch (fun target onTrue =>
      ((he.succeeds registry).branch target onTrue).completes) hjumps _
  | @call n target text args method params hty htarget href hthis hargs htakes ihtarget ihargs =>
    obtain ⟨rfl, hstatic, hsimples⟩ := isSimple_call hsimple
    have hcompletes : ∀ a ∈ args, (a.code registry).value.Completes := fun a ha =>
      ((hargs a ha).succeeds registry).value.completes
    have hpushed := leads_args fun a ha => ⟨(htakes.args_isValue _ (List.mem_map_of_mem ha)).2,
      hcompletes a ha, fun calls =>
        ihargs a ha (hsimples a ha) (hheld.child ha) calls (hargs a ha)⟩
    refine computes_ofValue (he.succeeds registry).value.completes (fun hvoid =>
      fits_answer htakes hvoid _ rfl) fun stack => ?_
    obtain ⟨hleads, hkinds⟩ := hpushed calls stack
    rw [callValue_eq, Emit.optionally, hstatic]
    exact leads_then (leads_pure _) completes_pure (leads_then hleads (completes_args hcompletes)
      (leads_call htakes hstatic hkinds _ _))
  | _ => cases hsimple

end ClassCompiler
