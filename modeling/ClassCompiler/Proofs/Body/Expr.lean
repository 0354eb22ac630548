import ClassCompiler.Body.Expr
import ClassCompiler.Proofs.Body.Typing
import ClassCompiler.Proofs.Check
import ClassCompiler.Proofs.Scope
import ClassCompiler.Proofs.Tree.Nodes

/-!
# Analysis of expressions accepts

An expression that is analyzed without an error is accepted, whatever it was before: the induction
is on the tree that the parser gave, and the tree that comes out may have other forms in it. The
scope keeps its frame.

* `ExprEnv.Sound`: the surroundings of an expression
* `Expr.check_clean`
-/

namespace ClassCompiler

open Check

/-! ## Names and members -/

structure ExprEnv.Sound (env : ExprEnv) : Prop where
  classes : env.classes.Sound
  registry : env.registry.Sound
  owner : env.owner.isReference = true

namespace ExprEnv.Sound

variable {env : ExprEnv} {ctx : BodyCtx} {scope : Scope} {node : Node} {name : String}

theorem bindName_clean (henv : env.Sound) (hscope : scope.Within ctx)
    (h : (env.bindName scope node name).2 = []) :
    ∃ ty, (env.bindName scope node name).1.Accepted ctx ty := by
  unfold ExprEnv.bindName at h ⊢
  split
  · next var hvar =>
    obtain ⟨hlocal, hvalue⟩ := hscope.lookup? hvar
    exact ⟨var.ty, .slot rfl hlocal hvalue⟩
  · next hnone =>
    split
    · next field hfield =>
      obtain ⟨hvalue, -⟩ := henv.classes.field henv.registry
        (Ty.ne_any_of_isReference henv.owner) hfield
      refine ⟨field.ty, .ownField rfl hvalue ?_⟩
      rw [hnone, hfield] at h
      cases hstatic : field.isStatic with
      | true => exact .inl rfl
      | false =>
        refine .inr ?_
        rw [← hscope.isStatic]
        by_contra hs
        simp [hs, staticFieldErrors, hstatic] at h
    · next hfield =>
      rw [hnone, hfield] at h
      cases h

theorem staticField_clean (henv : env.Sound) {owner : Ty} (howner : owner ≠ .any)
    (h : (env.staticField owner node name).2 = []) :
    ∃ ty, (env.staticField owner node name).1.Accepted ctx ty := by
  unfold ExprEnv.staticField at h ⊢
  split
  · next field hfield =>
    obtain ⟨hvalue, -⟩ := henv.classes.field henv.registry howner hfield
    refine ⟨field.ty, .ownField rfl hvalue (.inl ?_)⟩
    rw [hfield] at h
    by_contra hs
    simp [staticFieldErrors, hs] at h
  · next hfield =>
    rw [hfield] at h
    cases h

theorem selectField_clean (henv : env.Sound) {target : Expr} {owner : Ty}
    (htarget : target.Accepted ctx owner) (h : (env.selectField node target name).2 = []) :
    ∃ ty, (env.selectField node target name).1.Accepted ctx ty := by
  have hany := htarget.ne_any
  unfold ExprEnv.selectField at h ⊢
  simp only [htarget.tyOrAny_eq, if_neg hany] at h ⊢
  split
  · next hlength =>
    rw [Bool.and_eq_true] at hlength
    obtain ⟨element, helement⟩ := Option.isSome_iff_exists.mp hlength.2
    exact ⟨.int, .length rfl htarget (henv.registry.elementType? helement).1⟩
  · next hlength =>
    rw [if_neg hlength] at h
    split
    · next field hfield =>
      obtain ⟨hvalue, href⟩ := henv.classes.field henv.registry hany hfield
      split
      · next hstatic => exact ⟨field.ty, .ownField rfl hvalue (.inl hstatic)⟩
      · next hstatic =>
        exact ⟨field.ty, .field rfl hvalue (Bool.not_eq_true _ ▸ hstatic) htarget href⟩
    · next hfield =>
      rw [hfield] at h
      cases h

theorem selectMethod_clean (henv : env.Sound) {receiver : Receiver} {target : Option Expr}
    {args : List Expr} (hany : receiver.ty ≠ .any)
    (htarget : ∀ e, target = some e → e.Accepted ctx e.tyOrAny ∧ receiver.ty = e.tyOrAny)
    (hthis : target = none → receiver.staticOnly = true ∨ ctx.isStatic = false)
    (hargs : ∀ a ∈ args, a.Accepted ctx a.tyOrAny)
    (h : (env.selectMethod receiver node target name args).2 = []) :
    ∃ ty, (env.selectMethod receiver node target name args).1.Accepted ctx ty := by
  unfold ExprEnv.selectMethod at h ⊢
  simp only [if_neg hany] at h ⊢
  split
  · next method hmethod =>
    have htypes : ∀ ty ∈ args.map Expr.tyOrAny, ty ≠ .any := by
      intro ty hty
      obtain ⟨a, ha, rfl⟩ := List.mem_map.mp hty
      exact (hargs a ha).ne_any
    obtain ⟨⟨params, htakes⟩, href⟩ :=
      henv.classes.method henv.registry hany htypes hmethod
    refine ⟨method.returnTy, .call rfl (fun e he => (htarget e he).1) (fun e he => ?_)
      (fun hnone => ?_) hargs htakes⟩
    · rw [← (htarget e he).2]
      exact href
    · rcases hthis hnone with hstaticOnly | hinstance
      · refine .inl ?_
        by_contra hs
        rw [hmethod] at h
        simp [hstaticOnly, hs] at h
      · exact .inr hinstance
  · next hmethod =>
    rw [hmethod] at h
    cases h

theorem typeQualifier?_ne_any (henv : env.Sound) {scope : Scope} {e : Expr} {ty : Ty}
    (h : env.typeQualifier? scope e = some ty) : ty ≠ .any := by
  unfold ExprEnv.typeQualifier? at h
  obtain ⟨text, -, h⟩ := Option.bind_eq_some_iff.mp h
  dsimp only at h
  split at h
  · cases h
  · obtain ⟨found, -, h⟩ := Option.bind_eq_some_iff.mp h
    rintro rfl
    split at h
    · next hkind =>
      cases h
      rw [henv.registry.any] at hkind
      cases hkind
    · next hkind =>
      cases h
      rw [henv.registry.any] at hkind
      cases hkind
    · cases h

end ExprEnv.Sound

/-! ## Targets and receivers

The parts of an analysis that are chosen by the form of an operand, with the equations that put them
in front of what follows. -/

namespace Expr

/-- The target of an assignment or increment. -/
def checkTarget (env : ExprEnv) (e : Expr) : Check Scope Expr :=
  match e.simpleName? with
  | some text => bindTarget env e.line text
  | none => asTarget e <$> e.check env

theorem check_assign (env : ExprEnv) (n : Node) (op : AssignOp) (lhs rhs : Expr) :
    (assign n op lhs rhs).check env = (do
      let lhs ← checkTarget env lhs
      if lhs.isAssignable then
        let rhs ← rhs.check env
        lhs.markAssigned
        let (stored, judgement) := judgeAssign env.registry op lhs rhs n.line
        Check.note (assign (judged n judgement) op lhs stored) judgement.errors
      else
        Check.report (.illegalLvalue n.line)
        let rhs ← rhs.check env
        return assign { n with ty := none } op lhs rhs) := by
  conv => lhs; unfold check
  unfold checkTarget
  cases lhs.simpleName? <;> rfl

theorem check_increment (env : ExprEnv) (n : Node) (op : IncrementOp) (operand : Expr) :
    (increment n op operand).check env = (do
      let operand ← checkTarget env operand
      if operand.isAssignable then
        let judgement := judgeIncrement env.registry op operand n.line
        Check.note (increment (judged n judgement) op operand) judgement.errors
      else
        Check.note (increment { n with ty := none } op operand) [.illegalLvalue n.line]) := by
  conv => lhs; unfold check
  unfold checkTarget
  cases operand.simpleName? <;> rfl

theorem check_field (env : ExprEnv) (n : Node) (target : Expr) (name : String)
    (ref : Option FieldRef) :
    (field n target name ref).check env = (do
      match ← Check.read fun scope => env.typeQualifier? scope target with
      | some owner =>
        Check.note (env.staticField owner n name).1 (env.staticField owner n name).2
      | none =>
        let target ← target.check env
        Check.note (env.selectField n target name).1 (env.selectField n target name).2) := by
  conv => lhs; unfold check
  all_goals rfl

/-- The receiver of a call: the target that has a value of its own, and where to look the method
up. -/
def checkReceiver (env : ExprEnv) (target : Option Expr) :
    Check Scope (Option Expr × ExprEnv.Receiver) :=
  match target with
  | none => do
    let isStatic ← Check.read Scope.isStatic
    return (none, ⟨env.owner, isStatic⟩)
  | some target => do
    match ← Check.read fun scope => env.typeQualifier? scope target with
    | some owner => return (none, ⟨owner, true⟩)
    | none =>
      let target ← target.check env
      return (some target, ⟨target.tyOrAny, false⟩)

theorem check_call (env : ExprEnv) (n : Node) (target : Option Expr) (text : String)
    (args : List Expr) (method : Option MethodRef) :
    (call n target text args method).check env = (do
      let receiver ← checkReceiver env target
      let args ← checkList env args
      let selected := env.selectMethod receiver.2 n receiver.1 text args
      Check.note selected.1 selected.2) := by
  conv => lhs; unfold check
  unfold checkReceiver
  cases target with
  | none => rfl
  | some target =>
    rw [bind_assoc]
    refine congrArg (Bind.bind _) (funext fun found => ?_)
    cases found <;> simp only [bind_assoc, pure_bind]

end Expr

/-! ## Names of locals -/

namespace ExprEnv

variable (env : ExprEnv) (n : Node) (text : String)

theorem local?_staticField (owner : Ty) : (env.staticField owner n text).1.local? = none := by
  unfold staticField
  split <;> rfl

theorem local?_selectField (target : Expr) : (env.selectField n target text).1.local? = none := by
  unfold selectField
  dsimp only
  repeat' split
  all_goals rfl

theorem local?_selectMethod (receiver : Receiver) (target : Option Expr) (args : List Expr) :
    (env.selectMethod receiver n target text args).1.local? = none := by
  unfold selectMethod
  dsimp only
  repeat' split
  all_goals rfl

end ExprEnv

namespace Expr

theorem local?_withNode (n : Node) (e : Expr) : (e.withNode n).local? = e.local? := by
  cases e with
  | name _ _ binding => rcases binding with _ | _ | _ <;> rfl
  | _ => rfl

/-- Only a name becomes a name of a local. -/
theorem local?_check {env : ExprEnv} {e : Expr} (h : e.simpleName? = none) :
    (e.check env).Gives fun out => out.local? = none := by
  cases e with
  | name => cases h
  | literal => unfold check; exact gives_pure rfl
  | self => unfold check; exact gives_then fun _ => gives_note _ rfl
  | field n target text ref =>
    unfold check
    refine gives_then fun found => ?_
    cases found with
    | some owner =>
      exact gives_note _ (env.local?_staticField n text owner)
    | none => exact gives_then fun out => gives_note _ (env.local?_selectField n text out)
  | length | unary | not =>
    unfold check
    exact gives_then fun _ => gives_note _ rfl
  | binary =>
    unfold check
    refine gives_then fun _ => gives_then fun _ => ?_
    split <;> exact gives_note _ rfl
  | index | compare | equality | logical | concat =>
    unfold check
    exact gives_then fun _ => gives_then fun _ => gives_note _ rfl
  | assign =>
    rw [check_assign]
    refine gives_then fun _ => ?_
    split
    · exact gives_then fun _ => gives_then fun _ => gives_note _ rfl
    · exact gives_then fun _ => gives_then fun _ => gives_pure rfl
  | increment =>
    rw [check_increment]
    refine gives_then fun _ => ?_
    split <;> exact gives_note _ rfl
  | call =>
    rw [check_call]
    exact gives_then fun receiver => gives_then fun args =>
      gives_note _ (env.local?_selectMethod _ _ receiver.2 receiver.1 args)

/-! ## Expressions -/

/-- What a clean analysis leaves: an accepted tree, and a scope in the same frame. -/
structure Settled (ctx : BodyCtx) (before : Scope) (e : Expr) (after : Scope) : Prop where
  within : after.Within ctx
  frame : before.SameFrame after
  accepted : e.Accepted ctx e.tyOrAny

variable {ctx : BodyCtx} {before scope : Scope}

theorem Accepted.self_ty {e : Expr} (h : ∃ ty, e.Accepted ctx ty) : e.Accepted ctx e.tyOrAny := by
  obtain ⟨ty, h⟩ := h
  rw [h.tyOrAny_eq]
  exact h

/-- A node that is added on top of settled operands. -/
theorem Settled.note {e : Expr} {errors : List CompileError} (hwithin : scope.Within ctx)
    (hframe : before.SameFrame scope) (h : errors = [] → ∃ ty, e.Accepted ctx ty) :
    (Check.note e errors).Clean scope (Settled ctx before) :=
  clean_note fun he => ⟨hwithin, hframe, Accepted.self_ty (h he)⟩

/-- The target of an assignment or increment, analyzed. -/
theorem checkTarget_clean {env : ExprEnv} (henv : env.Sound) (e : Expr)
    (hcheck : (e.check env).Clean scope (Settled ctx scope)) (hscope : scope.Within ctx) :
    (checkTarget env e).Clean scope (Settled ctx scope) := by
  unfold checkTarget
  split
  · next text htext =>
    unfold bindTarget
    refine clean_read_bind ?_
    exact Settled.note hscope (Scope.SameFrame.refl scope) fun h =>
      henv.bindName_clean hscope h
  · refine clean_map (hcheck.mono fun analyzed after h => ⟨h.within, h.frame, ?_⟩)
    unfold asTarget
    split
    · exact Accepted.self_ty ⟨_, h.accepted.markStatement false⟩
    · exact h.accepted

/-- The two operands of an operator, and a node on top of them. -/
theorem checkPair_clean {env : ExprEnv} {lhs rhs : Expr} {join : Expr → Expr → Check Scope Expr}
    (hlhs : (lhs.check env).Clean scope (Settled ctx scope))
    (hrhs : ∀ s : Scope, s.Within ctx → (rhs.check env).Clean s (Settled ctx s))
    (hjoin : ∀ l r s, l.Accepted ctx l.tyOrAny → r.Accepted ctx r.tyOrAny → Scope.Within s ctx →
      scope.SameFrame s → (join l r).Clean s (Settled ctx scope)) :
    (do
      let lhs ← lhs.check env
      let rhs ← rhs.check env
      join lhs rhs : Check Scope Expr).Clean scope (Settled ctx scope) := by
  refine clean_bind hlhs fun l s hl => clean_bind (hrhs s hl.within) fun r s' hr => ?_
  exact hjoin l r s' hl.accepted hr.accepted hr.within (hl.frame.trans hr.frame)

theorem checkList_clean {env : ExprEnv} {args : List Expr}
    (hargs : ∀ a ∈ args, ∀ s : Scope, s.Within ctx → (a.check env).Clean s (Settled ctx s))
    (hscope : scope.Within ctx) :
    (checkList env args).Clean scope fun found after => after.Within ctx
      ∧ scope.SameFrame after ∧ ∀ a ∈ found, a.Accepted ctx a.tyOrAny := by
  induction args generalizing scope with
  | nil => exact clean_pure ⟨hscope, Scope.SameFrame.refl scope, by simp⟩
  | cons first rest ih =>
    unfold checkList
    refine clean_bind (hargs first List.mem_cons_self scope hscope) fun a s ha => ?_
    refine clean_bind (ih (fun b hb => hargs b (List.mem_cons_of_mem _ hb)) ha.within) ?_
    rintro found after ⟨hwithin, hframe, hfound⟩
    refine clean_pure ⟨hwithin, ha.frame.trans hframe, fun b hb => ?_⟩
    rcases List.mem_cons.mp hb with rfl | hb
    · exact ha.accepted
    · exact hfound b hb

/-- What a clean analysis of a receiver leaves. -/
structure SettledReceiver (ctx : BodyCtx) (before : Scope)
    (receiver : Option Expr × ExprEnv.Receiver) (after : Scope) : Prop where
  within : after.Within ctx
  frame : before.SameFrame after
  ne_any : receiver.2.ty ≠ .any
  target : ∀ e, receiver.1 = some e → e.Accepted ctx e.tyOrAny ∧ receiver.2.ty = e.tyOrAny
  this : receiver.1 = none → receiver.2.staticOnly = true ∨ ctx.isStatic = false

theorem checkReceiver_clean {env : ExprEnv} (henv : env.Sound) {target : Option Expr}
    (htarget : ∀ t, target = some t → ∀ scope : Scope, scope.Within ctx →
      (t.check env).Clean scope (Settled ctx scope)) (hscope : scope.Within ctx) :
    (checkReceiver env target).Clean scope (SettledReceiver ctx scope) := by
  have hframe := Scope.SameFrame.refl scope
  cases target with
  | none =>
    refine clean_read_bind ?_
    refine clean_pure ⟨hscope, hframe, Ty.ne_any_of_isReference henv.owner,
      (fun e he => by cases he), fun _ => ?_⟩
    rw [← hscope.isStatic]
    cases scope.isStatic <;> simp
  | some target =>
    refine clean_read_bind ?_
    cases hfound : env.typeQualifier? scope target with
    | some owner =>
      exact clean_pure ⟨hscope, hframe, henv.typeQualifier?_ne_any hfound,
        (fun e he => by cases he), fun _ => .inl rfl⟩
    | none =>
      refine clean_bind (htarget target rfl scope hscope) fun target s htarget => ?_
      refine clean_pure ⟨htarget.within, htarget.frame, htarget.accepted.ne_any,
        fun e he => ?_, fun he => by cases he⟩
      cases he
      exact ⟨htarget.accepted, rfl⟩

theorem markAssigned_clean {target : Expr} (hscope : scope.Within ctx) :
    (markAssigned target).Clean scope fun _ after => after.Within ctx ∧ scope.SameFrame after := by
  unfold markAssigned
  split
  · next text _ =>
    exact clean_modify ⟨hscope.markInitialized text, Scope.sameFrame_markInitialized scope text⟩
  · exact clean_pure ⟨hscope, Scope.SameFrame.refl scope⟩

/-- An expression that is analyzed without an error is accepted. -/
theorem check_clean {env : ExprEnv} (henv : env.Sound) (e : Expr) :
    ∀ scope : Scope, scope.Within ctx → (e.check env).Clean scope (Settled ctx scope) := by
  induction e using Expr.induction with
  | literal n value =>
    intro scope hscope
    unfold check
    exact clean_pure ⟨hscope, Scope.SameFrame.refl scope, .literal rfl⟩
  | name n text binding =>
    intro scope hscope
    unfold check
    refine clean_read_bind ?_
    refine Settled.note hscope (Scope.SameFrame.refl _) fun h => ?_
    exact henv.bindName_clean hscope (List.append_eq_nil_iff.mp h).1
  | self n =>
    intro scope hscope
    unfold check
    refine clean_read_bind ?_
    refine Settled.note hscope (Scope.SameFrame.refl _) fun h => ?_
    refine ⟨env.owner, .self rfl henv.owner ?_⟩
    rw [← hscope.isStatic]
    by_contra hs
    simp [ExprEnv.thisErrors, hs] at h
  | field n target text ref ih =>
    intro scope hscope
    unfold check
    refine clean_read_bind ?_
    cases hfound : env.typeQualifier? scope target with
    | some owner =>
      exact Settled.note hscope (Scope.SameFrame.refl _) fun h =>
        henv.staticField_clean (henv.typeQualifier?_ne_any hfound) h
    | none =>
      refine clean_bind (ih scope hscope) fun target s htarget => ?_
      exact Settled.note htarget.within htarget.frame fun h =>
        henv.selectField_clean htarget.accepted h
  | index n array position iharray ihposition =>
    intro scope hscope
    unfold check
    refine checkPair_clean (iharray scope hscope) ihposition fun l r s hl hr hs hframe => ?_
    refine Settled.note hs hframe fun h => ?_
    obtain ⟨href, hindex, ty, hty, hvalue⟩ :=
      judgeIndex_clean henv.registry hl.ne_any hr.ne_any h
    exact ⟨ty, .index hty hvalue hl href hr hindex⟩
  | length n array ih =>
    intro scope hscope
    unfold check
    refine clean_bind (ih scope hscope) fun array s harray => ?_
    refine Settled.note harray.within harray.frame fun h => ?_
    obtain ⟨href, -⟩ := judgeElement_clean henv.registry harray.accepted.ne_any h
    exact ⟨.int, .length rfl harray.accepted href⟩
  | unary n op operand ih =>
    intro scope hscope
    unfold check
    refine clean_bind (ih scope hscope) fun operand s hoperand => ?_
    refine Settled.note hoperand.within hoperand.frame fun h => ?_
    obtain ⟨ty, hty, hpromoted, hintegral⟩ := judgeUnary_clean hoperand.accepted.ne_any h
    exact ⟨ty, .unary hty hoperand.accepted hpromoted hintegral⟩
  | not n operand ih =>
    intro scope hscope
    unfold check
    refine clean_bind (ih scope hscope) fun operand s hoperand => ?_
    refine Settled.note hoperand.within hoperand.frame fun h => ?_
    have haccepted := hoperand.accepted
    rw [eq_boolean_of_expectBoolean haccepted.ne_any h] at haccepted
    exact ⟨.boolean, .not rfl haccepted⟩
  | binary n op lhs rhs ihl ihr =>
    intro scope hscope
    unfold check
    refine checkPair_clean (ihl scope hscope) ihr fun l r s hl hr hs hframe => ?_
    split
    · refine Settled.note hs hframe fun h => ?_
      obtain ⟨hleft, hright⟩ := List.append_eq_nil_iff.mp h
      exact ⟨.string, .concat rfl hl (ne_void_of_expectConcatenable hl.ty_eq hleft) hr
        (ne_void_of_expectConcatenable hr.ty_eq hright)⟩
    · refine Settled.note hs hframe fun h => ?_
      obtain ⟨rule, hrule, hty⟩ := judgeBinary_clean hl.ne_any hr.ne_any h
      exact ⟨rule.result, .binary hty hl hr hrule⟩
  | compare n op lhs rhs ihl ihr =>
    intro scope hscope
    unfold check
    refine checkPair_clean (ihl scope hscope) ihr fun l r s hl hr hs hframe => ?_
    refine Settled.note hs hframe fun h => ?_
    obtain ⟨hoperand, heq⟩ := judgeCompare_clean hl.ne_any hr.ne_any h
    rw [heq] at hr
    exact ⟨.boolean, .compare rfl hl hr hoperand⟩
  | equality n op lhs rhs ihl ihr =>
    intro scope hscope
    unfold check
    refine checkPair_clean (ihl scope hscope) ihr fun l r s hl hr hs hframe => ?_
    refine Settled.note hs hframe fun h => ?_
    obtain ⟨kind, hkind⟩ := judgeEquality_clean hl.ne_any hr.ne_any h
    exact ⟨.boolean, .equality rfl hl hr hkind⟩
  | logical n op lhs rhs ihl ihr =>
    intro scope hscope
    unfold check
    refine checkPair_clean (ihl scope hscope) ihr fun l r s hl hr hs hframe => ?_
    refine Settled.note hs hframe fun h => ?_
    obtain ⟨hleft, hright⟩ := judgeLogical_clean hl.ne_any hr.ne_any h
    rw [hleft] at hl
    rw [hright] at hr
    exact ⟨.boolean, .logical rfl hl hr⟩
  | concat n lhs rhs ihl ihr =>
    intro scope hscope
    unfold check
    refine checkPair_clean (ihl scope hscope) ihr fun l r s hl hr hs hframe => ?_
    refine Settled.note hs hframe fun h => ?_
    obtain ⟨hleft, hright⟩ := List.append_eq_nil_iff.mp h
    exact ⟨.string, .concat rfl hl (ne_void_of_expectConcatenable hl.ty_eq hleft) hr
      (ne_void_of_expectConcatenable hr.ty_eq hright)⟩
  | assign n op lhs rhs ihl ihr =>
    intro scope hscope
    rw [check_assign]
    refine clean_bind (checkTarget_clean henv lhs (ihl scope hscope) hscope) fun l s hl => ?_
    split
    · next hplace =>
      refine clean_bind (ihr s hl.within) fun r s' hr => ?_
      refine clean_bind (markAssigned_clean hr.within) fun _ s'' hs => ?_
      refine Settled.note hs.1 ((hl.frame.trans hr.frame).trans hs.2) fun h => ?_
      obtain ⟨hty, stored, hstored, hfits⟩ := judgeAssign_clean hplace hl.accepted hr.accepted h
      exact ⟨l.tyOrAny, .assign hty hplace hl.accepted hstored hfits⟩
    · exact clean_bind (clean_report (S := fun _ _ => False) _) fun _ _ h => h.elim
  | increment n op operand ih =>
    intro scope hscope
    rw [check_increment]
    refine clean_bind (checkTarget_clean henv operand (ih scope hscope) hscope) fun l s hl => ?_
    split
    · next hplace =>
      refine Settled.note hl.within hl.frame fun h => ?_
      obtain ⟨hty, hnumeric⟩ := judgeIncrement_clean hl.accepted.ne_any h
      exact ⟨l.tyOrAny, .increment hty hplace hl.accepted hnumeric⟩
    · exact clean_note fun h => by cases h
  | call n target text args method ihtarget ihargs =>
    intro scope hscope
    rw [check_call]
    refine clean_bind (checkReceiver_clean henv ihtarget hscope) fun receiver s hreceiver => ?_
    refine clean_bind (checkList_clean ihargs hreceiver.within) ?_
    rintro args s' ⟨hwithin, hframe, hargs⟩
    exact Settled.note hwithin (hreceiver.frame.trans hframe) fun h =>
      henv.selectMethod_clean hreceiver.ne_any hreceiver.target hreceiver.this hargs h

end Expr

end ClassCompiler
