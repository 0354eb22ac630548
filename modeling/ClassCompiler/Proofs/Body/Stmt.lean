import ClassCompiler.Proofs.Body.Expr
import ClassCompiler.Proofs.Growth

/-!
# Analysis of statements accepts

A step over a body keeps the state good, declares locals in fresh slots, and gives an accepted tree.
Steps are put together in order: the locals of two steps are those of the first and then those of
the second.

* `BodyState.Good`: a sound registry, and a scope with locals of the body only
* `Steps`: what a step does that reports nothing
* `Stmt.check_grows`
-/

namespace ClassCompiler

open Check BodyState

/-! ## Locals of a tree -/

/-- The locals of a declaration; their types are looked up again. -/
def LocalDecl.locals (registry : Registry) (decl : LocalDecl) : List Local :=
  match registry.resolveValue decl.type with
  | .ok (ty, _) => decl.declarators.filterMap fun declarator => declarator.slot.map (⟨·, ty⟩)
  | .error _ => []

def Stmt.locals (registry : Registry) (s : Stmt) : List Local :=
  s.decls.flatMap (LocalDecl.locals registry)

/-! ## Steps -/

structure Site.Sound (site : Site) : Prop where
  classes : site.classes.Sound
  owner : site.owner.isReference = true

/-- A state that an analysis can go on from without gaps in its tree. -/
structure BodyState.Good (site : Site) (ctx : BodyCtx) (state : BodyState) : Prop where
  site : site.Sound
  returnTy : ctx.returnTy ≠ .any
  registry : state.registry.Sound
  scope : state.scope.Within ctx

theorem BodyState.Good.change {site : Site} {ctx : BodyCtx} {before after : BodyState}
    (h : before.Good site ctx) (hregistry : after.registry.Sound)
    (hscope : after.scope.Within ctx) : after.Good site ctx :=
  ⟨h.site, h.returnTy, hregistry, hscope⟩

/-- The state after a step, and what is known of its tree. -/
structure Stepped (site : Site) (ctx : BodyCtx) (declared : List Local) (accepted : Prop)
    (before after : BodyState) : Prop where
  good : after.Good site ctx
  loops : after.scope.loops.length = before.scope.loops.length
  laid : ∀ owned, before.scope.Laid owned → after.scope.Laid (owned ++ declared)
  accepted : accepted

/-- A step from a good state, if the locals that it declares are locals of the body. -/
def Steps (site : Site) (ctx : BodyCtx) (declared : List Local) (accepted : Prop)
    (before after : BodyState) : Prop :=
  declared ⊆ ctx.locals → before.Good site ctx → Stepped site ctx declared accepted before after

variable {site : Site} {ctx : BodyCtx} {before middle after : BodyState}

theorem Stepped.inLoop {declared : List Local} {accepted : Prop}
    (h : Stepped site ctx declared accepted before after) :
    after.scope.inLoop = before.scope.inLoop := by
  have hlength := h.loops
  unfold Scope.inLoop
  cases hb : before.scope.loops <;> cases ha : after.scope.loops <;> simp_all

theorem Steps.refl {state : BodyState} : Steps site ctx [] True state state := fun _ hgood =>
  ⟨hgood, rfl, fun owned h => by rwa [List.append_nil], trivial⟩

theorem Steps.trans {one two : List Local} {p q : Prop} (h : Steps site ctx one p before middle)
    (h' : Steps site ctx two q middle after) : Steps site ctx (one ++ two) (p ∧ q) before after := by
  intro hlocals hgood
  obtain ⟨hone, htwo⟩ := List.append_subset.mp hlocals
  have hfirst := h hone hgood
  have hsecond := h' htwo hfirst.good
  refine ⟨hsecond.good, hsecond.loops.trans hfirst.loops, fun owned howned => ?_,
    hfirst.accepted, hsecond.accepted⟩
  rw [← List.append_assoc]
  exact hsecond.laid _ (hfirst.laid owned howned)

/-- The same where the second tree is accepted inside or outside of a loop. -/
theorem Steps.trans_inLoop {one two : List Local} {p : Prop} {q : Bool → Prop}
    (h : Steps site ctx one p before middle)
    (h' : Steps site ctx two (q middle.scope.inLoop) middle after) :
    Steps site ctx (one ++ two) (p ∧ q before.scope.inLoop) before after := by
  intro hlocals hgood
  have hfirst := h (List.append_subset.mp hlocals).1 hgood
  rw [← hfirst.inLoop]
  exact (h.trans h') hlocals hgood

theorem Steps.mono {declared : List Local} {p q : Prop} (h : Steps site ctx declared p before after)
    (himp : p → q) : Steps site ctx declared q before after := fun hlocals hgood =>
  let done := h hlocals hgood
  ⟨done.good, done.loops, done.laid, himp done.accepted⟩

/-- A change of the scope that leaves its slots and its loops as they are. -/
theorem Steps.of_scope {scope : Scope} (hnext : scope.nextSlot = before.scope.nextSlot)
    (hloops : scope.loops = before.scope.loops)
    (hwithin : before.scope.Within ctx → scope.Within ctx) :
    Steps site ctx [] True before { before with scope } := fun _ hgood =>
  { good := hgood.change hgood.registry (hwithin hgood.scope)
    loops := congrArg List.length hloops
    laid := fun owned h => by
      rw [List.append_nil]
      exact h.of_nextSlot_eq hnext
    accepted := trivial }

theorem Steps.pushFrame {state : BodyState} :
    Steps site ctx [] True state { state with scope := state.scope.pushFrame } :=
  Steps.of_scope rfl rfl Scope.Within.pushFrame

theorem Steps.popFrame {state : BodyState} :
    Steps site ctx [] True state { state with scope := state.scope.popFrame } :=
  Steps.of_scope rfl rfl Scope.Within.popFrame

theorem Steps.setReturned {state : BodyState} (returned : Bool) :
    Steps site ctx [] True state { state with scope := state.scope.setReturned returned } :=
  Steps.of_scope rfl rfl fun h => ⟨⟨h.visible, h.shadowed⟩, h.isStatic, h.returnTy⟩

/-- A step on a part that need not be there. -/
theorem Steps.optional {α β : Type} {part : Option α} {out : Option β}
    {R : α → β → Prop} (declared : β → List Local) {accepted : β → Prop}
    (h : (out = none ∧ after = before) ∨ ∃ a b, part = some a ∧ out = some b ∧ R a b)
    (himp : ∀ a b, part = some a → R a b →
      Steps site ctx (declared b) (accepted b) before after) :
    Steps site ctx (out.elim [] declared) (∀ b, out = some b → accepted b) before after := by
  rcases h with ⟨rfl, rfl⟩ | ⟨a, b, hpart, rfl, h⟩
  · exact Steps.refl.mono fun _ b hb => by cases hb
  · refine (himp a b hpart h).mono fun haccepted b' hb => ?_
    cases hb
    exact haccepted

/-- A step inside a loop, seen from outside. -/
theorem Steps.loop {declared : List Local} {p : Prop}
    (h : Steps site ctx declared p { before with scope := before.scope.enterLoop } after) :
    Steps site ctx declared p before { after with scope := after.scope.exitLoop.2 } := by
  intro hlocals hgood
  have hscope := hgood.scope
  have hinner := h hlocals (hgood.change hgood.registry
    ⟨⟨hscope.visible, hscope.shadowed⟩, hscope.isStatic, hscope.returnTy⟩)
  have hwithin := hinner.good.scope
  refine ⟨hgood.change hinner.good.registry
    ⟨⟨hwithin.visible, hwithin.shadowed⟩, hwithin.isStatic, hwithin.returnTy⟩, ?_,
    fun owned howned => ?_, hinner.accepted⟩
  · have hlength := hinner.loops
    show after.scope.loops.tail.length = before.scope.loops.length
    rw [List.length_tail, hlength]
    exact Nat.add_sub_cancel _ _
  · exact (hinner.laid owned howned).of_nextSlot_eq rfl

/-! ## Expressions in statements -/

namespace Expr

theorem isStatementForm_markStatement (e : Expr) (isStatement : Bool) :
    (e.markStatement isStatement).isStatementForm = e.isStatementForm := by
  cases e <;> rfl

/-- The analysis of an assignment, an increment or a call gives one again. -/
theorem isStatementForm_check (env : ExprEnv) {e : Expr} (h : e.isStatementForm = true)
    (scope : Scope) : ((e.check env).run scope).value.isStatementForm = true := by
  cases e with
  | assign n op lhs rhs =>
    rw [check_assign, run_bind]
    dsimp only
    split <;> rfl
  | increment n op operand =>
    rw [check_increment, run_bind]
    dsimp only
    split <;> rfl
  | call n target text args method =>
    rw [check_call, run_bind, run_bind]
    show (ExprEnv.selectMethod _ _ _ _ _ _).1.isStatementForm = true
    unfold ExprEnv.selectMethod
    dsimp only
    split
    · rfl
    · split <;> rfl
  | _ => cases h

end Expr

variable {last : Registry}

theorem grows_changeScope (change : Scope → Scope) :
    (changeScope change).Grows last fun s _ e => e = { s with scope := change s.scope } :=
  fun _ => ⟨Registry.Below.refl _, fun _ _ => rfl⟩

theorem grows_exitLoop :
    exitLoop.Grows last fun s _ e => e = { s with scope := s.scope.exitLoop.2 } :=
  fun _ => ⟨Registry.Below.refl _, fun _ _ => rfl⟩

/-- A step on the scope that stays in its frame. -/
theorem grows_onScope {α : Type} {step : ExprEnv → Check Scope α} {accepted : α → Prop}
    (h : ∀ env : ExprEnv, env.Sound → ∀ scope : Scope, scope.Within ctx →
      (step env).Clean scope fun a after =>
        after.Within ctx ∧ scope.SameFrame after ∧ accepted a) :
    (onScope site step).Grows last fun s a e => Steps site ctx [] (accepted a) s e := by
  intro state
  refine ⟨Registry.Below.refl _, fun he _ _ hgood => ?_⟩
  obtain ⟨hwithin, hframe, haccepted⟩ := h { site with registry := state.registry }
    ⟨hgood.site.classes, hgood.registry, hgood.site.owner⟩ state.scope hgood.scope he
  refine ⟨hgood.change hgood.registry hwithin, ?_, fun owned howned => ?_, haccepted⟩
  · exact congrArg (fun scope => scope.loops.length) hframe.symm
  · rw [List.append_nil]
    exact howned.of_nextSlot_eq (congrArg Scope.nextSlot hframe).symm

variable (site : Site) (ctx : BodyCtx)

namespace Expr

theorem checkCondition_grows (condition : Expr) :
    (condition.checkCondition site).Grows last fun s e' e =>
      Steps site ctx [] (e'.Accepted ctx .boolean) s e := by
  refine grows_onScope fun env henv scope hscope => ?_
  refine clean_bind (check_clean henv condition scope hscope) fun e' s he => ?_
  refine clean_note fun h => ⟨he.within, he.frame, ?_⟩
  have haccepted := he.accepted
  rwa [eq_boolean_of_expectBoolean haccepted.ne_any h] at haccepted

/-- The analysis of an expression that has the form of a statement. -/
theorem check_grows {e : Expr} (hform : e.isStatementForm = true) :
    (onScope site fun env => e.check env).Grows last fun s e' after =>
      Steps site ctx [] (e'.AcceptedStatement ctx) s after := by
  refine grows_onScope fun env henv scope hscope => ?_
  exact ((check_clean henv e scope hscope).and_value
    (isStatementForm_check env hform scope)).mono fun e' s h =>
      ⟨h.1.within, h.1.frame, h.2, e'.tyOrAny, h.1.accepted⟩

theorem checkStatement_grows (e : Expr) :
    (e.checkStatement site).Grows last fun s e' after =>
      Steps site ctx [] (e'.AcceptedStatement ctx) s after := by
  refine grows_onScope fun env henv scope hscope => ?_
  refine clean_bind (clean_reportAll
    (S := fun _ s => s = scope ∧ e.isStatementForm = true) fun h => ⟨rfl, ?_⟩) ?_
  · by_contra hform
    rw [if_neg hform] at h
    cases h
  · rintro _ _ ⟨rfl, hform⟩
    rw [← isStatementForm_markStatement e true] at hform
    exact ((check_clean henv (e.markStatement true) _ hscope).and_value
      (isStatementForm_check env hform _)).mono fun e' s h =>
        ⟨h.1.within, h.1.frame, h.2, e'.tyOrAny, h.1.accepted⟩

theorem checkStatements_grows (es : List Expr) :
    (checkStatements site es).Grows last fun s es' after =>
      Steps site ctx [] (∀ e ∈ es', e.AcceptedStatement ctx) s after := by
  induction es with
  | nil =>
    refine (grows_pure _).mono ?_
    rintro s _ _ ⟨rfl, rfl⟩
    exact Steps.refl.mono fun _ => by simp
  | cons first rest ih =>
    refine (grows_bind (checkStatement_grows site ctx first) fun a =>
      grows_bind ih fun b => grows_pure _).mono ?_
    rintro s _ _ ⟨first, _, hfirst, rest, _, hrest, rfl, rfl⟩
    refine (hfirst.trans hrest).mono fun h e he => ?_
    rcases List.mem_cons.mp he with rfl | he
    · exact h.1
    · exact h.2 e he

end Expr

/-! ## Declarations -/

theorem grows_resolve {name : TypeName} (hapart : last.Apart) :
    (BodyState.resolve true name).Grows last fun s ty e => name.Ordinary →
      Steps site ctx [] (ty.IsValue ∧ ∃ later, last.resolveValue name = .ok (ty, later)) s e := by
  intro state
  refine ⟨Registry.below_resolveOrAny _ _ _, fun he hlast hname _ hgood => ?_⟩
  obtain ⟨hresolve, hvoid⟩ := Registry.resolve_of_resolveOrAny he
  obtain ⟨hsound, hany⟩ := hgood.registry.resolve hname hresolve (hlast.apart hapart)
  obtain ⟨later, hlater⟩ := Registry.resolve_below hgood.registry hname hresolve hlast
  refine ⟨hgood.change hsound hgood.scope, rfl, fun owned howned => ?_, ⟨hany, hvoid rfl⟩, later,
    ?_⟩
  · rwa [List.append_nil]
  · exact Registry.resolveValue_eq_ok_iff.mpr ⟨hlater, hvoid rfl⟩

theorem grows_declareLocal (name : String) (ty : Ty) (line : Nat) :
    (declareLocal name ty line).Grows last fun s slot e =>
      ∃ index, slot = some index ∧ (ty.IsValue → Steps site ctx [⟨index, ty⟩] True s e) := by
  intro state
  unfold declareLocal Check.run
  dsimp only
  split
  · next slot scope hok =>
    obtain ⟨rfl, hnext, hloops, -⟩ := Scope.declareLocal_ok hok
    refine ⟨Registry.Below.refl _, fun _ _ => ⟨_, rfl, fun hty hlocals hgood => ?_⟩⟩
    refine ⟨hgood.change hgood.registry
        (hgood.scope.declareLocal hok (hlocals List.mem_cons_self) hty),
      congrArg List.length hloops, fun owned howned => ?_, trivial⟩
    exact howned.allocate hnext
  · exact ⟨Registry.Below.refl _, fun he => by cases he⟩

namespace Declarator

/-- The local of one declarator, and the assignment of its initializer. -/
theorem check_grows {ty : Ty} (declarator : Declarator) :
    (declarator.check site ty).Grows last fun s out e => ∃ index, out.1.slot = some index
      ∧ (ty.IsValue → Steps site ctx [⟨index, ty⟩]
        (out.1.init = none ∧ ∀ a ∈ out.2, a.AcceptedStatement ctx) s e) := by
  unfold check
  refine (grows_bind (S := fun slot s out e => ∀ index, slot = some index →
    out.1.slot = some index
      ∧ Steps site ctx [] (out.1.init = none ∧ ∀ a ∈ out.2, a.AcceptedStatement ctx) s e)
    (grows_declareLocal site ctx declarator.name ty declarator.line) fun slot => ?_).mono ?_
  · cases declarator.init with
    | none =>
      refine (grows_pure _).mono ?_
      rintro s _ _ ⟨rfl, rfl⟩ index rfl
      exact ⟨rfl, Steps.refl.mono fun _ => ⟨rfl, by simp⟩⟩
    | some init =>
      refine (grows_bind (Expr.check_grows site ctx rfl) fun a => grows_pure _).mono ?_
      rintro s _ _ ⟨a, m, ha, rfl, rfl⟩ index rfl
      exact ⟨rfl, ha.mono fun h => ⟨rfl, by simpa using h⟩⟩
  · rintro s out e ⟨slot, m, ⟨index, hindex, hdeclare⟩, hinit⟩
    obtain ⟨hslot, hsteps⟩ := hinit index hindex
    exact ⟨index, hslot, fun hty => ((hdeclare hty).trans hsteps).mono And.right⟩

theorem checkList_grows {ty : Ty} (declarators : List Declarator) :
    (checkList site ty declarators).Grows last fun s out e => ty.IsValue →
      Steps site ctx (out.1.filterMap fun declarator => declarator.slot.map (⟨·, ty⟩))
        ((∀ declarator ∈ out.1, declarator.init = none)
          ∧ ∀ a ∈ out.2, a.AcceptedStatement ctx) s e := by
  induction declarators with
  | nil =>
    refine (grows_pure _).mono ?_
    rintro s _ _ ⟨rfl, rfl⟩ _
    exact Steps.refl.mono fun _ => by simp
  | cons first rest ih =>
    refine (grows_bind (check_grows site ctx first) fun a => grows_bind ih fun b =>
      grows_pure _).mono ?_
    rintro s _ _ ⟨⟨first, inits⟩, _, ⟨index, hslot, hfirst⟩, ⟨rest, inits'⟩, _, hrest, rfl, rfl⟩ hty
    have hsteps := (hfirst hty).trans (hrest hty)
    dsimp only at hslot ⊢
    rw [List.filterMap_cons, hslot]
    refine hsteps.mono fun h => ⟨fun declarator hdeclarator => ?_, fun a ha => ?_⟩
    · rcases List.mem_cons.mp hdeclarator with rfl | hdeclarator
      · exact h.1.1
      · exact h.2.1 declarator hdeclarator
    · rcases List.mem_append.mp ha with ha | ha
      · exact h.1.2 a ha
      · exact h.2.2 a ha

end Declarator

theorem LocalDecl.check_grows (hapart : last.Apart) (decl : LocalDecl) :
    (decl.check site).Grows last fun s out e => decl.type.Ordinary →
      Steps site ctx (out.locals last) (out.Accepted ctx) s e := by
  unfold check
  refine (grows_bind (grows_resolve site ctx hapart) fun ty =>
    grows_bind (Declarator.checkList_grows site ctx decl.declarators) fun out =>
      grows_pure _).mono ?_
  rintro s _ _ ⟨ty, m, hresolve, out, _, hlist, rfl, rfl⟩ hname hlocals hgood
  obtain ⟨hvalue, later, hlater⟩ := (hresolve hname (List.nil_subset _) hgood).accepted
  have hdeclared : LocalDecl.locals last
      { decl with declarators := out.1, initializers := out.2 }
        = out.1.filterMap fun declarator => declarator.slot.map (⟨·, ty⟩) := by
    unfold LocalDecl.locals
    rw [show last.resolveValue decl.type = .ok (ty, later) from hlater]
  rw [hdeclared] at hlocals ⊢
  exact (((hresolve hname).trans (hlist hvalue)).mono fun h => ⟨h.2.1, h.2.2⟩) hlocals hgood

theorem ForInit.check_grows (hapart : last.Apart) (init : ForInit) :
    (init.check site).Grows last fun s out e =>
      (∀ decl ∈ init.decls, decl.type.Ordinary) →
      Steps site ctx (out.decls.flatMap (LocalDecl.locals last)) (out.Accepted ctx) s e := by
  cases init with
  | exprs es =>
    refine (grows_map (Expr.checkStatements_grows site ctx es)).mono ?_
    rintro s _ e ⟨es', rfl, h⟩ _
    exact h
  | decl d =>
    refine (grows_map (LocalDecl.check_grows site ctx hapart d)).mono ?_
    rintro s _ e ⟨d', rfl, h⟩ hnames
    simpa [ForInit.decls, ForInit.Accepted] using h (hnames d List.mem_cons_self)

/-! ## Statements -/

theorem checkReturn_eq (site : Site) (value : Option Expr) (line : Nat) :
    checkReturn site value line = (do
      let value ← onScope site fun env => do
        let value ← Check.optional (Expr.check env) value
        let returnTy ← Check.read Scope.returnTy
        Check.note value (returnErrors env.registry returnTy value line)
      setReturned true
      return value) := by
  unfold checkReturn
  cases value <;> rfl

theorem checkReturn_grows (value : Option Expr) (line : Nat) :
    (checkReturn site value line).Grows last fun s out e =>
      Steps site ctx [] (ReturnAccepted ctx out) s e := by
  rw [checkReturn_eq]
  refine (grows_bind (R := fun s out e =>
    Steps site ctx [] (ctx.returnTy ≠ .any → ReturnAccepted ctx out) s e) ?_
    fun out => grows_bind (grows_changeScope _) fun _ => grows_pure _).mono ?_
  · refine grows_onScope fun env henv scope hscope => ?_
    refine clean_bind (Q := fun out s => s.Within ctx ∧ scope.SameFrame s
      ∧ ∀ e, out = some e → ∃ ty, e.Accepted ctx ty) (clean_optional (fun _ => ?_) fun e _ => ?_) ?_
    · exact ⟨hscope, Scope.SameFrame.refl scope, fun e he => by cases he⟩
    · refine (Expr.check_clean henv e scope hscope).mono fun e' s he => ⟨he.within, he.frame, ?_⟩
      rintro _ ⟨⟩
      exact ⟨_, he.accepted⟩
    · rintro out s ⟨hwithin, hframe, hout⟩
      refine clean_read_bind (clean_note fun h => ⟨hwithin, hframe, fun hreturn => ?_⟩)
      rw [hwithin.returnTy] at h
      cases out with
      | none => exact returnErrors_none hreturn h
      | some e =>
        obtain ⟨ty, he⟩ := hout e rfl
        exact returnErrors_some hreturn he h
  · rintro s _ _ ⟨out, m, hout, _, _, rfl, rfl, rfl⟩ hlocals hgood
    exact ((hout.trans (Steps.setReturned true)).mono fun h => h.1 hgood.returnTy) hlocals hgood

theorem grows_checkBreak (line : Nat) :
    (checkBreak line).Grows last fun s _ e => Steps site ctx [] (s.scope.inLoop = true) s e := by
  intro state
  unfold checkBreak Check.run
  dsimp only
  split
  · next scope hscope =>
    refine ⟨Registry.Below.refl _, fun _ _ hlocals hgood => ?_⟩
    unfold Scope.noteBreak? at hscope
    split at hscope
    · cases hscope
    · next loop outer hloops =>
      cases hscope
      have hwithin := hgood.scope
      refine ⟨hgood.change hgood.registry ⟨⟨hwithin.visible, hwithin.shadowed⟩,
        hwithin.isStatic, hwithin.returnTy⟩, ?_, fun owned howned => ?_, ?_⟩
      · rw [hloops]
        rfl
      · rw [List.append_nil]
        exact howned.of_nextSlot_eq rfl
      · unfold Scope.inLoop
        rw [hloops]
        rfl
  · exact ⟨Registry.Below.refl _, fun he => by cases he⟩

namespace Stmt

theorem check_branch (site : Site) (condition : Expr) (onTrue : Stmt) (onFalse : Option Stmt)
    (line : Nat) :
    (branch condition onTrue onFalse line).check site = (do
      let condition ← condition.checkCondition site
      let before ← hasReturned
      let onTrue ← onTrue.check site
      let trueReturns ← hasReturned
      setReturned before
      let onFalse ← Check.optional (fun stmt : Stmt => stmt.check site) onFalse
      let falseReturns ← hasReturned
      setReturned (before || (trueReturns && onFalse.isSome && falseReturns))
      return branch condition onTrue onFalse line) := by
  conv => lhs; unfold check
  cases onFalse <;> rfl

theorem check_whileLoop (site : Site) (condition : Expr) (body : Stmt) (line : Nat) :
    (whileLoop condition body line).check site = (do
      let condition ← condition.checkCondition site
      let before ← hasReturned
      changeScope Scope.enterLoop
      let body ← body.check site
      let hasBreak ← exitLoop
      setReturned (before || (Expr.alwaysTrue (some condition) && !hasBreak))
      return whileLoop condition body line) := by
  conv => lhs; unfold check

theorem check_forLoop (site : Site) (init : Option ForInit) (condition : Option Expr)
    (update : List Expr) (body : Stmt) (line : Nat) :
    (forLoop init condition update body line).check site = (do
      changeScope Scope.pushFrame
      let init ← Check.optional (ForInit.check site) init
      let condition ← Check.optional (Expr.checkCondition site) condition
      let before ← hasReturned
      changeScope Scope.enterLoop
      let body ← body.check site
      let hasBreak ← exitLoop
      let update ← Expr.checkStatements site update
      changeScope Scope.popFrame
      setReturned (before || (Expr.alwaysTrue condition && !hasBreak))
      return forLoop init condition update body line) := by
  conv => lhs; unfold check
  cases init <;> cases condition <;> rfl

/-- What the analysis of a statement does, if the types that it names are ordinary. -/
def Checks (site : Site) (ctx : BodyCtx) (last : Registry) (given : Stmt) (before : BodyState)
    (out : Stmt) (after : BodyState) : Prop :=
  (∀ decl ∈ given.decls, decl.type.Ordinary) →
    Steps site ctx (out.locals last) (out.Accepted ctx before.scope.inLoop) before after

theorem checkList_grows {stmts : List Stmt}
    (h : ∀ s ∈ stmts, (s.check site).Grows last (Checks site ctx last s)) :
    (checkList site stmts).Grows last fun s out e =>
      (∀ decl ∈ declsList stmts, decl.type.Ordinary) →
      Steps site ctx ((declsList out).flatMap (LocalDecl.locals last))
        (∀ stmt ∈ out, stmt.Accepted ctx s.scope.inLoop) s e := by
  induction stmts with
  | nil =>
    refine (grows_pure _).mono ?_
    rintro s _ _ ⟨rfl, rfl⟩ _
    exact Steps.refl.mono fun _ => by simp
  | cons first rest ih =>
    refine (grows_bind (h first List.mem_cons_self) fun a =>
      grows_bind (ih fun s hs => h s (List.mem_cons_of_mem _ hs)) fun b => grows_pure _).mono ?_
    rintro s _ _ ⟨first', m, hfirst, rest', e, hrest, rfl, rfl⟩ hnames
    unfold declsList at hnames ⊢
    rw [List.flatMap_append]
    have hfirst' := hfirst fun decl hdecl => hnames decl (List.mem_append_left _ hdecl)
    have hrest' := hrest fun decl hdecl => hnames decl (List.mem_append_right _ hdecl)
    refine (hfirst'.trans_inLoop (q := fun inLoop => ∀ stmt ∈ rest', stmt.Accepted ctx inLoop)
      hrest').mono fun hboth stmt hstmt => ?_
    rcases List.mem_cons.mp hstmt with rfl | hstmt
    · exact hboth.1
    · exact hboth.2 stmt hstmt

theorem branch_grows {condition : Expr} {onTrue : Stmt} {onFalse : Option Stmt} {line : Nat}
    (htrue : (onTrue.check site).Grows last (Checks site ctx last onTrue))
    (hfalse : ∀ s, onFalse = some s → (s.check site).Grows last (Checks site ctx last s)) :
    ((branch condition onTrue onFalse line).check site).Grows last
      (Checks site ctx last (branch condition onTrue onFalse line)) := by
  rw [check_branch]
  have helse : (Check.optional (fun stmt : Stmt => stmt.check site) onFalse).Grows last _ :=
    grows_optional onFalse hfalse
  refine (grows_bind (Expr.checkCondition_grows site ctx condition) fun c =>
    grows_bind (grows_read _) fun _ => grows_bind htrue fun t =>
    grows_bind (grows_read _) fun _ => grows_bind (grows_changeScope _) fun _ =>
    grows_bind helse fun f => grows_bind (grows_read _) fun _ =>
    grows_bind (grows_changeScope _) fun _ => grows_pure _).mono ?_
  rintro s _ _ ⟨c, m, hc, _, _, ⟨-, rfl⟩, t, m', ht, _, _, ⟨-, rfl⟩, _, _, rfl, f, m'', hf, _, _,
    ⟨-, rfl⟩, _, _, rfl, rfl, rfl⟩ hnames
  simp only [decls_branch, List.mem_append] at hnames
  have hthen := hc.trans_inLoop (q := fun inLoop => t.Accepted ctx inLoop)
    (ht fun decl hdecl => hnames decl (.inl hdecl))
  have hotherwise := Steps.optional (locals last) hf fun a b ha hb =>
    hb fun decl hdecl => hnames decl (.inr (by rw [ha]; exact hdecl))
  have hsteps := (hthen.trans (Steps.setReturned _)).trans_inLoop
    (q := fun inLoop => ∀ stmt, f = some stmt → stmt.Accepted ctx inLoop) hotherwise
  have hdeclared : (branch c t f line).locals last
      = ([] ++ t.locals last ++ []) ++ f.elim [] (locals last) ++ [] := by
    cases f <;> simp [locals, decls_branch]
  rw [hdeclared]
  exact (hsteps.trans (Steps.setReturned _)).mono fun h =>
    .branch h.1.1.1.1 h.1.1.1.2 h.1.2

theorem whileLoop_grows {condition : Expr} {body : Stmt} {line : Nat}
    (hbody : (body.check site).Grows last (Checks site ctx last body)) :
    ((whileLoop condition body line).check site).Grows last
      (Checks site ctx last (whileLoop condition body line)) := by
  unfold check
  refine (grows_bind (Expr.checkCondition_grows site ctx condition) fun c =>
    grows_bind (grows_read _) fun _ => grows_bind (grows_changeScope _) fun _ =>
    grows_bind hbody fun b => grows_bind grows_exitLoop fun _ =>
    grows_bind (grows_changeScope _) fun _ => grows_pure _).mono ?_
  rintro s _ _ ⟨c, m, hc, _, _, ⟨-, rfl⟩, _, _, rfl, b, m', hb, _, _, rfl, _, _, rfl, rfl, rfl⟩
    hnames
  simp only [decls] at hnames
  have hdeclared : (whileLoop c b line).locals last = [] ++ b.locals last ++ [] := by
    simp [locals, decls]
  rw [hdeclared]
  have hsteps := hc.trans (hb hnames).loop
  exact (hsteps.trans (Steps.setReturned _)).mono fun h => .whileLoop h.1.1 h.1.2

theorem forLoop_grows (hapart : last.Apart) {init : Option ForInit} {condition : Option Expr}
    {update : List Expr} {body : Stmt} {line : Nat}
    (hbody : (body.check site).Grows last (Checks site ctx last body)) :
    ((forLoop init condition update body line).check site).Grows last
      (Checks site ctx last (forLoop init condition update body line)) := by
  rw [check_forLoop]
  have hinit : (Check.optional (ForInit.check site) init).Grows last _ :=
    grows_optional init fun i _ => ForInit.check_grows site ctx hapart i
  have hcondition : (Check.optional (Expr.checkCondition site) condition).Grows last _ :=
    grows_optional condition fun c _ => Expr.checkCondition_grows site ctx c
  refine (grows_bind (grows_changeScope _) fun _ => grows_bind hinit fun i =>
    grows_bind hcondition fun c => grows_bind (grows_read _) fun _ =>
    grows_bind (grows_changeScope _) fun _ => grows_bind hbody fun b =>
    grows_bind grows_exitLoop fun _ =>
    grows_bind (Expr.checkStatements_grows site ctx update) fun u =>
    grows_bind (grows_changeScope _) fun _ => grows_bind (grows_changeScope _) fun _ =>
    grows_pure _).mono ?_
  rintro s _ _ ⟨_, _, rfl, i, m, hi, c, m', hc, _, _, ⟨-, rfl⟩, _, _, rfl, b, m'', hb, _, _, rfl,
    u, e, hu, _, _, rfl, _, _, rfl, rfl, rfl⟩ hnames
  simp only [decls, List.mem_append, List.mem_flatMap, Option.mem_toList] at hnames
  have hstart := Steps.optional (fun i : ForInit => i.decls.flatMap (LocalDecl.locals last)) hi
    fun a b ha hb => hb fun decl hdecl => hnames decl (.inl ⟨a, ha, hdecl⟩)
  have htest := Steps.optional (fun _ => []) hc fun _ _ _ h => h
  have hheader := (Steps.pushFrame.trans hstart).trans htest
  have hloop := (hb fun decl hdecl => hnames decl (.inr hdecl)).loop
  have hsteps := ((hheader.trans hloop).trans hu).trans Steps.popFrame
  have hdeclared : (forLoop i c u b line).locals last
      = ((([] ++ i.elim [] fun init => init.decls.flatMap (LocalDecl.locals last))
        ++ c.elim [] fun _ => []) ++ b.locals last ++ []) ++ [] ++ [] := by
    cases i <;> cases c <;> simp [locals, decls]
  rw [hdeclared]
  refine (hsteps.trans (Steps.setReturned _)).mono fun h => ?_
  obtain ⟨⟨⟨⟨⟨⟨-, hinit⟩, hcondition⟩, hinner⟩, hupdate⟩, -⟩, -⟩ := h
  exact .forLoop hinit hcondition hinner hupdate

/-- A statement that is analyzed without an error is accepted. -/
theorem check_grows (hapart : last.Apart) (s : Stmt) :
    (s.check site).Grows last (Checks site ctx last s) := by
  induction s using Stmt.induction with
  | block stmts line ih =>
    unfold check
    refine (grows_bind (grows_changeScope _) fun _ => grows_bind (checkList_grows site ctx ih)
      fun out => grows_bind (grows_changeScope _) fun _ => grows_pure _).mono ?_
    rintro s _ _ ⟨_, _, rfl, out, m, hout, _, _, rfl, rfl, rfl⟩ hnames
    have hstmts := hout fun decl hdecl => hnames decl (by simpa only [decls] using hdecl)
    have hdeclared : (block out line).locals last
        = [] ++ (declsList out).flatMap (LocalDecl.locals last) ++ [] := by
      simp [locals, decls]
    rw [hdeclared]
    exact ((Steps.pushFrame.trans hstmts).trans Steps.popFrame).mono fun h => .block h.1.2
  | declare decl =>
    unfold check
    refine (grows_map (LocalDecl.check_grows site ctx hapart decl)).mono ?_
    rintro s _ e ⟨decl', rfl, hdecl⟩ hnames
    unfold locals decls
    rw [List.flatMap_singleton]
    refine (hdecl (hnames decl ?_)).mono .declare
    unfold decls
    exact List.mem_cons_self
  | expr e line =>
    unfold check
    refine (grows_bind (Expr.checkStatement_grows site ctx e) fun e' => grows_pure _).mono ?_
    rintro s _ _ ⟨e', m, he, rfl, rfl⟩ _
    exact he.mono .expr
  | branch condition onTrue onFalse line ihTrue ihFalse => exact branch_grows site ctx ihTrue ihFalse
  | whileLoop condition body line ih => exact whileLoop_grows site ctx ih
  | forLoop init condition update body line ih => exact forLoop_grows site ctx hapart ih
  | ret value line =>
    unfold check
    refine (grows_bind (checkReturn_grows site ctx value line) fun out => grows_pure _).mono ?_
    rintro s _ _ ⟨out, m, hout, rfl, rfl⟩ _
    exact hout.mono .ret
  | breakOut line =>
    unfold check
    refine (grows_bind (grows_checkBreak site ctx line) fun _ => grows_pure _).mono ?_
    rintro s _ _ ⟨_, m, hbreak, rfl, rfl⟩ _
    refine hbreak.mono fun h => ?_
    rw [h]
    exact .breakOut
  | continueOn line =>
    unfold check checkContinue
    refine (grows_bind (grows_bind (grows_read _) fun _ => grows_reportAll _) fun _ =>
      grows_pure _).mono ?_
    rintro s _ _ ⟨_, m, ⟨inLoop, _, ⟨rfl, rfl⟩, rfl, herrors⟩, rfl, rfl⟩ _
    refine Steps.refl.mono fun _ => ?_
    split at herrors
    · next hin =>
      rw [hin]
      exact .continueOn
    · cases herrors
  | empty line =>
    unfold check
    refine (grows_pure _).mono ?_
    rintro s _ _ ⟨rfl, rfl⟩ _
    exact Steps.refl.mono fun _ => .empty

end Stmt

end ClassCompiler
