import ClassCompiler.Proofs.Body.Stmt

/-!
# Errors of an analysis

Whatever is wrong with a body, the errors that its analysis reports are errors of the source and
never faults of the compiler, and the registry afterwards extends the one before.

* `InSource`: errors that are in the source
* `Registry.Extends`: more types, in a registry that is still sound
* `Check.Regular`: steps that keep to both in every state
* `Expr.check_reports`, `Stmt.check_regular`
-/

namespace ClassCompiler

open Check BodyState

/-! ## Errors in the source -/

/-- None of the errors is a fault of the compiler. -/
def InSource (errors : List CompileError) : Prop := ∀ error ∈ errors, error.kind ≠ .internal

theorem inSource_nil : InSource [] := fun _ h => (List.not_mem_nil h).elim

theorem inSource_singleton {error : CompileError} (h : error.kind ≠ .internal) :
    InSource [error] := by
  intro e he
  rw [List.mem_singleton.mp he]
  exact h

theorem InSource.append {one two : List CompileError} (h : InSource one) (h' : InSource two) :
    InSource (one ++ two) := by
  intro error he
  rcases List.mem_append.mp he with he | he
  · exact h error he
  · exact h' error he

theorem inSource_ite {p : Prop} [Decidable p] {one two : List CompileError} (h : InSource one)
    (h' : InSource two) : InSource (if p then one else two) := by
  split
  · exact h
  · exact h'

/-! ## Judgements -/

section

variable (registry : Registry)

theorem inSource_expectType (actual expected : Ty) (line : Nat) :
    InSource (expectType registry actual expected line) :=
  inSource_ite inSource_nil (inSource_singleton (by simp [CompileError.unexpectedType, CompileError.kind]))

theorem inSource_expectOneOf (actual : Ty) (expected : List Ty) (line : Nat) :
    InSource (expectOneOf registry actual expected line) :=
  inSource_ite inSource_nil (inSource_singleton (by simp [CompileError.noneOfTypes, CompileError.kind]))

theorem inSource_refuseOperands (symbol : String) (operands : List Ty) (line : Nat) :
    InSource (refuseOperands registry symbol operands line).errors :=
  inSource_singleton (by simp [CompileError.inapplicableOperator, CompileError.kind])

theorem inSource_expectConcatenable (operand : Expr) : InSource (expectConcatenable operand) :=
  inSource_ite (inSource_singleton (by simp [CompileError.voidOperand, CompileError.kind]))
    inSource_nil

theorem inSource_judgeElement (array : Expr) (line : Nat) :
    InSource (judgeElement registry array line).errors := by
  unfold judgeElement
  dsimp only
  split
  · exact inSource_nil
  · split
    · exact inSource_nil
    · exact inSource_singleton (by simp [CompileError.kind])

theorem inSource_judgeIndex (array index : Expr) (line : Nat) :
    InSource (judgeIndex registry array index line).errors :=
  (inSource_judgeElement registry array line).append (inSource_expectOneOf registry _ _ _)

theorem inSource_judgeUnary (op : UnaryOp) (operand : Expr) (line : Nat) :
    InSource (judgeUnary registry op operand line).errors := by
  unfold judgeUnary
  dsimp only
  split
  · exact inSource_nil
  · split
    · exact inSource_refuseOperands registry _ _ _
    · split
      · exact inSource_nil
      · exact inSource_refuseOperands registry _ _ _

theorem inSource_judgeConcat (lhs rhs : Expr) : InSource (judgeConcat lhs rhs).errors :=
  (inSource_expectConcatenable lhs).append (inSource_expectConcatenable rhs)

theorem inSource_judgeBinary (op : BinaryOp) (lhs rhs : Expr) (line : Nat) :
    InSource (judgeBinary registry op lhs rhs line).errors := by
  unfold judgeBinary
  dsimp only
  split
  · exact inSource_nil
  · split
    · exact inSource_nil
    · exact inSource_refuseOperands registry _ _ _

theorem inSource_judgeIncrement (op : IncrementOp) (operand : Expr) (line : Nat) :
    InSource (judgeIncrement registry op operand line).errors := by
  unfold judgeIncrement
  dsimp only
  split
  · exact inSource_nil
  · exact inSource_refuseOperands registry _ _ _

theorem inSource_judgeCompare (lhs rhs : Expr) :
    InSource (judgeCompare registry lhs rhs).errors :=
  inSource_ite inSource_nil
    (inSource_ite (inSource_expectType registry _ _ _) (inSource_expectOneOf registry _ _ _))

theorem inSource_judgeEquality (lhs rhs : Expr) (line : Nat) :
    InSource (judgeEquality registry lhs rhs line).errors :=
  inSource_ite inSource_nil (inSource_singleton (by simp [CompileError.kind]))

theorem inSource_judgeLogical (lhs rhs : Expr) :
    InSource (judgeLogical registry lhs rhs).errors :=
  (inSource_expectType registry _ _ _).append (inSource_expectType registry _ _ _)

theorem inSource_judgeAssign (op : AssignOp) (lhs rhs : Expr) (line : Nat) :
    InSource (judgeAssign registry op lhs rhs line).2.errors := by
  unfold judgeAssign
  dsimp only
  split
  · exact inSource_nil
  · exact inSource_expectConcatenable rhs
  · exact inSource_singleton (by simp [CompileError.kind])
  · split
    · exact inSource_expectType registry _ _ _
    · exact inSource_expectOneOf registry _ _ _

theorem inSource_returnErrors (returnTy : Ty) (value : Option Expr) (line : Nat) :
    InSource (returnErrors registry returnTy value line) := by
  unfold returnErrors
  split
  · exact inSource_ite inSource_nil (inSource_singleton (by simp [CompileError.kind]))
  · split
    · exact inSource_singleton (by simp [CompileError.kind])
    · split
      · exact inSource_nil
      · exact inSource_expectType registry _ _ _

end

/-! ## Names -/

section

variable (env : ExprEnv)

theorem inSource_staticFieldErrors (name : String) (field : FieldRef) (line : Nat) :
    InSource (ExprEnv.staticFieldErrors name field line) :=
  inSource_ite inSource_nil
    (inSource_singleton (by simp [CompileError.staticContext, CompileError.kind]))

theorem inSource_bindName (scope : Scope) (node : Node) (name : String) :
    InSource (env.bindName scope node name).2 := by
  unfold ExprEnv.bindName
  split
  · exact inSource_nil
  · split
    · exact inSource_ite (inSource_staticFieldErrors _ _ _) inSource_nil
    · exact inSource_singleton (by simp [CompileError.kind])

theorem inSource_readName (scope : Scope) (node : Node) (name : String) :
    InSource (env.readName scope node name).2 := by
  refine (inSource_bindName env scope node name).append ?_
  unfold ExprEnv.uninitializedErrors
  split
  · exact inSource_ite inSource_nil (inSource_singleton (by simp [CompileError.kind]))
  · exact inSource_nil

theorem inSource_staticField (owner : Ty) (node : Node) (name : String) :
    InSource (env.staticField owner node name).2 := by
  unfold ExprEnv.staticField
  split
  · exact inSource_staticFieldErrors _ _ _
  · exact inSource_singleton (by simp [CompileError.kind])

theorem inSource_selectField (node : Node) (target : Expr) (name : String) :
    InSource (env.selectField node target name).2 := by
  unfold ExprEnv.selectField
  dsimp only
  split
  · exact inSource_nil
  · split
    · exact inSource_nil
    · split
      · split <;> exact inSource_nil
      · exact inSource_singleton (by simp [CompileError.kind])

theorem inSource_selectMethod (receiver : ExprEnv.Receiver) (node : Node) (target : Option Expr)
    (name : String) (args : List Expr) :
    InSource (env.selectMethod receiver node target name args).2 := by
  unfold ExprEnv.selectMethod
  dsimp only
  split
  · exact inSource_nil
  · split
    · exact inSource_ite (inSource_singleton (by simp [CompileError.staticContext, CompileError.kind]))
        inSource_nil
    · exact inSource_singleton (by simp [CompileError.kind])

end

/-! ## Expressions -/

/-- The property of errors that all reports have. -/
abbrev InSourceReports {σ α : Type} (step : Check σ α) : Prop :=
  step.Reports fun error => error.kind ≠ .internal

namespace Expr

theorem reports_read_note {σ α : Type} {view : σ → α × List CompileError}
    (h : ∀ state, InSource (view state).2) :
    InSourceReports (do
      let (value, errors) ← Check.read view
      Check.note value errors) := fun state => h state

theorem checkTarget_reports {env : ExprEnv} {e : Expr} (h : InSourceReports (e.check env)) :
    InSourceReports (checkTarget env e) := by
  unfold checkTarget
  split
  · exact reports_read_note fun scope => inSource_bindName env scope _ _
  · exact reports_map _ h

theorem checkList_reports {env : ExprEnv} {es : List Expr}
    (h : ∀ e ∈ es, InSourceReports (e.check env)) : InSourceReports (checkList env es) := by
  induction es with
  | nil => exact reports_pure _
  | cons first rest ih =>
    exact reports_bind (h first List.mem_cons_self) fun _ =>
      reports_bind (ih fun e he => h e (List.mem_cons_of_mem _ he)) fun _ => reports_pure _

theorem checkReceiver_reports {env : ExprEnv} {target : Option Expr}
    (h : ∀ e, target = some e → InSourceReports (e.check env)) :
    InSourceReports (checkReceiver env target) := by
  cases target with
  | none => exact reports_bind (reports_read _) fun _ => reports_pure _
  | some e =>
    refine reports_bind (reports_read _) fun found => ?_
    cases found with
    | some owner => exact reports_pure _
    | none => exact reports_bind (h e rfl) fun _ => reports_pure _

theorem markAssigned_reports (target : Expr) : InSourceReports target.markAssigned := by
  unfold markAssigned
  split
  · exact reports_modify _
  · exact reports_pure _

theorem check_reports (env : ExprEnv) (e : Expr) : InSourceReports (e.check env) := by
  induction e using Expr.induction with
  | literal n value =>
    unfold check
    exact reports_pure _
  | name n text binding =>
    unfold check
    exact reports_read_note fun scope => inSource_readName env scope _ _
  | self n =>
    unfold check
    exact fun scope => inSource_ite
      (inSource_singleton (by simp [CompileError.staticContext, CompileError.kind])) inSource_nil
  | field n target text ref ih =>
    unfold check
    refine reports_bind (reports_read _) fun found => ?_
    cases found with
    | some owner => exact reports_note _ (inSource_staticField env _ _ _)
    | none => exact reports_bind ih fun _ => reports_note _ (inSource_selectField env _ _ _)
  | index n array position iharray ihposition =>
    unfold check
    exact reports_bind iharray fun _ => reports_bind ihposition fun _ =>
      reports_note _ (inSource_judgeIndex env.registry _ _ _)
  | length n array ih =>
    unfold check
    exact reports_bind ih fun _ => reports_note _ (inSource_judgeElement env.registry _ _)
  | unary n op operand ih =>
    unfold check
    exact reports_bind ih fun _ => reports_note _ (inSource_judgeUnary env.registry _ _ _)
  | not n operand ih =>
    unfold check
    exact reports_bind ih fun _ => reports_note _ (inSource_expectType env.registry _ _ _)
  | binary n op lhs rhs ihl ihr =>
    unfold check
    refine reports_bind ihl fun l => reports_bind ihr fun r => ?_
    split
    · exact reports_note _ (inSource_judgeConcat _ _)
    · exact reports_note _ (inSource_judgeBinary env.registry _ _ _ _)
  | compare n op lhs rhs ihl ihr =>
    unfold check
    exact reports_bind ihl fun _ => reports_bind ihr fun _ =>
      reports_note _ (inSource_judgeCompare env.registry _ _)
  | equality n op lhs rhs ihl ihr =>
    unfold check
    exact reports_bind ihl fun _ => reports_bind ihr fun _ =>
      reports_note _ (inSource_judgeEquality env.registry _ _ _)
  | logical n op lhs rhs ihl ihr =>
    unfold check
    exact reports_bind ihl fun _ => reports_bind ihr fun _ =>
      reports_note _ (inSource_judgeLogical env.registry _ _)
  | concat n lhs rhs ihl ihr =>
    unfold check
    exact reports_bind ihl fun _ => reports_bind ihr fun _ =>
      reports_note _ (inSource_judgeConcat _ _)
  | assign n op lhs rhs ihl ihr =>
    rw [check_assign]
    refine reports_bind (checkTarget_reports ihl) fun l => ?_
    split
    · exact reports_bind ihr fun r => reports_bind (markAssigned_reports _) fun _ =>
        reports_note _ (inSource_judgeAssign env.registry _ _ _ _)
    · exact reports_bind (reports_report (by simp [CompileError.kind])) fun _ =>
        reports_bind ihr fun _ => reports_pure _
  | increment n op operand ih =>
    rw [check_increment]
    refine reports_bind (checkTarget_reports ih) fun l => ?_
    split
    · exact reports_note _ (inSource_judgeIncrement env.registry _ _ _)
    · exact reports_note _ (inSource_singleton (by simp [CompileError.kind]))
  | call n target text args method ihtarget ihargs =>
    rw [check_call]
    exact reports_bind (checkReceiver_reports ihtarget) fun _ =>
      reports_bind (checkList_reports ihargs) fun _ =>
        reports_note _ (inSource_selectMethod env _ _ _ _ _)

end Expr

/-! ## Steps on a registry -/

/-- More types, and none that would make a sound registry unsound. -/
def Registry.Extends (small large : Registry) : Prop :=
  small.Below large ∧ (large.Apart → small.Sound → large.Sound)

theorem Registry.Extends.refl (registry : Registry) : registry.Extends registry :=
  ⟨Below.refl registry, fun _ h => h⟩

theorem Registry.Extends.trans {one two three : Registry} (h : one.Extends two)
    (h' : two.Extends three) : one.Extends three :=
  ⟨h.1.trans h'.1, fun hapart hsound => h'.2 hapart (h.2 (h'.1.apart hapart) hsound)⟩

namespace Check

variable {σ α β : Type} [Knows σ]

/-- In every state, the step reports errors of the source alone and extends the registry. -/
def Regular (step : Check σ α) : Prop :=
  ∀ state, InSource (step.run state).errors
    ∧ (Knows.registry state).Extends (Knows.registry (step.run state).state)

theorem regular_pure (a : α) : (pure a : Check σ α).Regular := fun _ =>
  ⟨inSource_nil, Registry.Extends.refl _⟩

/-- The second step may rely on what the first one always answers with. -/
theorem regular_bind_of {first : Check σ α} {next : α → Check σ β} (P : α → Prop)
    (h : first.Regular) (hvalue : ∀ state, P (first.run state).value)
    (hnext : ∀ a, P a → (next a).Regular) : (first >>= next).Regular := by
  intro state
  obtain ⟨herrors, hextends⟩ := h state
  obtain ⟨herrors', hextends'⟩ := hnext _ (hvalue state) (first.run state).state
  exact ⟨herrors.append herrors', hextends.trans hextends'⟩

theorem regular_bind {first : Check σ α} {next : α → Check σ β} (h : first.Regular)
    (hnext : ∀ a, (next a).Regular) : (first >>= next).Regular :=
  regular_bind_of (fun _ => True) h (fun _ => trivial) fun a _ => hnext a

theorem regular_map {step : Check σ α} (f : α → β) (h : step.Regular) : (f <$> step).Regular := by
  rw [map_eq_pure_bind]
  exact regular_bind h fun _ => regular_pure _

theorem regular_note (a : α) {errors : List CompileError} (h : InSource errors) :
    (note a errors : Check σ α).Regular := fun _ => ⟨h, Registry.Extends.refl _⟩

theorem regular_reportAll {errors : List CompileError} (h : InSource errors) :
    (reportAll errors : Check σ Unit).Regular := regular_note () h

theorem regular_read (view : σ → α) : (read view : Check σ α).Regular := fun _ =>
  ⟨inSource_nil, Registry.Extends.refl _⟩

theorem regular_optional {step : α → Check σ β} (part : Option α)
    (h : ∀ a, part = some a → (step a).Regular) : (optional step part).Regular := by
  cases part with
  | none => exact regular_pure _
  | some a => exact regular_map _ (h a rfl)

theorem regular_forM {step : α → Check σ PUnit} {l : List α} (h : ∀ a ∈ l, (step a).Regular) :
    (l.forM step).Regular := by
  induction l with
  | nil => exact regular_pure _
  | cons a rest ih =>
    exact regular_bind (h a List.mem_cons_self) fun _ =>
      ih fun b hb => h b (List.mem_cons_of_mem _ hb)

end Check

/-! ## Statements -/

section

variable (site : Site)

theorem regular_onScope {α : Type} {step : ExprEnv → Check Scope α}
    (h : ∀ env, InSourceReports (step env)) : (onScope site step).Regular := fun state =>
  ⟨h _ state.scope, Registry.Extends.refl _⟩

theorem regular_changeScope (change : Scope → Scope) : (changeScope change).Regular := fun _ =>
  ⟨inSource_nil, Registry.Extends.refl _⟩

theorem regular_exitLoop : exitLoop.Regular := fun _ => ⟨inSource_nil, Registry.Extends.refl _⟩

theorem Expr.checkCondition_regular (condition : Expr) :
    (condition.checkCondition site).Regular := by
  refine regular_onScope site fun env => ?_
  exact reports_bind (check_reports env condition) fun _ =>
    reports_note _ (inSource_expectType env.registry _ _ _)

theorem Expr.checkStatement_regular (e : Expr) : (e.checkStatement site).Regular := by
  refine regular_onScope site fun env => ?_
  refine reports_bind (reports_reportAll ?_) fun _ => check_reports env _
  exact inSource_ite inSource_nil (inSource_singleton (by simp [CompileError.kind]))

theorem Expr.checkStatements_regular (es : List Expr) : (checkStatements site es).Regular := by
  induction es with
  | nil => exact regular_pure _
  | cons first rest ih =>
    exact regular_bind (checkStatement_regular site first) fun _ =>
      regular_bind ih fun _ => regular_pure _

namespace Registry

variable {registry : Registry} {name : TypeName}

theorem kind_of_resolve {error : CompileError} (h : registry.resolve name = .error error) :
    error.kind ≠ .internal := by
  unfold resolve at h
  split at h
  · cases h
    simp [CompileError.kind]
  · split at h
    · cases h
      simp [CompileError.kind]
    · cases h

theorem kind_of_resolveValue {error : CompileError}
    (h : registry.resolveValue name = .error error) : error.kind ≠ .internal := by
  unfold resolveValue at h
  split at h
  · next herror =>
    cases h
    exact kind_of_resolve herror
  · split at h
    · cases h
      simp [CompileError.kind]
    · cases h

theorem extends_of_resolve (hname : name.Ordinary) {ty : Ty} {resolved : Registry}
    (h : registry.resolve name = .ok (ty, resolved)) : registry.Extends resolved :=
  ⟨below_resolve h, fun hapart hsound => (hsound.resolve hname h hapart).1⟩

theorem resolveOrAny_regular (hname : name.Ordinary) (valueOnly : Bool) :
    InSource (registry.resolveOrAny valueOnly name).2.2
      ∧ registry.Extends (registry.resolveOrAny valueOnly name).2.1 := by
  unfold resolveOrAny
  split
  · next ty resolved hok =>
    have hresolve : registry.resolve name = .ok (ty, resolved) := by
      split at hok
      · exact (resolveValue_eq_ok_iff.mp hok).1
      · exact hok
    exact ⟨inSource_nil, extends_of_resolve hname hresolve⟩
  · next error herror =>
    refine ⟨inSource_singleton ?_, Extends.refl _⟩
    split at herror
    · exact kind_of_resolveValue herror
    · exact kind_of_resolve herror

end Registry

theorem regular_declareLocal (name : String) (ty : Ty) (line : Nat) :
    (BodyState.declareLocal name ty line).Regular := by
  intro state
  unfold BodyState.declareLocal Check.run
  dsimp only
  split
  · exact ⟨inSource_nil, Registry.Extends.refl _⟩
  · next error herror =>
    refine ⟨inSource_singleton ?_, Registry.Extends.refl _⟩
    unfold Scope.declareLocal at herror
    split at herror
    · cases herror
    · split at herror
      · cases herror
        simp [CompileError.kind]
      · cases herror

theorem Declarator.check_regular (ty : Ty) (declarator : Declarator) :
    (declarator.check site ty).Regular := by
  unfold check
  refine regular_bind (regular_declareLocal _ _ _) fun slot => ?_
  dsimp only
  split
  · exact regular_pure _
  · exact regular_bind (regular_onScope site fun env => Expr.check_reports env _) fun _ =>
      regular_pure _

theorem Declarator.checkList_regular (ty : Ty) (declarators : List Declarator) :
    (checkList site ty declarators).Regular := by
  induction declarators with
  | nil => exact regular_pure _
  | cons first rest ih =>
    exact regular_bind (check_regular site ty first) fun _ =>
      regular_bind ih fun _ => regular_pure _

theorem LocalDecl.check_regular {decl : LocalDecl} (hname : decl.type.Ordinary) :
    (decl.check site).Regular := by
  unfold check
  refine regular_bind (fun _ => Registry.resolveOrAny_regular hname true) fun ty => ?_
  exact regular_bind (Declarator.checkList_regular site ty _) fun _ => regular_pure _

theorem ForInit.check_regular {init : ForInit} (hnames : ∀ decl ∈ init.decls, decl.type.Ordinary) :
    (init.check site).Regular := by
  cases init with
  | exprs es => exact regular_map _ (Expr.checkStatements_regular site es)
  | decl d => exact regular_map _ (LocalDecl.check_regular site (hnames d List.mem_cons_self))

theorem checkReturn_regular (value : Option Expr) (line : Nat) :
    (checkReturn site value line).Regular := by
  rw [checkReturn_eq]
  refine regular_bind (regular_onScope site fun env => ?_) fun _ =>
    regular_bind (regular_changeScope _) fun _ => regular_pure _
  have hvalue : InSourceReports (Check.optional (Expr.check env) value) := by
    cases value with
    | none => exact reports_pure _
    | some e => exact reports_map _ (Expr.check_reports env e)
  exact reports_bind hvalue fun _ => reports_bind (reports_read _) fun _ =>
    reports_note _ (inSource_returnErrors env.registry _ _ _)

theorem checkBreak_regular (line : Nat) : (checkBreak line).Regular := by
  intro state
  unfold checkBreak Check.run
  dsimp only
  split
  · exact ⟨inSource_nil, Registry.Extends.refl _⟩
  · exact ⟨inSource_singleton (by simp [CompileError.kind]), Registry.Extends.refl _⟩

theorem checkContinue_regular (line : Nat) : (checkContinue line).Regular := by
  refine regular_bind (regular_read _) fun inLoop => regular_reportAll ?_
  exact inSource_ite inSource_nil (inSource_singleton (by simp [CompileError.kind]))

namespace Stmt

theorem checkList_regular {stmts : List Stmt}
    (h : ∀ s ∈ stmts, (∀ decl ∈ s.decls, decl.type.Ordinary) → (s.check site).Regular)
    (hnames : ∀ decl ∈ declsList stmts, decl.type.Ordinary) :
    (checkList site stmts).Regular := by
  induction stmts with
  | nil => exact regular_pure _
  | cons first rest ih =>
    unfold declsList at hnames
    refine regular_bind (h first List.mem_cons_self fun decl hdecl =>
      hnames decl (List.mem_append_left _ hdecl)) fun _ => regular_bind (ih (fun s hs =>
        h s (List.mem_cons_of_mem _ hs)) fun decl hdecl =>
          hnames decl (List.mem_append_right _ hdecl)) fun _ => regular_pure _

theorem check_regular (s : Stmt) (hnames : ∀ decl ∈ s.decls, decl.type.Ordinary) :
    (s.check site).Regular := by
  induction s using Stmt.induction with
  | block stmts line ih =>
    unfold check
    unfold decls at hnames
    exact regular_bind (regular_changeScope _) fun _ =>
      regular_bind (checkList_regular site ih hnames) fun _ =>
      regular_bind (regular_changeScope _) fun _ => regular_pure _
  | declare decl =>
    unfold check
    unfold decls at hnames
    exact regular_map _ (LocalDecl.check_regular site (hnames decl List.mem_cons_self))
  | expr e line =>
    unfold check
    exact regular_bind (Expr.checkStatement_regular site e) fun _ => regular_pure _
  | branch condition onTrue onFalse line ihtrue ihfalse =>
    rw [check_branch]
    rw [decls_branch] at hnames
    refine regular_bind (Expr.checkCondition_regular site condition) fun _ =>
      regular_bind (regular_read _) fun _ =>
      regular_bind (ihtrue fun decl hdecl => hnames decl (List.mem_append_left _ hdecl)) fun _ =>
      regular_bind (regular_read _) fun _ => regular_bind (regular_changeScope _) fun _ =>
      regular_bind (regular_optional _ fun stmt hstmt => ihfalse stmt hstmt fun decl hdecl =>
        hnames decl (List.mem_append_right _ ?_)) fun _ =>
      regular_bind (regular_read _) fun _ => regular_bind (regular_changeScope _) fun _ =>
      regular_pure _
    rw [hstmt]
    exact hdecl
  | whileLoop condition body line ih =>
    unfold check
    unfold decls at hnames
    exact regular_bind (Expr.checkCondition_regular site condition) fun _ =>
      regular_bind (regular_read _) fun _ => regular_bind (regular_changeScope _) fun _ =>
      regular_bind (ih hnames) fun _ => regular_bind regular_exitLoop fun _ =>
      regular_bind (regular_changeScope _) fun _ => regular_pure _
  | forLoop init condition update body line ih =>
    rw [check_forLoop]
    unfold decls at hnames
    refine regular_bind (regular_changeScope _) fun _ =>
      regular_bind (regular_optional _ fun init hinit => ForInit.check_regular site fun decl hdecl =>
        hnames decl (List.mem_append_left _ ?_)) fun _ =>
      regular_bind (regular_optional _ fun e _ => Expr.checkCondition_regular site e) fun _ =>
      regular_bind (regular_read _) fun _ => regular_bind (regular_changeScope _) fun _ =>
      regular_bind (ih fun decl hdecl => hnames decl (List.mem_append_right _ hdecl)) fun _ =>
      regular_bind regular_exitLoop fun _ =>
      regular_bind (Expr.checkStatements_regular site update) fun _ =>
      regular_bind (regular_changeScope _) fun _ => regular_bind (regular_changeScope _) fun _ =>
      regular_pure _
    rw [hinit]
    simpa using hdecl
  | ret value line =>
    unfold check
    exact regular_bind (checkReturn_regular site value line) fun _ => regular_pure _
  | breakOut line =>
    unfold check
    exact regular_bind (checkBreak_regular line) fun _ => regular_pure _
  | continueOn line =>
    unfold check
    exact regular_bind (checkContinue_regular line) fun _ => regular_pure _
  | empty line =>
    unfold check
    exact regular_pure _

end Stmt

end

end ClassCompiler
