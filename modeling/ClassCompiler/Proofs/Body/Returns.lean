import ClassCompiler.Proofs.Body.Method

/-!
# Definite return

Whether a statement always returns, read off its form: a block if one of its statements does, a
branch if both of its ways do, a loop if it tests nothing and no `break` leaves it. The analysis
keeps one flag for the whole body and a list of flags for the loops around the current point; after
a statement, the flags are those before it with what the form of the statement adds.

* `Stmt.returns`, `Stmt.breaks`
* `Scope.Leaves`: what a statement adds to the flags
* `Stmt.check_leaves`
* `MethodDecl.check_returns`: a body without a missing return always returns
-/

namespace ClassCompiler

open Check BodyState

/-! ## Forms -/

namespace Stmt

mutual

/-- Does a `break` in the statement leave the loop around it? -/
def breaks : Stmt → Bool
  | block stmts _ => listBreaks stmts
  | branch _ onTrue onFalse _ =>
    onTrue.breaks || match onFalse with
      | none => false
      | some stmt => stmt.breaks
  | .break _ => true
  | _ => false

def listBreaks : List Stmt → Bool
  | [] => false
  | first :: rest => first.breaks || listBreaks rest

end

mutual

/-- No path through the statement goes on behind it. -/
def returns : Stmt → Bool
  | block stmts _ => listReturns stmts
  | branch _ onTrue onFalse _ =>
    onTrue.returns && match onFalse with
      | none => false
      | some stmt => stmt.returns
  | whileLoop condition body _ => Expr.alwaysTrue (some condition) && !body.breaks
  | forLoop _ condition _ body _ => Expr.alwaysTrue condition && !body.breaks
  | ret .. => true
  | _ => false

def listReturns : List Stmt → Bool
  | [] => false
  | first :: rest => first.returns || listReturns rest

end

end Stmt

/-! ## Flags of a scope -/

namespace Scope

variable {one two three before after : Scope}

instance : IsPreorder Scope SameFrame where
  refl := SameFrame.refl
  trans _ _ _ := SameFrame.trans

/-- The flags after some statements that return or not, with a `break` that leaves the loop around
them or without one. -/
structure Leaves (returns breaks : Bool) (before after : Scope) : Prop where
  returnTy : after.returnTy = before.returnTy
  hasReturned : after.hasReturned = (before.hasReturned || returns)
  loops : after.loops = before.loops.modifyHead (· || breaks)

theorem Leaves.hasReturned_eq {b : Bool} (h : before.Leaves false b after) :
    after.hasReturned = before.hasReturned := h.hasReturned.trans (Bool.or_false _)

theorem Leaves.loops_eq {r : Bool} (h : before.Leaves r false after) :
    after.loops = before.loops := by
  rw [h.loops]
  cases before.loops <;> simp

/-- Steps that leave the flags alone. -/
theorem Leaves.of_eq (hreturnTy : after.returnTy = before.returnTy)
    (hreturned : after.hasReturned = before.hasReturned) (hloops : after.loops = before.loops) :
    before.Leaves false false after := by
  refine ⟨hreturnTy, by rw [hreturned, Bool.or_false], ?_⟩
  rw [hloops]
  cases before.loops <;> simp

theorem SameFrame.leaves (h : before.SameFrame after) : before.Leaves false false after := by
  unfold SameFrame at h
  exact .of_eq (by rw [← h]) (by rw [← h]) (by rw [← h])

theorem Leaves.trans {r r' b b' : Bool} (h : one.Leaves r b two) (h' : two.Leaves r' b' three) :
    one.Leaves (r || r') (b || b') three := by
  refine ⟨h'.returnTy.trans h.returnTy, ?_, ?_⟩
  · rw [h'.hasReturned, h.hasReturned, Bool.or_assoc]
  · rw [h'.loops, h.loops, List.modifyHead_modifyHead]
    simp only [Function.comp_def, Bool.or_assoc]

/-- A loop seen from outside: whether a `break` leaves it, and the flags of the loops around. -/
theorem Leaves.exitLoop {r b : Bool} (h : before.enterLoop.Leaves r b after) :
    after.exitLoop.1 = b ∧ after.exitLoop.2.loops = before.loops
      ∧ after.exitLoop.2.returnTy = before.returnTy := by
  have hloops := h.loops
  change after.loops = (false || b) :: before.loops at hloops
  rw [Bool.false_or] at hloops
  unfold Scope.exitLoop
  rw [hloops]
  exact ⟨rfl, rfl, h.returnTy⟩

/-- The flags after the two ways of a branch, each of which starts from the flags before it. -/
theorem Leaves.branch {start condition onTrue onFalse : Scope} {t : Stmt} {f : Option Stmt}
    (hcondition : start.Leaves false false condition)
    (htrue : condition.Leaves t.returns t.breaks onTrue)
    (hfalse : (f = none ∧ onFalse = onTrue.setReturned condition.hasReturned)
      ∨ ∃ s, f = some s
        ∧ (onTrue.setReturned condition.hasReturned).Leaves s.returns s.breaks onFalse)
    (c : Expr) (line : Nat) :
    start.Leaves (Stmt.branch c t f line).returns (Stmt.branch c t f line).breaks
      (onFalse.setReturned (condition.hasReturned
        || (onTrue.hasReturned && f.isSome && onFalse.hasReturned))) := by
  unfold Stmt.returns Stmt.breaks
  have hstart := hcondition.hasReturned_eq
  have hloops := (hcondition.trans htrue).loops
  rw [Bool.false_or] at hloops
  rcases hfalse with ⟨rfl, rfl⟩ | ⟨s, rfl, hs⟩
  · refine ⟨htrue.returnTy.trans hcondition.returnTy, ?_, hloops.trans (by simp)⟩
    show (condition.hasReturned || (onTrue.hasReturned && false && _)) = _
    simp [hstart]
  · have hboth : onFalse.hasReturned = (condition.hasReturned || s.returns) := hs.hasReturned
    refine ⟨hs.returnTy.trans (htrue.returnTy.trans hcondition.returnTy), ?_, ?_⟩
    · show (condition.hasReturned || (onTrue.hasReturned && true && onFalse.hasReturned)) = _
      rw [hboth, htrue.hasReturned, hstart, Bool.and_true]
      cases start.hasReturned <;> rfl
    · show onFalse.loops = _
      rw [hs.loops]
      show onTrue.loops.modifyHead _ = _
      rw [hloops, List.modifyHead_modifyHead]
      simp only [Function.comp_def, Bool.or_assoc]

end Scope

/-! ## Expressions -/

namespace Expr

variable {R : Scope → Scope → Prop} [IsPreorder Scope R]

theorem checkTarget_keeps {env : ExprEnv} {e : Expr} (h : (e.check env).Keeps R) :
    (checkTarget env e).Keeps R := by
  unfold checkTarget
  split
  · exact keeps_bind (keeps_read _) fun _ => keeps_note _ _
  · exact keeps_map _ h

theorem checkList_keeps {env : ExprEnv} {es : List Expr} (h : ∀ e ∈ es, (e.check env).Keeps R) :
    (checkList env es).Keeps R := by
  induction es with
  | nil => exact keeps_pure _
  | cons first rest ih =>
    exact keeps_bind (h first List.mem_cons_self) fun _ =>
      keeps_bind (ih fun e he => h e (List.mem_cons_of_mem _ he)) fun _ => keeps_pure _

theorem checkReceiver_keeps {env : ExprEnv} {target : Option Expr}
    (h : ∀ e, target = some e → (e.check env).Keeps R) : (checkReceiver env target).Keeps R := by
  cases target with
  | none => exact keeps_bind (keeps_read _) fun _ => keeps_pure _
  | some e =>
    refine keeps_bind (keeps_read _) fun found => ?_
    cases found with
    | some owner => exact keeps_pure _
    | none => exact keeps_bind (h e rfl) fun _ => keeps_pure _

/-- All that an expression does to a scope is to give locals a value, where an assignment stands. -/
theorem check_keeps_of (env : ExprEnv) (e : Expr) (h : e.Everywhere fun d => d.isAssignment = true →
    ∀ scope name, R scope (Scope.markInitialized scope name)) : (e.check env).Keeps R := by
  induction e using Expr.induction with
  | literal n value =>
    unfold check
    exact keeps_pure _
  | name n text binding =>
    unfold check
    exact keeps_bind (keeps_read _) fun _ => keeps_note _ _
  | self n =>
    unfold check
    exact keeps_bind (keeps_read _) fun _ => keeps_note _ _
  | field n target text ref ih =>
    unfold check
    refine keeps_bind (keeps_read _) fun found => ?_
    cases found with
    | some owner => exact keeps_note _ _
    | none => exact keeps_bind (ih (h.child List.mem_cons_self)) fun _ => keeps_note _ _
  | length n operand ih | unary n op operand ih | not n operand ih =>
    unfold check
    exact keeps_bind (ih (h.child List.mem_cons_self)) fun _ => keeps_note _ _
  | binary n op lhs rhs ihl ihr =>
    unfold check
    refine keeps_bind (ihl (h.child (by simp [children]))) fun l =>
      keeps_bind (ihr (h.child (by simp [children]))) fun r => ?_
    split <;> exact keeps_note _ _
  | index n lhs rhs ihl ihr | compare n op lhs rhs ihl ihr | equality n op lhs rhs ihl ihr
  | logical n op lhs rhs ihl ihr | concat n lhs rhs ihl ihr =>
    unfold check
    exact keeps_bind (ihl (h.child (by simp [children]))) fun _ =>
      keeps_bind (ihr (h.child (by simp [children]))) fun _ => keeps_note _ _
  | assign n op lhs rhs ihl ihr =>
    have hright := ihr (h.child (by simp [children]))
    rw [check_assign]
    refine keeps_bind (checkTarget_keeps (ihl (h.child (by simp [children])))) fun l => ?_
    split
    · refine keeps_bind hright fun r => keeps_bind ?_ fun _ => keeps_note _ _
      unfold markAssigned
      split
      · next text _ => exact fun scope => h _ (mem_nodes_self _) rfl scope text
      · exact keeps_pure _
    · exact keeps_bind (keeps_note _ _) fun _ => keeps_bind hright fun _ => keeps_pure _
  | increment n op operand ih =>
    rw [check_increment]
    refine keeps_bind (checkTarget_keeps (ih (h.child List.mem_cons_self))) fun l => ?_
    split <;> exact keeps_note _ _
  | call n target text args method ihtarget ihargs =>
    have hchild : ∀ c ∈ target.toList ++ args, c.Everywhere _ := fun c hc => h.child hc
    rw [check_call]
    exact keeps_bind (checkReceiver_keeps fun t ht => ihtarget t ht
        (hchild t (List.mem_append_left _ (Option.mem_toList.mpr ht)))) fun _ =>
      keeps_bind (checkList_keeps fun a ha => ihargs a ha (hchild a (List.mem_append_right _ ha)))
        fun _ => keeps_note _ _

theorem check_keeps (hmark : ∀ scope name, R scope (Scope.markInitialized scope name))
    (env : ExprEnv) (e : Expr) : (e.check env).Keeps R :=
  check_keeps_of env e fun _ _ _ => hmark

/-- Without an assignment, the scope stays as it is. -/
theorem check_still (env : ExprEnv) {e : Expr} (h : ∀ d ∈ e.nodes, d.isAssignment = false) :
    (e.check env).Keeps Eq :=
  check_keeps_of env e fun d hd htrue => by
    rw [h d hd] at htrue
    cases htrue

theorem check_sameFrame (env : ExprEnv) (e : Expr) : (e.check env).Keeps Scope.SameFrame :=
  check_keeps Scope.sameFrame_markInitialized env e

end Expr

/-! ## Parts of statements -/

/-- A step on a body that adds nothing to the flags. -/
abbrev Quiet {α : Type} (step : Check BodyState α) : Prop :=
  step.Moves fun before _ after => before.scope.Leaves false false after.scope

theorem quiet_bind {α β : Type} {first : Check BodyState α} {next : α → Check BodyState β}
    (h : Quiet first) (hnext : ∀ a, Quiet (next a)) : Quiet (first >>= next) :=
  fun state => (h state).trans (hnext _ _)

theorem quiet_pure {α : Type} (a : α) : Quiet (pure a) := fun _ => .of_eq rfl rfl rfl

theorem quiet_map {α β : Type} {step : Check BodyState α} (f : α → β) (h : Quiet step) :
    Quiet (f <$> step) := by
  rw [← bind_pure_comp]
  exact quiet_bind h fun _ => quiet_pure _

theorem quiet_onScope {α : Type} {site : Site} {step : ExprEnv → Check Scope α}
    (h : ∀ env, (step env).Keeps Scope.SameFrame) : Quiet (onScope site step) :=
  fun _ => (h _ _).leaves

variable (site : Site)

theorem Expr.checkCondition_quiet (condition : Expr) : Quiet (condition.checkCondition site) :=
  quiet_onScope fun env => keeps_bind (condition.check_sameFrame env) fun _ => keeps_note _ _

theorem Expr.checkStatement_quiet (e : Expr) : Quiet (e.checkStatement site) :=
  quiet_onScope fun env => keeps_bind (keeps_note _ _) fun _ => Expr.check_sameFrame env _

theorem Expr.checkStatements_quiet (es : List Expr) : Quiet (Expr.checkStatements site es) := by
  induction es with
  | nil => exact quiet_pure _
  | cons first rest ih =>
    exact quiet_bind (first.checkStatement_quiet site) fun _ => quiet_bind ih fun _ => quiet_pure _

theorem declareLocal_quiet (name : String) (ty : Ty) (line : Nat) :
    Quiet (declareLocal name ty line) := by
  intro state
  unfold declareLocal Check.run
  dsimp only
  split
  · next slot scope hok =>
    unfold Scope.declareLocal at hok
    split at hok
    · cases hok
      exact .of_eq rfl rfl rfl
    · split at hok
      · cases hok
      · cases hok
        exact .of_eq rfl rfl rfl
  · exact .of_eq rfl rfl rfl

theorem Declarator.check_quiet (ty : Ty) (declarator : Declarator) :
    Quiet (declarator.check site ty) := by
  unfold check
  refine quiet_bind (declareLocal_quiet _ _ _) fun slot => ?_
  dsimp only
  cases declarator.init with
  | none => exact quiet_pure _
  | some init =>
    exact quiet_bind (quiet_onScope fun env => Expr.check_sameFrame env _) fun _ => quiet_pure _

theorem Declarator.checkList_quiet (ty : Ty) (declarators : List Declarator) :
    Quiet (checkList site ty declarators) := by
  induction declarators with
  | nil => exact quiet_pure _
  | cons first rest ih =>
    exact quiet_bind (first.check_quiet site ty) fun _ => quiet_bind ih fun _ => quiet_pure _

theorem LocalDecl.check_quiet (decl : LocalDecl) : Quiet (decl.check site) :=
  quiet_bind (fun _ => .of_eq rfl rfl rfl) fun ty =>
    quiet_bind (Declarator.checkList_quiet site ty decl.declarators) fun _ => quiet_pure _

theorem ForInit.check_quiet (init : ForInit) : Quiet (init.check site) := by
  cases init with
  | exprs es => exact quiet_map _ (Expr.checkStatements_quiet site es)
  | decl d => exact quiet_map _ (d.check_quiet site)

theorem quiet_optional {α β : Type} {step : α → Check BodyState β} (part : Option α)
    (h : ∀ a, Quiet (step a)) : Quiet (Check.optional step part) := by
  cases part with
  | none => exact quiet_pure _
  | some a => exact quiet_map _ (h a)

/-! ## Statements -/

theorem checkBreak_leaves (line : Nat) (state : BodyState) :
    state.scope.Leaves false true ((checkBreak line).run state).state.scope := by
  unfold checkBreak Check.run
  dsimp only
  cases hnoted : state.scope.noteBreak? with
  | none =>
    refine ⟨rfl, (Bool.or_false _).symm, ?_⟩
    unfold Scope.noteBreak? at hnoted
    split at hnoted
    · next hloops => simp [hloops]
    · cases hnoted
  | some scope =>
    unfold Scope.noteBreak? at hnoted
    split at hnoted
    · cases hnoted
    · next loop outer hloops =>
      cases hnoted
      exact ⟨rfl, (Bool.or_false _).symm, by simp [hloops]⟩

theorem checkReturn_leaves (value : Option Expr) (line : Nat) (state : BodyState) :
    state.scope.Leaves true false ((checkReturn site value line).run state).state.scope := by
  have hvalue : Quiet (onScope site fun env => do
      let value ← Check.optional (Expr.check env) value
      let returnTy ← Check.read Scope.returnTy
      Check.note value (returnErrors env.registry returnTy value line)) := by
    refine quiet_onScope fun env => keeps_bind ?_ fun _ => keeps_bind (keeps_read _) fun _ =>
      keeps_note _ _
    cases value with
    | none => exact keeps_pure _
    | some e => exact keeps_map _ (e.check_sameFrame env)
  rw [checkReturn_eq]
  have hset : ∀ scope : Scope, scope.Leaves true false (scope.setReturned true) := fun scope =>
    ⟨rfl, (Bool.or_true _).symm, (Scope.SameFrame.refl scope).leaves.loops⟩
  exact (hvalue state).trans (hset _)

namespace Stmt

theorem checkList_leaves {stmts : List Stmt}
    (h : ∀ s ∈ stmts, (s.check site).Moves fun before out after =>
      before.scope.Leaves out.returns out.breaks after.scope) :
    (checkList site stmts).Moves fun before out after =>
      before.scope.Leaves (listReturns out) (listBreaks out) after.scope := by
  induction stmts with
  | nil => exact fun _ => .of_eq rfl rfl rfl
  | cons first rest ih =>
    intro state
    have hfirst := h first List.mem_cons_self state
    have hrest := ih (fun s hs => h s (List.mem_cons_of_mem _ hs)) ((first.check site).run state).state
    exact hfirst.trans hrest

/-- What a statement adds to the flags is read off the analyzed statement. -/
theorem check_leaves (s : Stmt) : (s.check site).Moves fun before out after =>
    before.scope.Leaves out.returns out.breaks after.scope := by
  induction s using Stmt.induction with
  | block stmts line ih =>
    unfold check
    intro state
    have hstmts := checkList_leaves site ih { state with scope := state.scope.pushFrame }
    exact ⟨hstmts.returnTy, hstmts.hasReturned, hstmts.loops⟩
  | declare decl =>
    unfold check
    refine (moves_map (decl.check_quiet site)).mono ?_
    rintro s _ e ⟨decl', rfl, h⟩
    exact h
  | expr e line =>
    unfold check
    exact fun state => e.checkStatement_quiet site state
  | branch condition onTrue onFalse line ihTrue ihFalse =>
    rw [check_branch]
    refine (moves_bind (condition.checkCondition_quiet site) fun c =>
      moves_bind (moves_run hasReturned) fun _ => moves_bind ihTrue fun t =>
      moves_bind (moves_run hasReturned) fun _ => moves_bind (moves_run (setReturned _)) fun _ =>
      moves_bind (moves_optional onFalse ihFalse) fun f =>
      moves_bind (moves_run hasReturned) fun _ => moves_bind (moves_run (setReturned _)) fun _ =>
      moves_run _).mono ?_
    rintro s _ _ ⟨c, m, hc, _, _, ⟨rfl, rfl⟩, t, m', ht, _, _, ⟨rfl, rfl⟩, _, _, ⟨-, rfl⟩, f, m'', hf,
      _, _, ⟨rfl, rfl⟩, _, _, ⟨-, rfl⟩, rfl, rfl⟩
    exact hc.branch ht (hf.imp_left fun h => ⟨h.1, congrArg BodyState.scope h.2⟩) c line
  | whileLoop condition body line ih =>
    unfold check
    refine (moves_bind (condition.checkCondition_quiet site) fun c =>
      moves_bind (moves_run hasReturned) fun _ =>
      moves_bind (moves_run (changeScope Scope.enterLoop)) fun _ => moves_bind ih fun b =>
      moves_bind (moves_run exitLoop) fun _ => moves_bind (moves_run (setReturned _)) fun _ =>
      moves_run _).mono ?_
    rintro s _ _ ⟨c, m, hc, _, _, ⟨rfl, rfl⟩, _, _, ⟨-, rfl⟩, b, m', hb, _, _, ⟨rfl, rfl⟩, _, _,
      ⟨-, rfl⟩, rfl, rfl⟩
    obtain ⟨hbreak, hloops, hreturnTy⟩ := Scope.Leaves.exitLoop hb
    refine ⟨hreturnTy.trans hc.returnTy, ?_, ?_⟩
    · show (_ || (_ && !(Scope.exitLoop _).1)) = _
      rw [hbreak]
      exact congrArg (· || _) hc.hasReturned_eq
    · exact hloops.trans hc.loops
  | forLoop init condition update body line ih =>
    rw [check_forLoop]
    refine (moves_bind (moves_run (changeScope Scope.pushFrame)) fun _ =>
      moves_bind (quiet_optional init fun i => i.check_quiet site) fun i =>
      moves_bind (quiet_optional condition fun c => c.checkCondition_quiet site) fun c =>
      moves_bind (moves_run hasReturned) fun _ =>
      moves_bind (moves_run (changeScope Scope.enterLoop)) fun _ => moves_bind ih fun b =>
      moves_bind (moves_run exitLoop) fun _ =>
      moves_bind (Expr.checkStatements_quiet site update) fun u =>
      moves_bind (moves_run (changeScope Scope.popFrame)) fun _ =>
      moves_bind (moves_run (setReturned _)) fun _ => moves_run _).mono ?_
    rintro s _ _ ⟨_, _, ⟨-, rfl⟩, i, m, hi, c, m', hc, _, _, ⟨rfl, rfl⟩, _, _, ⟨-, rfl⟩, b, m'', hb,
      _, _, ⟨rfl, rfl⟩, u, e, hu, _, _, ⟨-, rfl⟩, _, _, ⟨-, rfl⟩, rfl, rfl⟩
    have hheader := hi.trans hc
    obtain ⟨hbreak, hloops, hreturnTy⟩ := Scope.Leaves.exitLoop hb
    refine ⟨hu.returnTy.trans (hreturnTy.trans hheader.returnTy), ?_, ?_⟩
    · show (_ || (_ && !(Scope.exitLoop _).1)) = _
      rw [hbreak]
      exact congrArg (· || _) hheader.hasReturned_eq
    · exact hu.loops_eq.trans (hloops.trans hheader.loops)
  | ret value line =>
    unfold check
    exact fun state => checkReturn_leaves site value line state
  | breakOut line =>
    unfold check
    exact fun state => checkBreak_leaves line state
  | continueOn line =>
    unfold check checkContinue
    exact fun _ => .of_eq rfl rfl rfl
  | empty line =>
    unfold check
    exact fun _ => .of_eq rfl rfl rfl

end Stmt

/-! ## Methods -/

theorem declareParams_quiet (params : List (FormalParam × Ty)) : Quiet (declareParams params) := by
  induction params with
  | nil => exact quiet_pure _
  | cons first rest ih =>
    refine quiet_bind (fun state => ?_) fun _ => ih
    unfold declareParam Check.run
    dsimp only
    split
    · next slot scope hok =>
      unfold Scope.declareParam at hok
      split at hok
      · cases hok
      · cases hok
        exact .of_eq rfl rfl rfl
    · exact .of_eq rfl rfl rfl

/-- A body without a missing return. -/
def Block.Returns (returnTy : Ty) (body : Block) : Prop :=
  returnTy = .void ∨ returnTy = .any ∨ Stmt.listReturns body.stmts = true

theorem Block.check_returns (name : String) (line : Nat) (body : Block) {state : BodyState}
    (hstart : state.scope.hasReturned = false) :
    (body.check site name line).Clean state fun out _ => out.Returns state.scope.returnTy := by
  intro herrors
  have hleaves := Stmt.checkList_leaves site (fun s (_ : s ∈ body.stmts) => s.check_leaves site) state
  have hmissing := (List.append_eq_nil_iff.mp herrors).2
  change missingReturnErrors name line ((Stmt.checkList site body.stmts).run state).state.scope = []
    at hmissing
  unfold missingReturnErrors at hmissing
  rw [hleaves.returnTy, hleaves.hasReturned, hstart, Bool.false_or] at hmissing
  split at hmissing
  · next h => exact h
  · cases hmissing

namespace MethodDecl

theorem signature_check (method : MethodDecl) (registry : Registry) :
    ((method.check site).run registry).value.signature = method.signature := by
  cases hsignature : method.signature with
  | none =>
    unfold check Check.run
    rw [hsignature]
    exact hsignature
  | some signature =>
    rw [run_check site hsignature, checkBody_eq]
    exact hsignature

/-- The body of a method that is analyzed without an error returns as the method declares. -/
theorem check_returns {method : MethodDecl} {signature : MethodSignature}
    (hsignature : method.signature = some signature) (registry : Registry) :
    (method.check site).Clean registry fun out _ => ∀ body, out.body = some body →
      body.Returns signature.returnTy := by
  let scope := Scope.start signature.returnTy signature.exceptions method.mods.isStatic
  have hchecked : (method.checkBody site signature).Clean { registry, scope } fun out _ =>
      ∀ body, out.body = some body → body.Returns signature.returnTy := by
    rw [checkBody_eq]
    refine clean_bind (Q := fun _ s => s.scope.hasReturned = false
      ∧ s.scope.returnTy = signature.returnTy) (fun _ => ?_) ?_
    · have hparams := declareParams_quiet (method.params.zip signature.params) { registry, scope }
      exact ⟨hparams.hasReturned_eq, hparams.returnTy⟩
    · rintro _ s ⟨hreturned, hreturnTy⟩
      refine clean_bind (clean_optional (S := fun out _ => ∀ body, out = some body →
        body.Returns signature.returnTy) (fun _ body hbody => by cases hbody) fun given _ => ?_)
        fun out _ hout => clean_read_bind (clean_pure hout)
      refine (Block.check_returns site method.name method.line given hreturned).mono ?_
      rintro out _ hout _ ⟨⟩
      exact hreturnTy ▸ hout
  intro herrors
  rw [run_check site hsignature] at herrors ⊢
  exact hchecked herrors

end MethodDecl

end ClassCompiler
