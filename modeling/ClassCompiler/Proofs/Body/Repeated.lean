import ClassCompiler.Proofs.Body.Again
import ClassCompiler.Proofs.Unit.Outlines

/-!
# Analysis of analyzed statements

The statements that were analyzed without an error, analyzed once more: in the same scope, over a
registry that knows all that the first analysis ended with. If no local has an initializer and all
expressions last, they come out as they go in, and the registry learns nothing.

* `Check.Repeats`: a run, and a step that repeats it
* `Stmt.Recurs`: the same of a statement, in every state
* `Stmt.check_repeats`, `MethodDecl.check_repeats`
-/

namespace ClassCompiler

open Check BodyState

/-! ## States and runs -/

namespace Registry

theorem Founded.later {s t : Registry} (h : s.Founded) (hpart : s.PartOf t) (ht : t.Closed) :
    t.Founded := ⟨ht, fun ty hty => hpart.contains (h.fixed ty hty)⟩

end Registry

namespace BodyState

/-- The same scope over another registry. -/
def withRegistry (state : BodyState) (registry : Registry) : BodyState := { state with registry }

/-- A state that an analysis may be in, with certain names for the locals. -/
structure Suited (site : Site) (names : List String) (state : BodyState) : Prop where
  founded : state.registry.Founded
  site : site.Among fun ty => state.registry.contains ty = true
  scope : state.scope.Inside state.registry names

variable {site : Site} {names : List String} {state : BodyState}

theorem Suited.change (h : state.Suited site names) {scope : Scope}
    (hscope : scope.Inside state.registry names) :
    BodyState.Suited site names { state with scope } := ⟨h.founded, h.site, hscope⟩

theorem Suited.pushFrame (h : state.Suited site names) :
    BodyState.Suited site names { state with scope := state.scope.pushFrame } :=
  h.change (h.scope.of_eq rfl rfl rfl)

theorem Suited.popFrame (h : state.Suited site names) :
    BodyState.Suited site names { state with scope := state.scope.popFrame } :=
  h.change h.scope.popFrame

theorem Suited.enterLoop (h : state.Suited site names) :
    BodyState.Suited site names { state with scope := state.scope.enterLoop } :=
  h.change (h.scope.of_eq rfl rfl rfl)

theorem Suited.exitLoop (h : state.Suited site names) :
    BodyState.Suited site names { state with scope := state.scope.exitLoop.2 } :=
  h.change (h.scope.of_eq rfl rfl rfl)

theorem Suited.setReturned (h : state.Suited site names) (returned : Bool) :
    BodyState.Suited site names { state with scope := state.scope.setReturned returned } :=
  h.change (h.scope.of_eq rfl rfl rfl)

theorem Suited.learn (h : state.Suited site names) {later : Registry}
    (hpart : state.registry.PartOf later) (hlater : later.Closed) :
    (state.withRegistry later).Suited site names :=
  ⟨h.founded.later hpart hlater, h.site.mono fun _ => hpart.contains, h.scope.mono hpart⟩

end BodyState

/-- A run of an analysis: what the registry knew before it knows afterwards. Over a registry that
knows more, `again` goes from the same scope to the same scope and answers with what came out, under
a condition. -/
structure Check.Repeats {α : Type} (site : Site) (names : List String) (last : Registry)
    (again : Check BodyState α) (condition : Prop) (before : BodyState) (out : α)
    (after : BodyState) : Prop where
  part : before.registry.PartOf after.registry
  suited : after.Suited site names
  answers : after.registry.PartOf last → condition →
    again.Answers (before.withRegistry last) out (after.withRegistry last)

namespace Check.Repeats

variable {α β : Type} {site : Site} {names : List String} {last : Registry}
  {again : Check BodyState α} {condition condition' : Prop} {before middle after : BodyState}
  {a : α} {b : β}

theorem imp (h : again.Repeats site names last condition before a after)
    (himp : condition' → condition) : again.Repeats site names last condition' before a after :=
  ⟨h.part, h.suited, fun hpart hcondition => h.answers hpart (himp hcondition)⟩

theorem bind {next : α → Check BodyState β}
    (h : Repeats site names last again condition before a middle)
    (hnext : Repeats site names last (next a) condition middle b after) :
    Repeats site names last (again >>= next) condition before b after :=
  ⟨h.part.trans hnext.part, hnext.suited, fun hpart hcondition =>
    answers_bind (h.answers (hnext.part.trans hpart) hcondition) (hnext.answers hpart hcondition)⟩

theorem map (f : α → β) (h : Repeats site names last again condition before a after) :
    Repeats site names last (f <$> again) condition before (f a) after :=
  ⟨h.part, h.suited, fun hpart hcondition => answers_map f (h.answers hpart hcondition)⟩

theorem pure (h : before.Suited site names) :
    Repeats site names last (pure b) condition before b before :=
  ⟨.refl _, h, fun _ _ => answers_pure⟩

/-- What is read from the scope alone. -/
theorem read (view : Scope → β) (h : before.Suited site names) :
    Repeats site names last (Check.read fun state => view state.scope) condition before
      (view before.scope) before :=
  ⟨.refl _, h, fun _ _ => rfl⟩

theorem reportAll {errors : List CompileError} (h : before.Suited site names)
    (herrors : errors = []) :
    Repeats site names last (Check.reportAll errors) condition before () before :=
  ⟨.refl _, h, fun _ _ => answers_reportAll herrors⟩

theorem change {change : Scope → Scope}
    (h : BodyState.Suited site names { before with scope := change before.scope }) :
    Repeats site names last (changeScope change) condition before ()
      { before with scope := change before.scope } :=
  ⟨.refl _, h, fun _ _ => rfl⟩

theorem exitLoop (h : BodyState.Suited site names { before with scope := before.scope.exitLoop.2 }) :
    Repeats site names last BodyState.exitLoop condition before before.scope.exitLoop.1
      { before with scope := before.scope.exitLoop.2 } :=
  ⟨.refl _, h, fun _ _ => rfl⟩

end Check.Repeats

section

variable {site : Site} {names hidden : List String} {state : BodyState}

/-! ## Steps on the scope -/

namespace BodyState

variable (last : Registry) (condition : Prop)

theorem resolve_repeats (h : state.Suited site names) (type : TypeName) :
    (resolve true type).Clean state fun ty after =>
      Repeats site names last (resolve true type) condition state ty after
        ∧ after.registry.contains ty = true := by
  intro herrors
  have hclosed := h.founded.closed
  have hname : state.registry.resolveOrAny true type
      = ((state.registry.resolveOrAny true type).1, (state.registry.resolveOrAny true type).2.1, []) :=
    Prod.ext rfl (Prod.ext rfl herrors)
  have hlater := hclosed.resolveOrAny true type
  have hty := hclosed.contains_resolveOrAny true type
  have hpart := Registry.partOf_resolveOrAny state.registry true type
  refine ⟨⟨hpart, h.learn hpart hlater, fun hlast _ => ?_⟩, hty⟩
  have hagain := hlast.resolveOrAny hclosed hname
  unfold Answers Check.run resolve withRegistry
  dsimp only
  rw [hagain]

theorem declareLocal_repeats (h : state.Suited site names) {name : String} {ty : Ty} (line : Nat)
    (hty : state.registry.contains ty = true) (hname : name ∈ names) :
    (declareLocal name ty line).Clean state fun slot after => after.registry = state.registry
      ∧ slot.isSome ∧ Repeats site names last (declareLocal name ty line) condition state slot
        after := by
  intro herrors
  unfold declareLocal Check.run at herrors ⊢
  dsimp only at herrors ⊢
  cases hok : state.scope.declareLocal name ty line with
  | error error =>
    rw [hok] at herrors
    cases herrors
  | ok found =>
    refine ⟨rfl, rfl, .refl _, h.change (h.scope.declareLocal hty hname hok), fun _ _ => ?_⟩
    unfold Answers Check.run withRegistry
    dsimp only
    rw [hok]

theorem declareParam_repeats (h : state.Suited site names) {name : String} {ty : Ty} (line : Nat)
    (hty : state.registry.contains ty = true) (hname : name ∈ names) :
    (declareParam name ty line).Clean state fun slot after => after.registry = state.registry
      ∧ Repeats site names last (declareParam name ty line) condition state slot after := by
  intro herrors
  unfold declareParam Check.run at herrors ⊢
  dsimp only at herrors ⊢
  cases hok : state.scope.declareParam name ty line with
  | error error =>
    rw [hok] at herrors
    cases herrors
  | ok found =>
    refine ⟨rfl, .refl _, h.change (h.scope.declareParam hty hname hok), fun _ _ => ?_⟩
    unfold Answers Check.run withRegistry
    dsimp only
    rw [hok]

end BodyState

/-! ## Declarations -/

section

variable (last : Registry) (condition : Prop)

theorem Declarator.check_repeats (hstate : state.Suited site names) {ty : Ty}
    (hty : state.registry.contains ty = true) {declarator : Declarator}
    (hinit : declarator.init = none) (hname : declarator.name ∈ names) :
    (declarator.check site ty).Clean state fun out after => after.registry = state.registry
      ∧ out.2 = [] ∧ Repeats site names last (out.1.check site ty) condition state out after := by
  unfold check
  refine clean_bind (declareLocal_repeats last condition hstate _ hty hname)
    fun slot after hslot => ?_
  obtain ⟨hregistry, hsome, hrepeats⟩ := hslot
  obtain ⟨slot, rfl⟩ := Option.isSome_iff_exists.mp hsome
  rw [hinit]
  exact clean_pure ⟨hregistry, rfl, hrepeats.bind (.pure hrepeats.suited)⟩

theorem Declarator.checkList_repeats (hstate : state.Suited site names) {ty : Ty}
    (hty : state.registry.contains ty = true) {declarators : List Declarator}
    (h : ∀ d ∈ declarators, d.init = none ∧ d.name ∈ names) :
    (checkList site ty declarators).Clean state fun out after => out.2 = []
      ∧ Repeats site names last (checkList site ty out.1) condition state out after := by
  induction declarators generalizing state with
  | nil => exact clean_pure ⟨rfl, .pure hstate⟩
  | cons first rest ih =>
    obtain ⟨hinit, hname⟩ := h first List.mem_cons_self
    refine clean_bind (check_repeats last condition hstate hty hinit hname)
      fun one middle hone => ?_
    obtain ⟨hregistry, hnone, hone⟩ := hone
    refine clean_bind (ih hone.suited (hregistry ▸ hty) fun d hd => h d (List.mem_cons_of_mem _ hd))
      fun others after hothers => clean_pure ?_
    obtain ⟨hnone', hothers⟩ := hothers
    refine ⟨by rw [hnone, hnone']; rfl, ?_⟩
    exact hone.bind (hothers.bind (.pure hothers.suited))

/-- A declaration of locals with known names and without initializers. -/
def LocalDecl.Bare (names : List String) (decl : LocalDecl) : Prop :=
  ∀ d ∈ decl.declarators, d.init = none ∧ d.name ∈ names

theorem LocalDecl.check_repeats (hstate : state.Suited site names) {decl : LocalDecl}
    (hbare : decl.Bare names) : (decl.check site).Clean state fun out after =>
      Repeats site names last (out.check site) condition state out after := by
  unfold check
  refine clean_bind (resolve_repeats last condition hstate decl.type)
    fun ty middle hty => ?_
  obtain ⟨hresolve, hcontains⟩ := hty
  refine clean_bind (Declarator.checkList_repeats last condition
    hresolve.suited hcontains hbare) fun out after hout => clean_pure ?_
  obtain ⟨hnone, hout⟩ := hout
  exact hresolve.bind (hout.bind (.pure hout.suited))

/-! ## Jumps -/

theorem checkBreak_repeats (hstate : state.Suited site names) (line : Nat) :
    (checkBreak line).Clean state fun out after =>
      Repeats site names last (checkBreak line) condition state out after := by
  intro herrors
  unfold checkBreak Check.run at herrors ⊢
  dsimp only at herrors ⊢
  cases hbreak : state.scope.noteBreak? with
  | none =>
    rw [hbreak] at herrors
    cases herrors
  | some after =>
    have hinside : after.Inside state.registry names := by
      unfold Scope.noteBreak? at hbreak
      split at hbreak <;> cases hbreak
      exact hstate.scope.of_eq rfl rfl rfl
    refine ⟨.refl _, hstate.change hinside, fun _ _ => ?_⟩
    unfold Answers Check.run withRegistry
    dsimp only
    rw [hbreak]

theorem checkContinue_repeats (hstate : state.Suited site names) (line : Nat) :
    (checkContinue line).Clean state fun out after =>
      Repeats site names last (checkContinue line) condition state out after := by
  unfold checkContinue
  refine clean_read_bind (clean_reportAll fun herrors => ?_)
  exact (Repeats.read Scope.inLoop hstate).bind (.reportAll hstate herrors)

end

/-! ## Expressions in statements -/

theorem clean_scopeStep {α : Type} {step : ExprEnv → Check Scope α} {Q : α → BodyState → Prop}
    (h : (step ⟨site, state.registry⟩).Clean state.scope fun a scope => Q a { state with scope }) :
    (onScope site step).Clean state Q := h

theorem onScope_repeats {α : Type} {last : Registry} {again : ExprEnv → Check Scope α}
    {condition : Prop}
    (hstate : state.Suited site names) {out : α} {after : Scope}
    (hafter : after.Inside state.registry names)
    (h : state.registry.PartOf last → condition →
      (again ⟨site, last⟩).Answers state.scope out after) :
    Repeats site names last (onScope site again) condition state out { state with scope := after } := by
  refine ⟨.refl _, hstate.change hafter, fun hpart hcondition => ?_⟩
  have hrun : (again ⟨site, last⟩).run state.scope = _ := h hpart hcondition
  unfold Answers onScope
  show Checked.mk _ _ _ = _
  dsimp only [withRegistry]
  rw [hrun]

variable {last : Registry} (hlast : last.Nested)

include hlast

namespace Expr

theorem checkCondition_repeats (hstate : state.Suited site names) {e : Expr}
    (he : e.HidesIn names hidden) : (e.checkCondition site).Clean state fun out after =>
      Repeats site names last (out.checkCondition site) (out.Lasting ⟨site, last⟩ hidden) state out
        after := by
  refine clean_scopeStep (clean_bind
    (check_again hstate.founded hstate.site hlast e he hstate.scope) fun out after hout => ?_)
  obtain ⟨hinside, hty, hagain⟩ := hout
  refine clean_note fun herrors => onScope_repeats hstate hinside fun hpart hlasting => ?_
  refine answers_bind (hagain hpart hlasting) (answers_note ?_)
  rw [expectBoolean_agree (hpart.agree hstate.founded hlast) (hpart.share hty)]
  exact herrors

theorem checkStatement_repeats (hstate : state.Suited site names) {e : Expr}
    (he : e.HidesIn names hidden) : (e.checkStatement site).Clean state fun out after =>
      Repeats site names last (out.checkStatement site) (out.Lasting ⟨site, last⟩ hidden) state out
        after := by
  refine clean_scopeStep (clean_bind (clean_reportAll
    (S := fun _ scope => scope = state.scope ∧ e.isStatementForm = true) fun h => ⟨rfl, ?_⟩) ?_)
  · by_contra hform
    rw [if_neg hform] at h
    cases h
  rintro _ _ ⟨rfl, hform⟩
  rw [← isStatementForm_markStatement e true] at hform
  have hmarked : (e.markStatement true).HidesIn names hidden := (hidesIn_withNode _ e).mpr he
  refine ((check_again hstate.founded hstate.site hlast _ hmarked hstate.scope).and_value
    (P := fun out => out.isStatementForm = true
      ∧ out.isStatement = (e.markStatement true).isStatement)
    ⟨isStatementForm_check _ hform _, isStatement_check _ hform _⟩).mono ?_
  rintro out after ⟨⟨hinside, -, hagain⟩, hform', hmark⟩
  have hsame : out.markStatement true = out := markStatement_of_isStatement (hmark.trans (by
    show (node (withNode _ _)).isStatement = true
    rw [node_withNode]))
  refine onScope_repeats hstate hinside fun hpart hlasting => ?_
  rw [if_pos hform', hsame]
  exact answers_bind (answers_reportAll rfl) (hagain hpart hlasting)

theorem checkStatements_repeats (hstate : state.Suited site names) {es : List Expr}
    (hes : ∀ e ∈ es, e.HidesIn names hidden) :
    (checkStatements site es).Clean state fun out after =>
      Repeats site names last (checkStatements site out)
        (∀ e ∈ out, e.Lasting ⟨site, last⟩ hidden) state out after := by
  induction es generalizing state with
  | nil => exact clean_pure (.pure hstate)
  | cons first rest ih =>
    refine clean_bind (checkStatement_repeats hlast hstate (hes first List.mem_cons_self))
      fun one middle hone => clean_bind (ih hone.suited fun e he => hes e (List.mem_cons_of_mem _ he))
      fun others after hothers => clean_pure ?_
    exact (hone.imp fun h => h one List.mem_cons_self).bind
      ((hothers.imp fun h e he => h e (List.mem_cons_of_mem _ he)).bind (.pure hothers.suited))

end Expr

/-- The condition on the expressions of a statement, under which its analysis is repeated. -/
abbrev LastingIn (site : Site) (last : Registry) (hidden : List String) (es : List Expr) : Prop :=
  ∀ e ∈ es, e.Lasting ⟨site, last⟩ hidden

theorem ForInit.check_repeats (hstate : state.Suited site names) {init : ForInit}
    (hdecls : ∀ decl ∈ init.decls, decl.Bare names) (hroots : ∀ e ∈ init.roots, e.HidesIn names hidden) :
    (init.check site).Clean state fun out after => Repeats site names last (out.check site)
      (LastingIn site last hidden out.roots) state out after := by
  cases init with
  | exprs es =>
    exact clean_map ((Expr.checkStatements_repeats hlast hstate hroots).mono fun out after hout =>
      hout.map ForInit.exprs)
  | decl d =>
    exact clean_map ((LocalDecl.check_repeats last True hstate (hdecls d List.mem_cons_self)).mono
      fun out after hout => (hout.imp fun _ => trivial).map ForInit.decl)

/-! ## Statements -/

theorem checkReturn_repeats (hstate : state.Suited site names) {value : Option Expr}
    (hvalue : ∀ e, value = some e → e.HidesIn names hidden) (line : Nat) :
    (checkReturn site value line).Clean state fun out after =>
      Repeats site names last (checkReturn site out line) (LastingIn site last hidden out.toList)
        state out after := by
  rw [checkReturn_eq]
  refine clean_bind (Q := fun out after => Repeats site names last (onScope site fun env => do
      let value ← Check.optional (Expr.check env) out
      let returnTy ← Check.read Scope.returnTy
      Check.note value (returnErrors env.registry returnTy value line))
    (LastingIn site last hidden out.toList) state out after) (clean_scopeStep ?_) ?_
  · refine clean_bind (Q := fun out after => after.Inside state.registry names
      ∧ (∀ e, out = some e → state.registry.contains e.tyOrAny = true)
      ∧ (state.registry.PartOf last → LastingIn site last hidden out.toList →
        (Check.optional (Expr.check ⟨site, last⟩) out).Answers state.scope out after)) ?_ ?_
    · refine clean_optional (fun _ => ?_) fun e hsome => ?_
      · exact ⟨hstate.scope, fun e he => (by cases he), fun _ _ => answers_pure⟩
      · refine (Expr.check_again hstate.founded hstate.site hlast e (hvalue e hsome)
          hstate.scope).mono fun out after hout => ?_
        obtain ⟨hinside, hty, hagain⟩ := hout
        refine ⟨hinside, fun e he => ?_, fun hpart hlasting => answers_map some
          (hagain hpart (hlasting out List.mem_cons_self))⟩
        cases he
        exact hty
    · rintro out after ⟨hinside, hty, hagain⟩
      refine clean_read_bind (clean_note fun herrors => ?_)
      refine onScope_repeats hstate hinside fun hpart hlasting => ?_
      refine answers_bind (hagain hpart hlasting) (answers_read_bind (answers_note ?_))
      rw [returnErrors_agree (hpart.agree hstate.founded hlast) (hpart.share hinside.among.returnTy)
        fun e he => hpart.share (hty e he)]
      exact herrors
  · intro out after hout
    have hend := hout.suited.setReturned true
    refine clean_changeScope (clean_pure ?_)
    rw [checkReturn_eq]
    exact hout.bind ((Repeats.change hend).bind (.pure hend))

omit hlast in
theorem optional_repeats {α : Type} {step again : α → Check BodyState α} {P : α → Prop}
    {part : Option α} (hstate : state.Suited site names)
    (h : ∀ a, part = some a → (step a).Clean state fun out after =>
      Repeats site names last (again out) (P out) state out after) :
    (optional step part).Clean state fun out after => Repeats site names last (optional again out)
      (∀ a, out = some a → P a) state out after :=
  clean_optional (fun _ => .pure hstate) fun a ha => (h a ha).mono fun out _ hout =>
    (hout.imp fun hall => hall out rfl).map some

namespace Stmt

/-- A statement whose locals have known names and no initializers, and from which the analysis
takes nothing but names that it keeps in mind. -/
structure Repeatable (names hidden : List String) (s : Stmt) : Prop where
  hides : s.Everywhere fun d => ∀ text, d.hiding? names = some text → text ∈ hidden
  bare : ∀ decl ∈ s.decls, decl.Bare names

omit hlast in
theorem Repeatable.child {s t : Stmt} (h : s.Repeatable names hidden) (ht : t ∈ s.children) :
    t.Repeatable names hidden := ⟨h.hides.child ht, fun decl hdecl => h.bare decl (decls_subset ht hdecl)⟩

abbrev Lasting (site : Site) (last : Registry) (hidden : List String) : Stmt → Prop :=
  Everywhere fun d => d.lasts ⟨site, last⟩ hidden = true

/-- In every state, what comes out of the statement is analyzed as the statement was. -/
def Recurs (site : Site) (names hidden : List String) (last : Registry) (s : Stmt) : Prop :=
  ∀ state : BodyState, state.Suited site names →
    (s.check site).Clean state fun out after => Repeats site names last (out.check site)
      (out.Lasting site last hidden) state out after

omit hlast in
theorem checkList_repeats {stmts : List Stmt} (hstate : state.Suited site names)
    (h : ∀ s ∈ stmts, s.Recurs site names hidden last) :
    (checkList site stmts).Clean state fun out after => Repeats site names last
      (checkList site out) (∀ s ∈ out, s.Lasting site last hidden) state out after := by
  induction stmts generalizing state with
  | nil => exact clean_pure (.pure hstate)
  | cons first rest ih =>
    refine clean_bind (h first List.mem_cons_self state hstate) fun one middle hone =>
      clean_bind (ih hone.suited fun s hs => h s (List.mem_cons_of_mem _ hs)) fun others after hothers =>
      clean_pure ?_
    exact (hone.imp fun hall => hall one List.mem_cons_self).bind
      ((hothers.imp fun hall s hs => hall s (List.mem_cons_of_mem _ hs)).bind (.pure hothers.suited))

theorem Recurs.branch {condition : Expr} {onTrue : Stmt} {onFalse : Option Stmt} {line : Nat}
    (hcondition : condition.HidesIn names hidden) (hintrue : onTrue.Recurs site names hidden last)
    (hinfalse : ∀ s, onFalse = some s → s.Recurs site names hidden last) :
    (Stmt.branch condition onTrue onFalse line).Recurs site names hidden last := by
  intro state hstate
  rw [check_branch]
  refine clean_bind (Expr.checkCondition_repeats hlast hstate hcondition) fun c one hc =>
    clean_read_bind (clean_bind (hintrue one hc.suited) fun onTrue two htrue =>
      clean_read_bind (clean_changeScope ?_))
  have hreset := htrue.suited.setReturned one.scope.hasReturned
  refine clean_bind (optional_repeats hreset fun s hsome => hinfalse s hsome _ hreset)
    fun onFalse three hfalse => clean_read_bind (clean_changeScope (clean_pure ?_))
  have hend := hfalse.suited.setReturned
    (one.scope.hasReturned || (two.scope.hasReturned && onFalse.isSome && three.scope.hasReturned))
  rw [check_branch]
  exact (hc.imp fun h => h.root List.mem_cons_self).bind ((Repeats.read _ hc.suited).bind
    ((htrue.imp fun h => h.child List.mem_cons_self).bind ((Repeats.read _ htrue.suited).bind
    ((Repeats.change hreset).bind ((hfalse.imp fun h s hs => h.child (by simp [children, hs])).bind
    ((Repeats.read _ hfalse.suited).bind ((Repeats.change hend).bind (.pure hend))))))))

theorem Recurs.whileLoop {condition : Expr} {body : Stmt} {line : Nat}
    (hcondition : condition.HidesIn names hidden) (hinbody : body.Recurs site names hidden last) :
    (Stmt.whileLoop condition body line).Recurs site names hidden last := by
  intro state hstate
  rw [check_whileLoop]
  refine clean_bind (Expr.checkCondition_repeats hlast hstate hcondition) fun c one hc =>
    clean_read_bind (clean_changeScope ?_)
  have hentered := hc.suited.enterLoop
  refine clean_bind (hinbody _ hentered) fun body two hbody => clean_exitLoop ?_
  have hleft := hbody.suited.exitLoop
  have hend := hleft.setReturned
    (one.scope.hasReturned || (Expr.alwaysTrue (some c) && !two.scope.exitLoop.1))
  refine clean_changeScope (clean_pure ?_)
  have hbody := hbody.imp fun h : (Stmt.whileLoop c body line).Lasting site last hidden =>
    h.child List.mem_cons_self
  rw [check_whileLoop]
  exact (hc.imp fun h => h.root List.mem_cons_self).bind ((Repeats.read _ hc.suited).bind
    ((Repeats.change hentered).bind (hbody.bind ((Repeats.exitLoop hleft).bind
      ((Repeats.change hend).bind (.pure hend))))))

theorem Recurs.forLoop {init : Option ForInit} {condition : Option Expr} {update : List Expr}
    {body : Stmt} {line : Nat}
    (hs : (Stmt.forLoop init condition update body line).Repeatable names hidden)
    (hinbody : body.Recurs site names hidden last) :
    (Stmt.forLoop init condition update body line).Recurs site names hidden last := by
  intro state hstate
  have hpushed := hstate.pushFrame
  have hcondition : ∀ e, condition = some e → e.HidesIn names hidden := by
    rintro e rfl
    exact hs.hides.root (by simp [roots])
  have hbare : ∀ i, init = some i → ∀ decl ∈ i.decls, decl.Bare names := by
    rintro i rfl decl hdecl
    exact hs.bare decl (List.mem_append_left _
      (List.mem_flatMap.mpr ⟨i, List.mem_singleton_self i, hdecl⟩))
  have hhides : ∀ i, init = some i → ∀ e ∈ i.roots, e.HidesIn names hidden := by
    rintro i rfl e he
    exact hs.hides.root (List.mem_append_left _ (List.mem_append_left _
      (List.mem_flatMap.mpr ⟨i, List.mem_singleton_self i, he⟩)))
  rw [check_forLoop]
  refine clean_changeScope (clean_bind (optional_repeats hpushed fun i hsome =>
    ForInit.check_repeats hlast hpushed (hbare i hsome) (hhides i hsome)) fun init one hinit => ?_)
  refine clean_bind (optional_repeats hinit.suited fun e hsome =>
    Expr.checkCondition_repeats hlast hinit.suited (hcondition e hsome)) fun c two hc => ?_
  have hentered := hc.suited.enterLoop
  refine clean_read_bind (clean_changeScope (clean_bind (hinbody _ hentered) fun body three hbody =>
    clean_exitLoop ?_))
  have hleft := hbody.suited.exitLoop
  refine clean_bind (Expr.checkStatements_repeats hlast hleft fun e he =>
    hs.hides.root (List.mem_append_right _ he)) fun update four hupdate => ?_
  have hpopped := hupdate.suited.popFrame
  have hend := hpopped.setReturned
    (two.scope.hasReturned || (Expr.alwaysTrue c && !three.scope.exitLoop.1))
  refine clean_changeScope (clean_changeScope (clean_pure ?_))
  -- The parts of the loop last if the loop that comes out does.
  have hroot {e : Expr} (he : e ∈ (Stmt.forLoop init c update body line).roots)
      (h : (Stmt.forLoop init c update body line).Lasting site last hidden) :
      e.Lasting ⟨site, last⟩ hidden := h.root he
  have hbody := hbody.imp fun h : (Stmt.forLoop init c update body line).Lasting site last hidden =>
    h.child List.mem_cons_self
  have hupdate := hupdate.imp fun h e he => hroot (List.mem_append_right _ he) h
  have hc := hc.imp fun h e he => hroot (List.mem_append_left _
    (List.mem_append_right _ (Option.mem_toList.mpr he))) h
  have hinit := hinit.imp fun h i hi e he => hroot (List.mem_append_left _
    (List.mem_append_left _ (List.mem_flatMap.mpr ⟨i, Option.mem_toList.mpr hi, he⟩))) h
  rw [check_forLoop]
  exact (Repeats.change hpushed).bind (hinit.bind (hc.bind ((Repeats.read _ hc.suited).bind
    ((Repeats.change hentered).bind (hbody.bind ((Repeats.exitLoop hleft).bind (hupdate.bind
    ((Repeats.change hpopped).bind ((Repeats.change hend).bind (.pure hend))))))))))

/-- An analyzed statement is analyzed as before. -/
theorem check_repeats (s : Stmt) (hs : s.Repeatable names hidden) (hstate : state.Suited site names) :
    (s.check site).Clean state fun out after => Repeats site names last (out.check site)
      (out.Lasting site last hidden) state out after := by
  induction s using Stmt.induction generalizing state with
  | block stmts line ih =>
    have hpushed := hstate.pushFrame
    unfold check
    refine clean_changeScope (clean_bind (checkList_repeats hpushed fun s hmem _ hstate =>
      ih s hmem (hs.child hmem) hstate) fun out middle hout => clean_changeScope (clean_pure ?_))
    have hpopped := hout.suited.popFrame
    unfold check
    exact (Repeats.change hpushed).bind ((hout.imp fun hlasting s hs => hlasting.child hs).bind
      ((Repeats.change hpopped).bind (.pure hpopped)))
  | declare decl =>
    exact clean_map ((LocalDecl.check_repeats last True hstate (hs.bare decl List.mem_cons_self)).mono
      fun out after hout => (hout.imp fun _ => trivial).map declare)
  | expr e line =>
    unfold check
    refine clean_bind (Expr.checkStatement_repeats hlast hstate (hs.hides.root List.mem_cons_self))
      fun out after hout => clean_pure ?_
    unfold check
    exact (hout.imp fun hlasting => hlasting.root List.mem_cons_self).bind (.pure hout.suited)
  | branch condition onTrue onFalse line ihTrue ihFalse =>
    have hfalse : ∀ s, onFalse = some s → s.Repeatable names hidden := by
      rintro s rfl
      exact hs.child (by simp [children])
    exact Recurs.branch hlast (hs.hides.root List.mem_cons_self)
      (fun _ hstate => ihTrue (hs.child List.mem_cons_self) hstate)
      (fun s hsome _ hstate => ihFalse s hsome (hfalse s hsome) hstate) state hstate
  | whileLoop condition body line ih =>
    exact Recurs.whileLoop hlast (hs.hides.root List.mem_cons_self)
      (fun _ hstate => ih (hs.child List.mem_cons_self) hstate) state hstate
  | forLoop init condition update body line ih =>
    exact Recurs.forLoop hlast hs (fun _ hstate => ih (hs.child List.mem_cons_self) hstate) state
      hstate
  | ret value line =>
    unfold check
    refine clean_bind (checkReturn_repeats hlast hstate (fun e he =>
      hs.hides.root (Option.mem_toList.mpr he)) line) fun out after hout => clean_pure ?_
    unfold check
    exact (hout.imp fun hlasting e he => hlasting.root he).bind (.pure hout.suited)
  | breakOut line =>
    unfold check
    refine clean_bind (checkBreak_repeats last True hstate line) fun _ after hout => clean_pure ?_
    unfold check
    exact (hout.imp fun _ => trivial).bind (.pure hout.suited)
  | continueOn line =>
    unfold check
    refine clean_bind (checkContinue_repeats last True hstate line) fun _ after hout => clean_pure ?_
    unfold check
    exact (hout.imp fun _ => trivial).bind (.pure hout.suited)
  | empty line => exact clean_pure (.pure hstate)

end Stmt

/-! ## Methods -/

theorem Block.check_repeats (hstate : state.Suited site names) {body : Block} (name : String)
    (line : Nat) (hbody : ∀ s ∈ body.stmts, s.Repeatable names hidden) :
    (body.check site name line).Clean state fun out after => Repeats site names last
      (out.check site name line) (∀ s ∈ out.stmts, s.Lasting site last hidden) state out after := by
  unfold Block.check
  refine clean_bind (Stmt.checkList_repeats hstate fun s hs state hstate =>
    s.check_repeats hlast (hbody s hs) hstate) fun stmts after hstmts => ?_
  refine clean_read_bind fun herrors => ?_
  refine hstmts.bind ((Repeats.read _ hstmts.suited).bind ⟨.refl _, hstmts.suited, fun _ _ => ?_⟩)
  exact answers_note herrors

namespace MethodDecl

/-- A method that is ready for its analysis again. -/
def restubbed (method : MethodDecl) : MethodDecl := { method with state := .stubbed }

/-- The condition on a method under which its analysis is repeated, once it lasts. -/
structure Repeatable (names hidden : List String) (method : MethodDecl) : Prop where
  params : ∀ param ∈ method.params, param.name ∈ names
  body : ∀ body, method.body = some body → ∀ s ∈ body.stmts, s.Repeatable names hidden

/-- Everything in the body lasts. -/
def Lasting (site : Site) (last : Registry) (hidden : List String) (method : MethodDecl) : Prop :=
  ∀ d ∈ method.nodes, d.lasts ⟨site, last⟩ hidden = true

omit hlast in
theorem declareParams_repeats (last : Registry) (condition : Prop) (hstate : state.Suited site names)
    {params : List (FormalParam × Ty)}
    (h : ∀ pair ∈ params, pair.1.name ∈ names ∧ state.registry.contains pair.2 = true) :
    (declareParams params).Clean state
      (Repeats site names last (declareParams params) condition state) := by
  induction params generalizing state with
  | nil => exact clean_pure (.pure hstate)
  | cons first rest ih =>
    obtain ⟨hname, hty⟩ := h first List.mem_cons_self
    refine clean_bind (declareParam_repeats last condition hstate _ hty hname) fun _ middle hone => ?_
    obtain ⟨hregistry, hone⟩ := hone
    refine (ih hone.suited fun pair hpair => ?_).mono fun _ after hrest => hone.bind hrest
    rw [hregistry]
    exact h pair (List.mem_cons_of_mem _ hpair)

theorem checkBody_repeats (hstate : state.Suited site names) {method : MethodDecl}
    {signature : MethodSignature} (hmethod : method.Repeatable names hidden)
    (hparams : ∀ ty ∈ signature.params, state.registry.contains ty = true) :
    (method.checkBody site signature).Clean state fun out after => Repeats site names last
      (out.restubbed.checkBody site signature) (out.Lasting site last hidden)
      state out after := by
  rw [checkBody_eq]
  have hpairs : ∀ pair ∈ method.params.zip signature.params,
      pair.1.name ∈ names ∧ state.registry.contains pair.2 = true := by
    intro pair hpair
    obtain ⟨hparam, hty⟩ := List.of_mem_zip hpair
    exact ⟨hmethod.params _ hparam, hparams _ hty⟩
  refine clean_bind (declareParams_repeats last True hstate hpairs) fun _ one hone => ?_
  refine clean_bind (Q := fun out after => Repeats site names last
    (Check.optional (Block.check site method.name method.line) out)
    (∀ body, out = some body → ∀ s ∈ body.stmts, s.Lasting site last hidden) one out after)
    (clean_optional (fun _ => .pure hone.suited) fun body hsome => ?_) fun body two hbody =>
    clean_read_bind (clean_pure ?_)
  · exact (Block.check_repeats hlast hone.suited _ _ (hmethod.body body hsome)).mono
      fun out after hout => (hout.imp fun h => h out rfl).map some
  rw [checkBody_eq]
  refine (hone.imp fun _ => trivial).bind ((hbody.imp fun h body hsome s hs d hd => ?_).bind
    (.bind (Repeats.read (fun scope => FrameInfo.mk scope.frameSize scope.hasReturned) hbody.suited)
      (.pure hbody.suited)))
  exact h d (List.mem_flatMap.mpr ⟨body, Option.mem_toList.mpr hsome,
    Stmt.mem_nodesList.mpr ⟨s, hs, hd⟩⟩)

/-- A method that was analyzed and is stubbed again, is analyzed as before. -/
theorem check_repeats {registry : Registry} (hfounded : registry.Founded)
    (hsite : site.Among fun ty => registry.contains ty = true) {method : MethodDecl}
    (hmethod : method.Repeatable names hidden) (hsigned : method.SignedIn registry) :
    (method.check site).Clean registry fun out after => registry.PartOf after ∧ after.Founded
      ∧ (after.PartOf last → out.Lasting site last hidden →
        (out.restubbed.check site).Answers last out last) := by
  obtain ⟨signature, hsignature, hknown⟩ := hsigned
  intro herrors
  rw [run_check site hsignature] at herrors ⊢
  have hstart : BodyState.Suited site names ⟨registry,
      Scope.start signature.returnTy signature.exceptions method.mods.isStatic⟩ :=
    ⟨hfounded, hsite, Scope.inside_start (hknown _ signature.returnTy_mem) _ _⟩
  have hrepeats := checkBody_repeats hlast hstart hmethod
    (fun ty hty => hknown ty (signature.params_subset hty)) herrors
  refine ⟨hrepeats.part, hrepeats.suited.founded, fun hpart hlasting => ?_⟩
  have hrun := hrepeats.answers hpart hlasting
  obtain ⟨body, frame, state, hout, -⟩ := method.check_sameStub site registry
  rw [run_check site hsignature] at hout
  dsimp only at hout hrun ⊢
  generalize ((method.checkBody site signature).run _).value = out at hout hrun
  have hagain : out.restubbed.signature = some signature := by
    rw [hout]
    exact hsignature
  have hmods : out.restubbed.mods = method.mods := by rw [hout]; rfl
  unfold Answers at hrun ⊢
  rw [run_check site hagain, hmods]
  dsimp only [withRegistry] at hrun ⊢
  rw [hrun]

end MethodDecl

end

end ClassCompiler
