import ClassCompiler.Proofs.Body.Method

/-!
# Marks of statements

The parser marks no expression. Analysis marks the expressions that stand as statements and the
assignments that give locals their first value, and nothing inside of any expression.

* `Expr.Unmarked`, `Expr.Marked`
* `Expr.check_marked`: analysis keeps the marks of an expression
* `Stmt.check_marked`: the marks of an analyzed statement are where its code wants them
-/

namespace ClassCompiler

open Check BodyState

/-! ## Expressions -/

namespace Expr

/-- No expression in it is marked. -/
def Unmarked (e : Expr) : Prop := ∀ d ∈ e.nodes, d.isStatement = false

/-- It has the mark, and no expression inside it has one. -/
structure Marked (isStatement : Bool) (e : Expr) : Prop where
  node : e.isStatement = isStatement
  below : ∀ c ∈ e.children, c.Unmarked

theorem marked_false {e : Expr} : e.Marked false ↔ e.Unmarked := by
  constructor
  · intro h d hd
    rcases mem_nodes.mp hd with rfl | ⟨c, hc, hd⟩
    · exact h.node
    · exact h.below c hc d hd
  · intro h
    exact ⟨h e (mem_nodes_self e), fun c hc d hd => h d (mem_nodes.mpr (.inr ⟨c, hc, hd⟩))⟩

theorem Marked.unmarked {e : Expr} (h : e.Marked false) : e.Unmarked := marked_false.mp h

theorem Unmarked.marked {e : Expr} (h : e.Unmarked) : e.Marked false := marked_false.mpr h

theorem Marked.child {isStatement : Bool} {e c : Expr} (h : e.Marked isStatement)
    (hc : c ∈ e.children) : c.Marked false := (h.below c hc).marked

/-- What stands inside an expression is not marked, whether the expression is or not. -/
theorem Marked.nodes {isStatement : Bool} {e d : Expr} (h : e.Marked isStatement)
    (hd : d ∈ e.nodes) : d = e ∨ d.Unmarked := by
  rcases mem_nodes.mp hd with rfl | ⟨c, hc, hd⟩
  · exact .inl rfl
  · exact .inr fun x hx => h.below c hc x (nodes_subset hd hx)

/-- The mark of an expression can be set without a look at what stands inside. -/
theorem Marked.markStatement {given : Bool} {e : Expr} (h : e.Marked given) (isStatement : Bool) :
    (e.markStatement isStatement).Marked isStatement := by
  unfold Expr.markStatement
  refine ⟨?_, fun c hc => h.below c ?_⟩
  · unfold Expr.isStatement
    rw [node_withNode]
  · rwa [children_withNode] at hc

section

variable {isStatement : Bool} {e a b : Expr}

theorem Marked.leaf (hnode : e.isStatement = isStatement) (hchildren : e.children = []) :
    e.Marked isStatement := by
  refine ⟨hnode, fun c hc => ?_⟩
  rw [hchildren] at hc
  exact (List.not_mem_nil hc).elim

theorem Marked.one (hnode : e.isStatement = isStatement) (hchildren : e.children = [a])
    (ha : a.Marked false) : e.Marked isStatement := by
  refine ⟨hnode, fun c hc => ?_⟩
  rw [hchildren] at hc
  rw [List.mem_singleton.mp hc]
  exact ha.unmarked

theorem Marked.two (hnode : e.isStatement = isStatement) (hchildren : e.children = [a, b])
    (ha : a.Marked false) (hb : b.Marked false) : e.Marked isStatement := by
  refine ⟨hnode, fun c hc => ?_⟩
  rw [hchildren] at hc
  rcases List.mem_pair.mp hc with rfl | rfl
  · exact ha.unmarked
  · exact hb.unmarked

end

end Expr

/-! ## Names and members -/

namespace ExprEnv

variable (env : ExprEnv) (node : Node) (name : String)

theorem marked_name {node' : Node} {text : String} {binding : Option Binding}
    (h : node'.isStatement = node.isStatement) :
    (Expr.name node' text binding).Marked node.isStatement := .leaf h rfl

theorem marked_bindName (scope : Scope) :
    (env.bindName scope node name).1.Marked node.isStatement := by
  unfold bindName
  split
  · exact marked_name node rfl
  · split <;> exact marked_name node rfl

theorem marked_staticField (owner : Ty) :
    (env.staticField owner node name).1.Marked node.isStatement := by
  unfold staticField
  split <;> exact marked_name node rfl

theorem marked_selectField {target : Expr} (h : target.Marked false) :
    (env.selectField node target name).1.Marked node.isStatement := by
  unfold selectField
  dsimp only
  split
  · exact .one rfl rfl h
  · split
    · exact .one rfl rfl h
    · split
      · split
        · exact marked_name node rfl
        · exact .one rfl rfl h
      · exact .one rfl rfl h

theorem marked_selectMethod (receiver : Receiver) {target : Option Expr} {args : List Expr}
    (htarget : ∀ e, target = some e → e.Marked false) (hargs : ∀ a ∈ args, a.Marked false) :
    (env.selectMethod receiver node target name args).1.Marked node.isStatement := by
  have hcall : ∀ (ty : Option Ty) method,
      (Expr.call { node with ty } target name args method).Marked node.isStatement := by
    intro ty method
    refine ⟨rfl, fun c hc => ?_⟩
    rcases List.mem_append.mp hc with hc | hc
    · exact (htarget c (Option.mem_toList.mp hc)).unmarked
    · exact (hargs c hc).unmarked
  unfold selectMethod
  split
  · exact hcall _ _
  · dsimp only
    split <;> exact hcall _ _

end ExprEnv

/-! ## Analysis of expressions -/

namespace Expr

variable {env : ExprEnv} {isStatement : Bool}

theorem checkTarget_marked {e : Expr} (hcheck : (e.check env).Gives (Marked e.isStatement))
    (h : e.Marked false) : (checkTarget env e).Gives (Marked false) := by
  unfold checkTarget
  split
  · exact gives_read_bind fun scope =>
      gives_note _ (env.marked_bindName { line := e.line } _ scope)
  · rw [h.node] at hcheck
    refine gives_map (hcheck.mono fun analyzed hanalyzed => ?_)
    unfold asTarget
    split
    · exact hanalyzed.markStatement false
    · exact hanalyzed

/-- The two operands of an operator, and a node on top of them. -/
theorem checkPair_marked {e lhs rhs : Expr} {join : Expr → Expr → Check Scope Expr}
    (hlhs : ∀ given, lhs.Marked given → (lhs.check env).Gives (Marked given))
    (hrhs : ∀ given, rhs.Marked given → (rhs.check env).Gives (Marked given))
    (h : e.Marked isStatement) (hchildren : e.children = [lhs, rhs])
    (hjoin : ∀ l r : Expr, l.Marked false → r.Marked false →
      (join l r).Gives (Marked isStatement)) :
    (do
      let lhs ← lhs.check env
      let rhs ← rhs.check env
      join lhs rhs : Check Scope Expr).Gives (Marked isStatement) := by
  have hl : lhs.Marked false := h.child (by rw [hchildren]; exact List.mem_cons_self)
  have hr : rhs.Marked false :=
    h.child (by rw [hchildren]; exact List.mem_cons_of_mem _ List.mem_cons_self)
  exact gives_bind (hlhs false hl) fun l hl => gives_bind (hrhs false hr) fun r hr =>
    hjoin l r hl hr

theorem checkList_marked {args : List Expr}
    (h : ∀ a ∈ args, (a.check env).Gives (Marked false)) :
    (checkList env args).Gives fun found => ∀ a ∈ found, a.Marked false := by
  induction args with
  | nil => exact gives_pure fun a ha => (List.not_mem_nil ha).elim
  | cons first rest ih =>
    unfold checkList
    refine gives_bind (h first List.mem_cons_self) fun a ha =>
      gives_bind (ih fun b hb => h b (List.mem_cons_of_mem _ hb)) fun found hfound =>
      gives_pure fun b hb => ?_
    rcases List.mem_cons.mp hb with rfl | hb
    · exact ha
    · exact hfound b hb

theorem checkReceiver_marked {target : Option Expr}
    (h : ∀ t, target = some t → (t.check env).Gives (Marked false)) :
    (checkReceiver env target).Gives fun receiver => ∀ e, receiver.1 = some e → e.Marked false := by
  cases target with
  | none => exact gives_read_bind fun _ => gives_pure fun e he => by cases he
  | some target =>
    refine gives_read_bind fun scope => ?_
    split
    · exact gives_pure fun e he => by cases he
    · refine gives_bind (h target rfl) fun target htarget => gives_pure fun e he => ?_
      cases he
      exact htarget

/-- Analysis keeps the mark of an expression, and marks nothing inside. -/
theorem check_marked (env : ExprEnv) (e : Expr) :
    ∀ isStatement, e.Marked isStatement → (e.check env).Gives (Marked isStatement) := by
  induction e using Expr.induction with
  | literal n value =>
    intro isStatement h
    exact gives_pure (.leaf h.node rfl)
  | name n text binding =>
    intro isStatement h
    unfold check
    refine gives_read_bind fun scope => gives_note _ ?_
    rw [← h.node]
    exact env.marked_bindName n text scope
  | self n =>
    intro isStatement h
    unfold check
    exact gives_read_bind fun _ => gives_note _ (.leaf h.node rfl)
  | field n target text ref ih =>
    intro isStatement h
    have htarget : target.Marked false := h.child List.mem_cons_self
    unfold check
    refine gives_read_bind fun scope => ?_
    rw [← h.node]
    split
    · exact gives_note _ (env.marked_staticField n text _)
    · exact gives_bind (ih false htarget) fun t ht =>
        gives_note _ (env.marked_selectField n text ht)
  | index n array position iharray ihposition =>
    intro isStatement h
    unfold check
    exact checkPair_marked iharray ihposition h rfl fun l r hl hr =>
      gives_note _ (.two h.node rfl hl hr)
  | length n array ih =>
    intro isStatement h
    unfold check
    exact gives_bind (ih false (h.child List.mem_cons_self)) fun a ha =>
      gives_note _ (.one h.node rfl ha)
  | unary n op operand ih =>
    intro isStatement h
    unfold check
    exact gives_bind (ih false (h.child List.mem_cons_self)) fun a ha =>
      gives_note _ (.one h.node rfl ha)
  | not n operand ih =>
    intro isStatement h
    unfold check
    exact gives_bind (ih false (h.child List.mem_cons_self)) fun a ha =>
      gives_note _ (.one h.node rfl ha)
  | binary n op lhs rhs ihl ihr =>
    intro isStatement h
    unfold check
    refine checkPair_marked ihl ihr h rfl fun l r hl hr => ?_
    split <;> exact gives_note _ (.two h.node rfl hl hr)
  | compare n op lhs rhs ihl ihr | equality n op lhs rhs ihl ihr | logical n op lhs rhs ihl ihr
  | concat n lhs rhs ihl ihr =>
    intro isStatement h
    unfold check
    exact checkPair_marked ihl ihr h rfl fun l r hl hr => gives_note _ (.two h.node rfl hl hr)
  | assign n op lhs rhs ihl ihr =>
    intro isStatement h
    have hlhs : lhs.Marked false := h.child List.mem_cons_self
    have hrhs : rhs.Marked false := h.child (List.mem_cons_of_mem _ List.mem_cons_self)
    have htarget := ihl false hlhs
    rw [← hlhs.node] at htarget
    rw [check_assign]
    refine gives_bind (checkTarget_marked htarget hlhs) fun l hl => ?_
    split
    · refine gives_bind (ihr false hrhs) fun r hr => gives_then fun _ => gives_note _ ?_
      refine .two h.node rfl hl ?_
      split
      · exact hr
      · exact .two rfl rfl hl hr
      · exact hr
      · split <;> exact hr
    · exact gives_then fun _ => gives_bind (ihr false hrhs) fun r hr =>
        gives_pure (.two h.node rfl hl hr)
  | increment n op operand ih =>
    intro isStatement h
    have hoperand : operand.Marked false := h.child List.mem_cons_self
    have htarget := ih false hoperand
    rw [← hoperand.node] at htarget
    rw [check_increment]
    refine gives_bind (checkTarget_marked htarget hoperand) fun a ha => ?_
    split <;> exact gives_note _ (.one h.node rfl ha)
  | call n target text args method ihtarget ihargs =>
    intro isStatement h
    rw [check_call]
    refine gives_bind (checkReceiver_marked fun t ht => ihtarget t ht false ?_) fun receiver
      hreceiver => gives_bind (checkList_marked fun a ha => ihargs a ha false ?_) fun args hargs =>
      gives_note _ ?_
    · exact h.child (List.mem_append_left _ (Option.mem_toList.mpr ht))
    · exact h.child (List.mem_append_right _ ha)
    · rw [← h.node]
      exact env.marked_selectMethod n text receiver.2 hreceiver hargs

end Expr

/-! ## Statements -/

/-- The initializers are assignments without a value. -/
def LocalDecl.Marked (decl : LocalDecl) : Prop :=
  ∀ e ∈ decl.initializers, e.isAssignment = true ∧ e.Marked true

def ForInit.Marked : ForInit → Prop
  | exprs es => ∀ e ∈ es, e.Marked true
  | decl d => d.Marked

/-- The expressions that stand as statements are marked, those whose values are used are not. -/
inductive Stmt.Marked : Stmt → Prop
  | block {stmts : List Stmt} {line : Nat} (hstmts : ∀ s ∈ stmts, Marked s) :
    Marked (.block stmts line)
  | declare {decl : LocalDecl} (hdecl : decl.Marked) : Marked (.declare decl)
  | expr {e : Expr} {line : Nat} (he : e.Marked true) : Marked (.expr e line)
  | branch {condition : Expr} {onTrue : Stmt} {onFalse : Option Stmt} {line : Nat}
    (hcondition : condition.Unmarked) (htrue : Marked onTrue)
    (hfalse : ∀ s, onFalse = some s → Marked s) : Marked (.branch condition onTrue onFalse line)
  | whileLoop {condition : Expr} {body : Stmt} {line : Nat} (hcondition : condition.Unmarked)
    (hbody : Marked body) : Marked (.whileLoop condition body line)
  | forLoop {init : Option ForInit} {condition : Option Expr} {update : List Expr} {body : Stmt}
    {line : Nat} (hinit : ∀ i, init = some i → i.Marked)
    (hcondition : ∀ e, condition = some e → e.Unmarked) (hbody : Marked body)
    (hupdate : ∀ e ∈ update, e.Marked true) : Marked (.forLoop init condition update body line)
  | ret {value : Option Expr} {line : Nat} (hvalue : ∀ e, value = some e → e.Unmarked) :
    Marked (.ret value line)
  | breakOut {line : Nat} : Marked (.break line)
  | continueOn {line : Nat} : Marked (.continue line)
  | empty {line : Nat} : Marked (.empty line)

namespace Stmt.Marked

variable {inLoop around : Bool} {s t : Stmt}

theorem children (h : s.Marked) : ∀ t ∈ s.children, t.Marked := by
  cases h with
  | block hstmts => exact hstmts
  | branch _ htrue hfalse =>
    intro t ht
    rcases List.mem_cons.mp ht with rfl | ht
    · exact htrue
    · exact hfalse t (Option.mem_toList.mp ht)
  | whileLoop _ hbody | forLoop _ _ hbody =>
    intro t ht
    rw [List.mem_singleton.mp ht]
    exact hbody
  | declare | expr | ret | breakOut | continueOn | empty =>
    exact fun t ht => (List.not_mem_nil ht).elim

theorem inside (h : s.Marked) (hinside : s.Inside inLoop around t) : t.Marked := by
  induction hinside with
  | self => exact h
  | child _ hchild ih => exact ih.children _ hchild

/-- An expression that stands directly in a statement may have a mark, but nothing inside it has
one. The initializers of an accepted declaration have been moved. -/
theorem roots {ctx : BodyCtx} (h : s.Marked) (haccepted : s.Accepted ctx inLoop) :
    ∀ e ∈ s.roots, ∃ isStatement, e.Marked isStatement := by
  have hdecl : ∀ {decl : LocalDecl}, decl.Marked → decl.Accepted ctx →
      ∀ e ∈ decl.roots, ∃ isStatement, e.Marked isStatement := by
    intro decl hmark hdecl e he
    rcases List.mem_append.mp he with he | he
    · obtain ⟨declarator, hdeclarator, he⟩ := List.mem_flatMap.mp he
      rw [hdecl.moved declarator hdeclarator] at he
      exact (List.not_mem_nil he).elim
    · exact ⟨true, (hmark e he).2⟩
  cases h with
  | declare hmark =>
    cases haccepted with
    | declare haccepted => exact hdecl hmark haccepted
  | expr hmark =>
    intro e he
    rw [List.mem_singleton.mp he]
    exact ⟨true, hmark⟩
  | branch hcondition | whileLoop hcondition =>
    intro e he
    rw [List.mem_singleton.mp he]
    exact ⟨false, hcondition.marked⟩
  | forLoop hinit hcondition _ hupdate =>
    intro e he
    cases haccepted with
    | forLoop hacceptedInit =>
      rcases List.mem_append.mp he with he | he
      · rcases List.mem_append.mp he with he | he
        · obtain ⟨i, hi, he⟩ := List.mem_flatMap.mp he
          have hi' := Option.mem_toList.mp hi
          cases i with
          | exprs es => exact ⟨true, hinit _ hi' e he⟩
          | decl d => exact hdecl (hinit _ hi') (hacceptedInit _ hi') e he
        · exact ⟨false, (hcondition e (Option.mem_toList.mp he)).marked⟩
      · exact ⟨true, hupdate e he⟩
  | ret hvalue =>
    intro e he
    exact ⟨false, (hvalue e (Option.mem_toList.mp he)).marked⟩
  | block | breakOut | continueOn | empty => exact fun e he => (List.not_mem_nil he).elim

end Stmt.Marked

variable (site : Site)

theorem gives_onScope {α : Type} {step : ExprEnv → Check Scope α} {P : α → Prop}
    (h : ∀ env, (step env).Gives P) : (onScope site step).Gives P := fun state => h _ state.scope

namespace Expr

theorem unmarked_nodesList {es : List Expr} (h : ∀ d ∈ nodesList es, d.isStatement = false) :
    ∀ e ∈ es, e.Unmarked := fun e he d hd => h d (mem_nodesList.mpr ⟨e, he, hd⟩)

theorem checkCondition_marked {condition : Expr} (h : condition.Unmarked) :
    (condition.checkCondition site).Gives Unmarked :=
  gives_onScope site fun env => gives_bind (check_marked env condition false h.marked)
    fun _ hout => gives_note _ hout.unmarked

theorem checkStatement_marked {e : Expr} (h : e.Unmarked) :
    (e.checkStatement site).Gives (Marked true) :=
  gives_onScope site fun env => gives_then fun _ =>
    check_marked env _ true (h.marked.markStatement true)

theorem checkStatements_marked {es : List Expr} (h : ∀ e ∈ es, e.Unmarked) :
    (checkStatements site es).Gives fun out => ∀ e ∈ out, e.Marked true := by
  induction es with
  | nil => exact gives_pure fun e he => (List.not_mem_nil he).elim
  | cons first rest ih =>
    unfold checkStatements
    refine gives_bind (checkStatement_marked site (h first List.mem_cons_self)) fun a ha =>
      gives_bind (ih fun e he => h e (List.mem_cons_of_mem _ he)) fun out hout =>
      gives_pure fun e he => ?_
    rcases List.mem_cons.mp he with rfl | he
    · exact ha
    · exact hout e he

end Expr

/-- An assignment stays one. -/
theorem Expr.check_isAssignment (env : ExprEnv) {e : Expr} (h : e.isAssignment = true) :
    (e.check env).Gives fun out => out.isAssignment = true := by
  cases e with
  | assign n op lhs rhs =>
    rw [check_assign]
    refine gives_then fun l => ?_
    split
    · exact gives_then fun r => gives_then fun _ => gives_note _ rfl
    · exact gives_then fun _ => gives_then fun r => gives_pure rfl
  | _ => cases h

theorem Declarator.check_marked (ty : Ty) {declarator : Declarator}
    (h : ∀ e, declarator.init = some e → e.Unmarked) :
    (declarator.check site ty).Gives fun out =>
      ∀ e ∈ out.2, e.isAssignment = true ∧ e.Marked true := by
  unfold check
  refine gives_then fun slot => ?_
  cases hinit : declarator.init with
  | none => exact gives_pure fun e he => (List.not_mem_nil he).elim
  | some init =>
    have hassign : (declarator.assignment init).Marked true :=
      .two rfl rfl (.leaf rfl rfl) (h init hinit).marked
    refine gives_bind (gives_onScope site fun env =>
      (Expr.check_isAssignment env rfl).and (Expr.check_marked env _ true hassign))
      fun out hout => gives_pure fun e he => ?_
    rw [List.mem_singleton.mp he]
    exact hout

theorem Declarator.checkList_marked (ty : Ty) {declarators : List Declarator}
    (h : ∀ declarator ∈ declarators, ∀ e, declarator.init = some e → e.Unmarked) :
    (checkList site ty declarators).Gives fun out =>
      ∀ e ∈ out.2, e.isAssignment = true ∧ e.Marked true := by
  induction declarators with
  | nil => exact gives_pure fun e he => (List.not_mem_nil he).elim
  | cons first rest ih =>
    unfold checkList
    refine gives_bind (first.check_marked site ty (h first List.mem_cons_self)) fun one hone =>
      gives_bind (ih fun d hd => h d (List.mem_cons_of_mem _ hd)) fun others hothers =>
      gives_pure fun e he => ?_
    rcases List.mem_append.mp he with he | he
    · exact hone e he
    · exact hothers e he

theorem LocalDecl.check_marked {decl : LocalDecl} (h : ∀ d ∈ decl.nodes, d.isStatement = false) :
    (decl.check site).Gives LocalDecl.Marked := by
  have hdeclarators : ∀ declarator ∈ decl.declarators, ∀ e, declarator.init = some e →
      e.Unmarked := by
    intro declarator hdeclarator e he d hd
    refine h d (List.mem_append_left _ (List.mem_flatMap.mpr ⟨declarator, hdeclarator, ?_⟩))
    exact Expr.mem_nodesList.mpr ⟨e, Option.mem_toList.mpr he, hd⟩
  unfold check
  exact gives_then fun ty => gives_bind (Declarator.checkList_marked site ty hdeclarators)
    fun out hout => gives_pure hout

theorem ForInit.check_marked {init : ForInit} (h : ∀ d ∈ init.nodes, d.isStatement = false) :
    (init.check site).Gives ForInit.Marked := by
  cases init with
  | exprs es => exact gives_map (Expr.checkStatements_marked site (Expr.unmarked_nodesList h))
  | decl d => exact gives_map (LocalDecl.check_marked site h)

namespace Stmt

theorem checkList_marked {stmts : List Stmt} (h : ∀ s ∈ stmts, (s.check site).Gives Marked) :
    (checkList site stmts).Gives fun out => ∀ s ∈ out, s.Marked := by
  induction stmts with
  | nil => exact gives_pure fun s hs => (List.not_mem_nil hs).elim
  | cons first rest ih =>
    unfold checkList
    refine gives_bind (h first List.mem_cons_self) fun one hone =>
      gives_bind (ih fun s hs => h s (List.mem_cons_of_mem _ hs)) fun others hothers =>
      gives_pure fun s hs => ?_
    rcases List.mem_cons.mp hs with rfl | hs
    · exact hone
    · exact hothers s hs

/-- The marks of an analyzed statement are where its code wants them. -/
theorem check_marked (s : Stmt) (h : ∀ d ∈ s.nodes, d.isStatement = false) :
    (s.check site).Gives Marked := by
  induction s using Stmt.induction with
  | block stmts line ih =>
    have hstmts : ∀ s ∈ stmts, (s.check site).Gives Marked := fun s hs =>
      ih s hs fun d hd => h d (mem_nodesList.mpr ⟨s, hs, hd⟩)
    unfold check
    exact gives_then fun _ => gives_bind (checkList_marked site hstmts) fun out hout =>
      gives_then fun _ => gives_pure (.block hout)
  | declare decl =>
    exact gives_map ((LocalDecl.check_marked site h).mono fun _ => .declare)
  | expr e line =>
    unfold check
    exact gives_bind (Expr.checkStatement_marked site h) fun out hout => gives_pure (.expr hout)
  | branch condition onTrue onFalse line ihTrue ihFalse =>
    unfold nodes at h
    have hcondition : condition.Unmarked := fun d hd =>
      h d (List.mem_append_left _ (List.mem_append_left _ hd))
    have htrue := ihTrue fun d hd => h d (List.mem_append_left _ (List.mem_append_right _ hd))
    have hfalse : ∀ s, onFalse = some s → (s.check site).Gives Marked := by
      intro s hs
      refine ihFalse s hs fun d hd => h d ?_
      rw [hs]
      exact List.mem_append_right _ hd
    rw [check_branch]
    exact gives_bind (Expr.checkCondition_marked site hcondition) fun c hc => gives_then fun _ =>
      gives_bind htrue fun t ht => gives_then fun _ => gives_then fun _ =>
      gives_bind (gives_optional hfalse) fun f hf => gives_then fun _ => gives_then fun _ =>
      gives_pure (.branch hc ht hf)
  | whileLoop condition body line ih =>
    have hcondition : condition.Unmarked := fun d hd => h d (List.mem_append_left _ hd)
    have hbody := ih fun d hd => h d (List.mem_append_right _ hd)
    unfold check
    exact gives_bind (Expr.checkCondition_marked site hcondition) fun c hc => gives_then fun _ =>
      gives_then fun _ => gives_bind hbody fun b hb => gives_then fun _ => gives_then fun _ =>
      gives_pure (.whileLoop hc hb)
  | forLoop init condition update body line ih =>
    have hinit : ∀ i, init = some i → (i.check site).Gives ForInit.Marked := by
      intro i hi
      refine ForInit.check_marked site fun d hd => h d ?_
      refine List.mem_append_left _ (List.mem_append_left _ (List.mem_append_left _ ?_))
      exact List.mem_flatMap.mpr ⟨i, Option.mem_toList.mpr hi, hd⟩
    have hcondition : ∀ e, condition = some e → (e.checkCondition site).Gives Expr.Unmarked := by
      intro e he
      refine Expr.checkCondition_marked site fun d hd => h d ?_
      refine List.mem_append_left _ (List.mem_append_left _ (List.mem_append_right _ ?_))
      exact Expr.mem_nodesList.mpr ⟨e, Option.mem_toList.mpr he, hd⟩
    have hupdate : ∀ e ∈ update, e.Unmarked := Expr.unmarked_nodesList fun d hd =>
      h d (List.mem_append_left _ (List.mem_append_right _ hd))
    have hbody := ih fun d hd => h d (List.mem_append_right _ hd)
    rw [check_forLoop]
    exact gives_then fun _ => gives_bind (gives_optional hinit) fun i hi =>
      gives_bind (gives_optional hcondition) fun c hc => gives_then fun _ => gives_then fun _ =>
      gives_bind hbody fun b hb => gives_then fun _ =>
      gives_bind (Expr.checkStatements_marked site hupdate) fun u hu => gives_then fun _ =>
      gives_then fun _ => gives_pure (.forLoop hi hc hb hu)
  | ret value line =>
    have hvalue : ∀ e, value = some e → e.Unmarked := fun e he d hd =>
      h d (Expr.mem_nodesList.mpr ⟨e, Option.mem_toList.mpr he, hd⟩)
    unfold check
    rw [checkReturn_eq]
    refine gives_bind (gives_bind (gives_onScope site fun env =>
      gives_bind (gives_optional fun e he => (Expr.check_marked env e false
        (hvalue e he).marked).mono fun _ => Expr.Marked.unmarked) fun out hout =>
        gives_then fun _ => gives_note _ hout) fun out hout => gives_then fun _ =>
      gives_pure hout) fun out hout => gives_pure (.ret hout)
  | breakOut line =>
    unfold check
    exact gives_then fun _ => gives_pure .breakOut
  | continueOn line =>
    unfold check
    exact gives_then fun _ => gives_pure .continueOn
  | empty line => exact gives_pure .empty

end Stmt

/-! ## Methods and units -/

/-- No expression in the body is marked, as the parser leaves it. -/
def MethodDecl.Unmarked (method : MethodDecl) : Prop := ∀ d ∈ method.nodes, d.isStatement = false

/-- The statements of the body are marked as their code wants it. -/
def MethodDecl.Marked (method : MethodDecl) : Prop :=
  ∀ body, method.body = some body → ∀ s ∈ body.stmts, s.Marked

theorem Block.check_marked (name : String) (line : Nat) {body : Block}
    (h : ∀ d ∈ Stmt.nodesList body.stmts, d.isStatement = false) :
    (body.check site name line).Gives fun out => ∀ s ∈ out.stmts, s.Marked := by
  have hstmts : ∀ s ∈ body.stmts, (s.check site).Gives Stmt.Marked := fun s hs =>
    Stmt.check_marked site s fun d hd => h d (Stmt.mem_nodesList.mpr ⟨s, hs, hd⟩)
  unfold check
  exact gives_bind (Stmt.checkList_marked site hstmts) fun out hout => gives_then fun _ =>
    gives_note _ hout

theorem MethodDecl.checkBody_marked (signature : MethodSignature) {method : MethodDecl}
    (h : method.Unmarked) : (method.checkBody site signature).Gives Marked := by
  have hbody : ∀ body, method.body = some body →
      (body.check site method.name method.line).Gives fun out => ∀ s ∈ out.stmts, s.Marked := by
    intro body hbody
    refine Block.check_marked site _ _ fun d hd => h d ?_
    exact List.mem_flatMap.mpr ⟨body, Option.mem_toList.mpr hbody, hd⟩
  rw [checkBody_eq]
  exact gives_then fun _ => gives_bind (gives_optional hbody) fun out hout => gives_then fun _ =>
    gives_pure hout

end ClassCompiler
