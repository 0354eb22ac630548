import ClassCompiler.Proofs.Body.Method

/-!
# Bound members

Analysis binds names, field accesses and calls to members of the classes of the unit, whatever they
were bound to before. A binding keeps what is needed of the member, so that code can be generated
without another look at the class. It is a field or a method that the table of classes has under the
name that the node has, and a field reached through an instance is no static one.

* `FieldRef.IsOf`, `MethodRef.IsOf`: a copy of what a class in the table has
* `Expr.check_bound`: all nodes of an analyzed expression
* `MethodDecl.check_everywhere`: what holds of analyzed expressions, holds of an analyzed method
-/

namespace ClassCompiler

open Check BodyState

/-! ## Members of a table -/

/-- A field of that name in some class of the table. -/
def FieldRef.IsOf (classes : ClassTable) (name : String) (ref : FieldRef) : Prop :=
  ∃ info ∈ classes.classes, ∃ field ∈ info.fields, field.name = name
    ∧ ref = { owner := info.ty, ty := field.ty, isStatic := field.mods.isStatic }

/-- A method of that name in some class of the table. -/
def MethodRef.IsOf (classes : ClassTable) (name : String) (ref : MethodRef) : Prop :=
  ∃ info ∈ classes.classes, ∃ method ∈ info.methods, method.name = name
    ∧ ref = { owner := info.ty
              descriptor := method.descriptor
              returnTy := method.returnTy
              isStatic := method.isStatic
              isPrivate := method.mods.isPrivate
              ownerIsInterface := info.isInterface }

namespace ClassTable

variable {table : ClassTable} {registry : Registry} {ty : Ty} {name : String}

theorem mem_of_mem_hierarchy {info : ClassInfo} (h : info ∈ table.hierarchy registry ty) :
    info ∈ table.classes := by
  obtain ⟨ancestor, -, hclass⟩ := List.mem_filterMap.mp h
  exact (mem_of_class? hclass).1

theorem lookupField?_isOf {ref : FieldRef}
    (h : table.lookupField? registry ty name = some ref) : ref.IsOf table name := by
  obtain ⟨info, hinfo, hfield⟩ := List.exists_of_findSome?_eq_some h
  obtain ⟨field, hfound, rfl⟩ := Option.map_eq_some_iff.mp hfield
  have hname := List.find?_some
    (show info.fields.find? (fun field => field.name == name) = some field from hfound)
  exact ⟨info, mem_of_mem_hierarchy hinfo, field, List.mem_of_find?_eq_some hfound,
    beq_iff_eq.mp hname, rfl⟩

theorem name_of_mem_candidates {arity : Nat} {info : ClassInfo} {method : MethodEntry}
    (h : (info, method) ∈ table.candidates registry ty name arity) : method.name = name := by
  obtain ⟨info', -, hmethod⟩ := List.mem_flatMap.mp h
  obtain ⟨method', hmem, heq⟩ := List.mem_map.mp hmethod
  cases heq
  have hnamed := (List.mem_filter.mp (List.mem_filter.mp hmem).1).2
  exact beq_iff_eq.mp hnamed

theorem lookupMethod?_isOf {args : List Ty} {ref : MethodRef}
    (h : table.lookupMethod? registry ty name args = some ref) : ref.IsOf table name := by
  unfold lookupMethod? at h
  obtain ⟨⟨info, method⟩, hchosen, rfl⟩ := Option.map_eq_some_iff.mp h
  have hcandidate : (info, method) ∈ table.candidates registry ty name args.length := by
    rcases Option.or_eq_some_iff.mp hchosen with hexact | ⟨-, hwidened⟩
    · exact List.mem_of_find?_eq_some hexact
    · exact List.mem_of_find?_eq_some hwidened
  obtain ⟨hinfo, hmethod, -⟩ := mem_candidates hcandidate
  exact ⟨info, mem_of_mem_hierarchy hinfo, method, hmethod, name_of_mem_candidates hcandidate, rfl⟩

end ClassTable

/-! ## Expressions -/

namespace Expr

/-- If the node is bound to a member, a class in the table has it. -/
def Bound (classes : ClassTable) : Expr → Prop
  | name _ text (some (.field ref)) => ref.IsOf classes text
  | field _ _ text (some ref) => ref.IsOf classes text ∧ ref.isStatic = false
  | call _ _ text _ (some method) => method.IsOf classes text
  | _ => True

variable {env : ExprEnv} {a b : Expr}

theorem Bound.withNode {classes : ClassTable} {e : Expr} (h : e.Bound classes) (n : Node) :
    (e.withNode n).Bound classes := by
  cases e with
  | name _ _ binding => rcases binding with _ | _ | _ <;> exact h
  | field _ _ _ ref => cases ref <;> exact h
  | call _ _ _ _ method => cases method <;> exact h
  | _ => trivial

theorem bound_bindName (scope : Scope) (n : Node) (text : String) :
    (env.bindName scope n text).1.Everywhere (Bound env.classes) := by
  unfold ExprEnv.bindName
  split
  · exact everywhere_leaf trivial rfl
  · split
    · next hfield => exact everywhere_leaf (ClassTable.lookupField?_isOf hfield) rfl
    · exact everywhere_leaf trivial rfl

theorem bound_staticField (owner : Ty) (n : Node) (text : String) :
    (env.staticField owner n text).1.Everywhere (Bound env.classes) := by
  unfold ExprEnv.staticField
  split
  · next hfield => exact everywhere_leaf (ClassTable.lookupField?_isOf hfield) rfl
  · exact everywhere_leaf trivial rfl

theorem bound_selectField {target : Expr} (h : target.Everywhere (Bound env.classes)) (n : Node)
    (text : String) : (env.selectField n target text).1.Everywhere (Bound env.classes) := by
  unfold ExprEnv.selectField
  dsimp only
  split
  · exact everywhere_one trivial rfl h
  · split
    · exact everywhere_one trivial rfl h
    · split
      · next field hfield =>
        have hof := ClassTable.lookupField?_isOf hfield
        by_cases hstatic : field.isStatic = true
        · rw [if_pos hstatic]
          exact everywhere_leaf hof rfl
        · rw [if_neg hstatic]
          exact everywhere_one ⟨hof, Bool.not_eq_true _ ▸ hstatic⟩ rfl h
      · exact everywhere_one trivial rfl h

theorem bound_selectMethod (receiver : ExprEnv.Receiver) {target : Option Expr} {args : List Expr}
    (htarget : ∀ t, target = some t → t.Everywhere (Bound env.classes))
    (hargs : ∀ a ∈ args, a.Everywhere (Bound env.classes)) (n : Node) (text : String) :
    (env.selectMethod receiver n target text args).1.Everywhere (Bound env.classes) := by
  have hcall : ∀ n method, (call n target text args method).Bound env.classes →
      (call n target text args method).Everywhere (Bound env.classes) := by
    intro n method hself
    refine everywhere_of_children hself fun c hc => ?_
    rcases List.mem_append.mp hc with hc | hc
    · exact htarget c (Option.mem_toList.mp hc)
    · exact hargs c hc
  unfold ExprEnv.selectMethod
  split
  · exact hcall _ none trivial
  · dsimp only
    split
    · next method hmethod => exact hcall _ (some method) (ClassTable.lookupMethod?_isOf hmethod)
    · exact hcall _ none trivial

theorem checkTarget_bound {e : Expr}
    (h : (e.check env).Gives (Everywhere (Bound env.classes))) :
    (checkTarget env e).Gives (Everywhere (Bound env.classes)) := by
  unfold checkTarget
  split
  · exact gives_read_bind fun scope => gives_note _ (bound_bindName scope _ _)
  · refine gives_map (h.mono fun out hout => ?_)
    unfold asTarget markStatement
    split
    · refine everywhere_of_children ((hout out (mem_nodes_self out)).withNode _) fun c hc => ?_
      rw [children_withNode] at hc
      exact hout.child hc
    · exact hout

theorem checkList_bound {args : List Expr}
    (h : ∀ a ∈ args, (a.check env).Gives (Everywhere (Bound env.classes))) :
    (checkList env args).Gives fun out => ∀ a ∈ out, a.Everywhere (Bound env.classes) := by
  induction args with
  | nil => exact gives_pure fun a ha => (List.not_mem_nil ha).elim
  | cons first rest ih =>
    unfold checkList
    refine gives_bind (h first List.mem_cons_self) fun one hone =>
      gives_bind (ih fun a ha => h a (List.mem_cons_of_mem _ ha)) fun others hothers =>
      gives_pure fun a ha => ?_
    rcases List.mem_cons.mp ha with rfl | ha
    · exact hone
    · exact hothers a ha

theorem checkReceiver_bound {target : Option Expr}
    (h : ∀ t, target = some t → (t.check env).Gives (Everywhere (Bound env.classes))) :
    (checkReceiver env target).Gives fun receiver =>
      ∀ t, receiver.1 = some t → t.Everywhere (Bound env.classes) := by
  cases target with
  | none => exact gives_read_bind fun _ => gives_pure fun t ht => by cases ht
  | some target =>
    refine gives_read_bind fun scope => ?_
    split
    · exact gives_pure fun t ht => by cases ht
    · refine gives_bind (h target rfl) fun out hout => gives_pure fun t ht => ?_
      cases ht
      exact hout

/-- What the right side of an assignment becomes. -/
theorem bound_judgeAssign (registry : Registry) (op : AssignOp) (line : Nat)
    (ha : a.Everywhere (Bound env.classes)) (hb : b.Everywhere (Bound env.classes)) :
    (judgeAssign registry op a b line).1.Everywhere (Bound env.classes) := by
  unfold judgeAssign
  dsimp only
  split
  · exact hb
  · exact everywhere_two trivial rfl ha hb
  · exact hb
  · split <;> exact hb

/-- All members that an analyzed expression is bound to are those of the table. -/
theorem check_bound (env : ExprEnv) (e : Expr) :
    (e.check env).Gives (Everywhere (Bound env.classes)) := by
  induction e using Expr.induction with
  | literal n value => exact gives_pure (everywhere_leaf trivial rfl)
  | name n text binding =>
    unfold check
    exact gives_read_bind fun scope => gives_note _ (bound_bindName scope n text)
  | self n =>
    unfold check
    exact gives_read_bind fun _ => gives_note _ (everywhere_leaf trivial rfl)
  | field n target text ref ih =>
    unfold check
    refine gives_read_bind fun scope => ?_
    split
    · exact gives_note _ (bound_staticField _ n text)
    · exact gives_bind ih fun t ht => gives_note _ (bound_selectField ht n text)
  | length n operand ih | unary n op operand ih | not n operand ih =>
    unfold check
    exact gives_bind ih fun a ha => gives_note _ (everywhere_one trivial rfl ha)
  | binary n op lhs rhs ihl ihr =>
    unfold check
    refine gives_bind ihl fun l hl => gives_bind ihr fun r hr => ?_
    split <;> exact gives_note _ (everywhere_two trivial rfl hl hr)
  | index n lhs rhs ihl ihr | compare n op lhs rhs ihl ihr | equality n op lhs rhs ihl ihr
  | logical n op lhs rhs ihl ihr | concat n lhs rhs ihl ihr =>
    unfold check
    exact gives_bind ihl fun l hl => gives_bind ihr fun r hr =>
      gives_note _ (everywhere_two trivial rfl hl hr)
  | assign n op lhs rhs ihl ihr =>
    rw [check_assign]
    refine gives_bind (checkTarget_bound ihl) fun l hl => ?_
    split
    · exact gives_bind ihr fun r hr => gives_then fun _ =>
        gives_note _ (everywhere_two trivial rfl hl (bound_judgeAssign env.registry op n.line hl hr))
    · exact gives_then fun _ => gives_bind ihr fun r hr =>
        gives_pure (everywhere_two trivial rfl hl hr)
  | increment n op operand ih =>
    rw [check_increment]
    refine gives_bind (checkTarget_bound ih) fun a ha => ?_
    split <;> exact gives_note _ (everywhere_one trivial rfl ha)
  | call n target text args method ihtarget ihargs =>
    rw [check_call]
    exact gives_bind (checkReceiver_bound ihtarget) fun receiver hreceiver =>
      gives_bind (checkList_bound ihargs) fun args hargs =>
      gives_note _ (bound_selectMethod receiver.2 hreceiver hargs n text)

end Expr

/-! ## Statements -/

theorem BodyState.onScope_gives {α : Type} {site : Site} {step : ExprEnv → Check Scope α}
    {Q : α → Prop} (h : ∀ registry, (step { site with registry }).Gives Q) :
    (onScope site step).Gives Q := fun state => h state.registry state.scope

theorem Stmt.checkList_everywhere (site : Site) {P : Expr → Prop} {stmts : List Stmt}
    (h : ∀ s ∈ stmts, (s.check site).Gives (Everywhere P)) :
    (checkList site stmts).Gives fun out => ∀ s ∈ out, s.Everywhere P := by
  induction stmts with
  | nil => exact gives_pure fun s hs => (List.not_mem_nil hs).elim
  | cons first rest ih =>
    unfold checkList
    refine gives_bind (h first List.mem_cons_self) fun one hone =>
      gives_bind (ih fun s hs => h s (List.mem_cons_of_mem _ hs)) fun others hothers =>
      gives_pure fun s hs => ?_
    rcases List.mem_cons.mp hs with rfl | hs
    · exact hone
    · exact hothers s hs

section

variable (site : Site) {P : Expr → Prop}
  (hcheck : ∀ (registry : Registry) (e : Expr),
    (e.check { site with registry }).Gives (Expr.Everywhere P))

include hcheck

theorem Expr.checkCondition_everywhere (e : Expr) :
    (e.checkCondition site).Gives (Everywhere P) :=
  onScope_gives fun registry => gives_bind (hcheck registry e) fun _ hout => gives_note _ hout

theorem Expr.checkStatement_everywhere (e : Expr) :
    (e.checkStatement site).Gives (Everywhere P) :=
  onScope_gives fun registry => gives_then fun _ => hcheck registry _

theorem Expr.checkStatements_everywhere (es : List Expr) :
    (checkStatements site es).Gives fun out => ∀ e ∈ out, e.Everywhere P := by
  induction es with
  | nil => exact gives_pure fun e he => (List.not_mem_nil he).elim
  | cons first rest ih =>
    unfold checkStatements
    refine gives_bind (checkStatement_everywhere site hcheck first) fun one hone =>
      gives_bind ih fun others hothers => gives_pure fun e he => ?_
    rcases List.mem_cons.mp he with rfl | he
    · exact hone
    · exact hothers e he

theorem Declarator.check_everywhere (ty : Ty) (declarator : Declarator) :
    (declarator.check site ty).Gives fun out =>
      out.1.init = none ∧ ∀ e ∈ out.2, e.Everywhere P := by
  unfold check
  refine gives_then fun slot => ?_
  cases hinit : declarator.init with
  | none =>
    refine gives_pure ⟨?_, fun e he => (List.not_mem_nil he).elim⟩
    exact rfl
  | some init =>
    have hassign : (onScope site fun env => (declarator.assignment init).check env).Gives
        (Expr.Everywhere P) := onScope_gives fun registry => hcheck registry _
    refine gives_bind hassign fun out hout => gives_pure ⟨rfl, fun e he => ?_⟩
    rw [List.mem_singleton.mp he]
    exact hout

theorem Declarator.checkList_everywhere (ty : Ty) (declarators : List Declarator) :
    (checkList site ty declarators).Gives fun out =>
      (∀ declarator ∈ out.1, declarator.init = none) ∧ ∀ e ∈ out.2, e.Everywhere P := by
  induction declarators with
  | nil => exact gives_pure ⟨fun _ h => (List.not_mem_nil h).elim,
      fun _ h => (List.not_mem_nil h).elim⟩
  | cons first rest ih =>
    unfold checkList
    refine gives_bind (first.check_everywhere site hcheck ty) fun one hone =>
      gives_bind ih fun others hothers => gives_pure ⟨fun declarator h => ?_, fun e he => ?_⟩
    · rcases List.mem_cons.mp h with rfl | h
      · exact hone.1
      · exact hothers.1 declarator h
    · rcases List.mem_append.mp he with he | he
      · exact hone.2 e he
      · exact hothers.2 e he

theorem LocalDecl.check_everywhere (decl : LocalDecl) :
    (decl.check site).Gives fun out => ∀ e ∈ out.roots, e.Everywhere P := by
  unfold check
  refine gives_then fun ty => gives_bind
    (Declarator.checkList_everywhere site hcheck ty decl.declarators) fun out hout =>
    gives_pure fun e he => ?_
  rcases List.mem_append.mp he with he | he
  · obtain ⟨declarator, hdeclarator, he⟩ := List.mem_flatMap.mp he
    rw [hout.1 declarator hdeclarator] at he
    exact (List.not_mem_nil he).elim
  · exact hout.2 e he

theorem ForInit.check_everywhere (init : ForInit) :
    (init.check site).Gives fun out => ∀ e ∈ out.roots, e.Everywhere P := by
  cases init with
  | exprs es => exact gives_map (Expr.checkStatements_everywhere site hcheck es)
  | decl d => exact gives_map (LocalDecl.check_everywhere site hcheck d)

theorem checkReturn_everywhere (value : Option Expr) (line : Nat) :
    (checkReturn site value line).Gives fun out => ∀ e, out = some e → e.Everywhere P := by
  rw [checkReturn_eq]
  exact gives_bind (onScope_gives fun registry =>
    gives_bind (gives_optional fun e _ => hcheck registry e) fun out hout =>
    gives_then fun _ => gives_note _ hout) fun out hout => gives_then fun _ => gives_pure hout

namespace Stmt

/-- What holds of all analyzed expressions holds of those in an analyzed statement: nothing that the
parser left stays. -/
theorem check_everywhere (s : Stmt) : (s.check site).Gives (Everywhere P) := by
  have hnone : ∀ {α : Type} {Q : α → Prop}, ∀ a ∈ ([] : List α), Q a :=
    fun a ha => (List.not_mem_nil ha).elim
  induction s using Stmt.induction with
  | block stmts line ih =>
    unfold check
    exact gives_then fun _ => gives_bind (checkList_everywhere site ih) fun out hout =>
      gives_then fun _ => gives_pure (everywhere_of hnone hout)
  | declare decl =>
    exact gives_map ((LocalDecl.check_everywhere site hcheck decl).mono fun out hout =>
      everywhere_of hout hnone)
  | expr e line =>
    unfold check
    refine gives_bind (Expr.checkStatement_everywhere site hcheck e) fun out hout =>
      gives_pure (everywhere_of (fun d hd => ?_) hnone)
    rw [List.mem_singleton.mp hd]
    exact hout
  | branch condition onTrue onFalse line ihTrue ihFalse =>
    rw [check_branch]
    refine gives_bind (Expr.checkCondition_everywhere site hcheck condition) fun c hc =>
      gives_then fun _ => gives_bind ihTrue fun t ht => gives_then fun _ => gives_then fun _ =>
      gives_bind (gives_optional ihFalse) fun f hf => gives_then fun _ => gives_then fun _ =>
      gives_pure (everywhere_of (fun e he => ?_) fun u hu => ?_)
    · rw [List.mem_singleton.mp he]
      exact hc
    · rcases List.mem_cons.mp hu with rfl | hu
      · exact ht
      · exact hf u (Option.mem_toList.mp hu)
  | whileLoop condition body line ih =>
    unfold check
    refine gives_bind (Expr.checkCondition_everywhere site hcheck condition) fun c hc =>
      gives_then fun _ => gives_then fun _ => gives_bind ih fun b hb => gives_then fun _ =>
      gives_then fun _ => gives_pure (everywhere_of (fun e he => ?_) fun u hu => ?_)
    · rw [List.mem_singleton.mp he]
      exact hc
    · rw [List.mem_singleton.mp hu]
      exact hb
  | forLoop init condition update body line ih =>
    rw [check_forLoop]
    refine gives_then fun _ => gives_bind (gives_optional fun i _ =>
        ForInit.check_everywhere site hcheck i) fun i hi =>
      gives_bind (gives_optional fun e _ => Expr.checkCondition_everywhere site hcheck e)
        fun c hc => gives_then fun _ => gives_then fun _ => gives_bind ih fun b hb =>
      gives_then fun _ => gives_bind (Expr.checkStatements_everywhere site hcheck update)
        fun u hu => gives_then fun _ => gives_then fun _ =>
      gives_pure (everywhere_of (fun e he => ?_) fun t ht => ?_)
    · rcases List.mem_append.mp he with he | he
      · rcases List.mem_append.mp he with he | he
        · obtain ⟨found, hfound, he⟩ := List.mem_flatMap.mp he
          exact hi found (Option.mem_toList.mp hfound) e he
        · exact hc e (Option.mem_toList.mp he)
      · exact hu e he
    · rw [List.mem_singleton.mp ht]
      exact hb
  | ret value line =>
    unfold check
    exact gives_bind (checkReturn_everywhere site hcheck value line) fun out hout =>
      gives_pure (everywhere_of (fun e he => hout e (Option.mem_toList.mp he)) hnone)
  | breakOut line =>
    unfold check
    exact gives_then fun _ => gives_pure (everywhere_of hnone hnone)
  | continueOn line =>
    unfold check
    exact gives_then fun _ => gives_pure (everywhere_of hnone hnone)
  | empty line => exact gives_pure (everywhere_of hnone hnone)

end Stmt

/-! ## Methods -/

theorem Block.check_everywhere (name : String) (line : Nat) (body : Block) :
    (body.check site name line).Gives fun out => ∀ s ∈ out.stmts, s.Everywhere P := by
  unfold check
  exact gives_bind (Stmt.checkList_everywhere site fun s _ =>
    s.check_everywhere site hcheck) fun out hout => gives_then fun _ => gives_note _ hout

theorem MethodDecl.checkBody_everywhere (signature : MethodSignature) (method : MethodDecl) :
    (method.checkBody site signature).Gives fun out => ∀ d ∈ out.nodes, P d := by
  rw [checkBody_eq]
  refine gives_then fun _ => gives_bind (gives_optional fun body _ =>
    Block.check_everywhere site hcheck _ _ body) fun out hout => gives_then fun _ =>
    gives_pure fun d hd => ?_
  obtain ⟨body, hbody, hd⟩ := List.mem_flatMap.mp hd
  obtain ⟨s, hs, hd⟩ := Stmt.mem_nodesList.mp hd
  exact hout body (Option.mem_toList.mp hbody) s hs d hd

theorem MethodDecl.check_everywhere {method : MethodDecl} {signature : MethodSignature}
    (h : method.signature = some signature) :
    (method.check site).Gives fun out => ∀ d ∈ out.nodes, P d := by
  intro registry
  rw [run_check site h]
  exact checkBody_everywhere site hcheck signature method _

end

end ClassCompiler
