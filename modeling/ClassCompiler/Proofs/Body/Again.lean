import ClassCompiler.Proofs.Body.Lasting

/-!
# Analysis of analyzed expressions

An expression that was analyzed without an error comes out of a second analysis as it went in, if it
lasts: every name is bound to what it was bound to, and every node gets the type that it has. The
induction is on the tree that the parser gave, since it is the first analysis that puts the nodes of
the analyzed tree in their places.

* `Expr.Stays`: an analyzed expression that the next analysis leaves alone
* `Expr.check_stays`: such is every expression that lasts
* `Expr.check_again`: also in a registry that knows more
-/

namespace ClassCompiler

open Check

/-! ## Names and members -/

namespace ExprEnv

variable {env : ExprEnv} {scope : Scope} {n : Node} {text : String}

/-- A simple name that means something, means it under every node. -/
theorem bindName_ok (h : (env.bindName scope n text).2 = []) : ∃ ty binding, ∀ m : Node,
    env.bindName scope m text = (.name { m with ty := some ty } text (some binding), []) := by
  unfold bindName at h ⊢
  split at h
  · exact ⟨_, _, fun m => rfl⟩
  · split at h
    · next ref _ =>
      refine ⟨ref.ty, .field ref, fun m => ?_⟩
      have herrors : ∀ line, (if scope.isStatic then staticFieldErrors text ref line else []) = [] := by
        intro line
        unfold staticFieldErrors at h ⊢
        by_cases hscope : scope.isStatic = true <;> by_cases href : ref.isStatic = true
        all_goals simp_all
      exact Prod.ext rfl (herrors m.line)
    · cases h

theorem readName_ok (h : (env.readName scope n text).2 = []) : ∃ ty binding, ∀ m : Node,
    env.readName scope m text = (.name { m with ty := some ty } text (some binding), []) := by
  obtain ⟨hbound, hvalue⟩ := List.append_eq_nil_iff.mp h
  obtain ⟨ty, binding, hall⟩ := bindName_ok hbound
  refine ⟨ty, binding, fun m => ?_⟩
  have herrors : uninitializedErrors scope text m.line = [] := by
    unfold uninitializedErrors at hvalue ⊢
    split at hvalue
    · split at hvalue
      · next hinitialized => exact if_pos hinitialized
      · cases hvalue
    · rfl
  unfold readName
  rw [hall m, herrors]
  rfl

/-- A static field that no local hides. -/
theorem readName_static {ref : FieldRef} (hscope : scope.lookup? text = none)
    (hfield : env.field? env.owner text = some ref) (hstatic : ref.isStatic = true) :
    env.readName scope n text = (fieldName n text ref, []) := by
  unfold readName bindName uninitializedErrors staticFieldErrors
  rw [hscope, hfield]
  simp [hstatic]

theorem staticField_ok {owner : Ty} (h : (env.staticField owner n text).2 = []) :
    ∃ ref, ref.isStatic = true ∧ (env.staticField owner n text).1 = fieldName n text ref := by
  unfold staticField at h ⊢
  split at h
  · next ref _ =>
    refine ⟨ref, ?_, rfl⟩
    unfold staticFieldErrors at h
    split at h
    · next hstatic => exact hstatic
    · cases h
  · cases h

/-- A method that is found, or a receiver that was reported before. -/
theorem selectMethod_ok {receiver : Receiver} {target : Option Expr} {args : List Expr}
    (h : (env.selectMethod receiver n target text args).2 = []) :
    (receiver.ty = .any ∧ ∀ m : Node, env.selectMethod receiver m target text args
        = (.call { m with ty := some .any } target text args none, []))
      ∨ ∃ ref, (receiver.staticOnly = true → ref.isStatic = true)
        ∧ ∀ m : Node, env.selectMethod receiver m target text args
          = (.call { m with ty := some ref.returnTy } target text args (some ref), []) := by
  unfold selectMethod at h ⊢
  dsimp only at h ⊢
  by_cases hany : receiver.ty = .any
  · exact .inl ⟨hany, fun m => if_pos hany⟩
  · rw [if_neg hany] at h
    simp only [if_neg hany]
    cases hfound : env.method? receiver.ty text (args.map Expr.tyOrAny) with
    | none =>
      rw [hfound] at h
      cases h
    | some ref =>
      rw [hfound] at h
      dsimp only at h
      have hfine : ¬(receiver.staticOnly && !ref.isStatic) = true := by
        intro hbad
        rw [if_pos hbad] at h
        cases h
      refine .inr ⟨ref, fun honly => ?_, fun m => Prod.ext rfl (if_neg hfine)⟩
      simpa [honly] using hfine

/-- An unqualified call of a method that is found in the class that it stands in. -/
theorem selectMethod_own {ref : MethodRef} {staticOnly : Bool} {args : List Expr}
    (hany : env.owner ≠ .any)
    (hmethod : env.method? env.owner text (args.map Expr.tyOrAny) = some ref)
    (hstatic : ref.isStatic = true) :
    env.selectMethod ⟨env.owner, staticOnly⟩ n none text args
      = (.call { n with ty := some ref.returnTy } none text args (some ref), []) := by
  unfold selectMethod
  simp [hany, hmethod, hstatic]

/-- A field that is found: a static one, the length of an array, or one of the target. -/
theorem selectField_ok {target : Expr} (h : (env.selectField n target text).2 = []) :
    (∃ ref, ref.isStatic = true ∧ (env.selectField n target text).1 = fieldName n text ref)
      ∨ ((env.selectField n target text).1 = .length { n with ty := some .int } target
        ∧ ∀ line, judgeLength env.registry target line = ⟨some .int, []⟩)
      ∨ ∃ ty ref, ∀ m : Node, env.selectField m target text
          = (.field { m with ty := some ty } target text ref, []) := by
  unfold selectField at h ⊢
  dsimp only at h ⊢
  by_cases hany : target.tyOrAny = .any
  · simp only [if_pos hany]
    exact .inr (.inr ⟨_, _, fun m => rfl⟩)
  simp only [if_neg hany] at h ⊢
  by_cases hlength : (text == "length" && env.registry.isArray target.tyOrAny) = true
  · refine .inr (.inl ⟨by rw [if_pos hlength], fun line => ?_⟩)
    obtain ⟨element, helement⟩ := Option.isSome_iff_exists.mp (Bool.and_eq_true_iff.mp hlength).2
    unfold judgeLength judgeElement
    simp only [if_neg hany, helement]
  simp only [if_neg hlength] at h ⊢
  cases hfound : env.field? target.tyOrAny text with
  | none =>
    rw [hfound] at h
    cases h
  | some ref =>
    cases hstatic : ref.isStatic with
    | true => exact .inl ⟨ref, hstatic, by simp only [hstatic, if_true]⟩
    | false => exact .inr (.inr ⟨ref.ty, some ref, fun m => by simp [hstatic]⟩)

end ExprEnv

/-! ## Nodes in a smaller registry -/

/-- What lasts does not depend on what only one of the registries knows. -/
theorem Expr.lasts_agree {known : String → Prop} {s t : Registry} (h : s.Agree known t)
    {site : Site} (hsite : site.Among (s.Share t)) (hidden : List String) {e : Expr}
    (hchildren : ∀ c ∈ e.children, c.Shared s t) :
    e.lasts ⟨site, t⟩ hidden = e.lasts ⟨site, s⟩ hidden := by
  cases e with
  | name n text binding =>
    rcases binding with _ | _ | ref
    · rfl
    · rfl
    · unfold lasts
      dsimp only
      rw [ExprEnv.field?_agree h site hsite.owner]
  | assign n op lhs rhs => rcases op with _ | op <;> [rfl; cases op <;> rfl]
  | call n target text args method =>
    cases target with
    | some target => rfl
    | none =>
      have hargs : ∀ ty ∈ args.map tyOrAny, s.Share t ty := by
        intro ty hty
        obtain ⟨a, ha, rfl⟩ := List.mem_map.mp hty
        exact hchildren a ha
      have hmethod : (ExprEnv.mk site t).method? site.owner text (args.map tyOrAny)
          = (ExprEnv.mk site s).method? site.owner text (args.map tyOrAny) :=
        ClassTable.lookupMethod?_agree h hsite.classes hsite.owner text hargs
      cases method with
      | none => rfl
      | some ref =>
        unfold lasts
        dsimp only
        rw [hmethod]
  | _ => rfl

/-! ## Targets -/

/-- The right side of an assignment stays what it is, if nothing is appended to a `String`. -/
theorem judgeAssign_fst (registry : Registry) {op : AssignOp} {lhs : Expr} (rhs : Expr)
    (line : Nat) (h : ¬(op = .compound .add ∧ lhs.tyOrAny = .string)) :
    (judgeAssign registry op lhs rhs line).1 = rhs := by
  unfold judgeAssign
  dsimp only
  split
  · rfl
  · next hconcat => exact absurd (checkAssignment_concat hconcat) h
  · rfl
  · split <;> rfl

namespace Expr

/-- What a clean analysis leaves for the next one: no name of a class, and if it lasts, a tree that
comes out as it goes in, over the same scopes as before. -/
structure Stays (site : Site) (s t : Registry) (names hidden : List String)
    (again : Expr → Check Scope Expr) (before : Scope) (out : Expr) (after : Scope) : Prop where
  inside : after.Inside s names
  named : out.Named
  answers : out.Lasting ⟨site, t⟩ hidden → (again out).Answers before out after

variable {s t : Registry} {site : Site} {names hidden : List String} {before after scope : Scope}

/-- A place stays the target of an assignment. -/
theorem Stays.target {out : Expr}
    (h : Stays site s t names hidden (check ⟨site, s⟩) before out after)
    (hplace : out.isAssignable = true) :
    Stays site s t names hidden (checkTarget ⟨site, s⟩) before (out.markStatement false) after := by
  refine ⟨h.inside, (named_withNode _ _).mpr h.named, fun hlasting => ?_⟩
  have hout := h.answers ((lasting_withNode _ _ _ _).mp hlasting)
  unfold checkTarget
  split
  · next text htext =>
    cases out with
    | name n text' binding =>
      cases htext
      have herrors : (ExprEnv.readName ⟨site, s⟩ before n text).2 = [] := congrArg Checked.errors hout
      obtain ⟨ty, found, hall⟩ :=
        ExprEnv.bindName_ok (List.append_eq_nil_iff.mp herrors).1
      have hvalue : (ExprEnv.bindName ⟨site, s⟩ before n text).1 = name n text binding :=
        congrArg Checked.value hout
      have hstate : before = after := congrArg Checked.state hout
      rw [hall] at hvalue
      injection hvalue with hnode _ hbinding
      subst hstate hbinding
      have hmarked : markStatement false (name n text (some found))
          = name { line := n.line, ty := some ty } text (some found) := by
        rw [← hnode]
        rfl
      rw [hmarked]
      unfold bindTarget
      refine answers_read_bind ?_
      rw [hall]
      exact answers_note rfl
    | _ => cases htext
  · rw [check_markStatement _ hplace]
    have hmarked : asTarget (out.markStatement false) (out.markStatement false)
        = out.markStatement false := by
      unfold asTarget
      split
      · exact markStatement_of_isStatement (by
          show (Node.isStatement (node (withNode _ _))) = false
          rw [node_withNode])
      · rfl
    have hdone := answers_map (asTarget (out.markStatement false))
      (answers_map (markStatement false) hout)
    rwa [hmarked] at hdone

theorem checkTarget_stays {e : Expr} (hscope : scope.Inside s names)
    (hcheck : (e.check ⟨site, s⟩).Clean scope
      (Stays site s t names hidden (check ⟨site, s⟩) scope)) :
    (checkTarget ⟨site, s⟩ e).Clean scope fun out after => out.isAssignable = true →
      Stays site s t names hidden (checkTarget ⟨site, s⟩) scope out after := by
  cases hname : e.simpleName? with
  | some text =>
    have hgiven : checkTarget ⟨site, s⟩ e = bindTarget ⟨site, s⟩ e.line text := by
      unfold checkTarget
      rw [hname]
    rw [hgiven]
    refine clean_read_bind (clean_note fun herrors _ => ?_)
    obtain ⟨ty, binding, hall⟩ := ExprEnv.bindName_ok herrors
    show Stays _ _ _ _ _ _ _ (ExprEnv.bindName ⟨site, s⟩ scope { line := e.line } text).1 _
    rw [hall]
    refine ⟨hscope, everywhere_leaf rfl rfl, fun _ => ?_⟩
    show (bindTarget _ e.line text).Answers scope _ scope
    refine answers_read_bind ?_
    rw [hall]
    exact answers_note rfl
  | none =>
    have hgiven : checkTarget ⟨site, s⟩ e = asTarget e <$> e.check ⟨site, s⟩ := by
      unfold checkTarget
      rw [hname]
    rw [hgiven]
    refine clean_map ?_
    cases hplace : e.isAssignable with
    | true =>
      refine hcheck.mono fun out after h hassignable => ?_
      have hmarked : asTarget e out = out.markStatement false := if_pos hplace
      rw [hmarked] at hassignable ⊢
      refine h.target ?_
      cases out <;> first | rfl | exact hassignable
    | false =>
      refine (hcheck.and_value (P := fun out => out.isAssignable = false)
        (isAssignable_check ⟨site, s⟩ hplace scope)).mono fun out after h hassignable => ?_
      have hmarked : asTarget e out = out := if_neg (by rw [hplace]; exact Bool.false_ne_true)
      rw [hmarked, h.2] at hassignable
      cases hassignable

/-! ## Operands -/

/-- An operator on one operand, which is judged as before. -/
theorem check_one_stays {e : Expr} {join : Expr → Check Scope Expr}
    (he : (e.check ⟨site, s⟩).Clean scope
      (Stays site s t names hidden (check ⟨site, s⟩) scope))
    (hjoin : ∀ a, ∃ out errors, join a = Check.note out errors ∧ out.children = [a]
      ∧ out.isUnbound = false ∧ out.check ⟨site, s⟩ = a.check ⟨site, s⟩ >>= join) :
    (e.check ⟨site, s⟩ >>= join).Clean scope
      (Stays site s t names hidden (check ⟨site, s⟩) scope) := by
  refine clean_bind he fun a after ha => ?_
  obtain ⟨out, errors, hjoined, hchildren, hbound, hagain⟩ := hjoin a
  rw [hjoined]
  refine clean_note fun herrors => ⟨ha.inside, everywhere_one hbound hchildren ha.named,
    fun hlasting => ?_⟩
  rw [hagain]
  refine answers_bind (ha.answers (hlasting.child (by simp [hchildren]))) ?_
  rw [hjoined]
  exact answers_note herrors

/-- An operator on two operands. -/
theorem check_two_stays {lhs rhs : Expr} {join : Expr → Expr → Check Scope Expr}
    (hlhs : (lhs.check ⟨site, s⟩).Clean scope
      (Stays site s t names hidden (check ⟨site, s⟩) scope))
    (hrhs : ∀ before : Scope, before.Inside s names → (rhs.check ⟨site, s⟩).Clean before
      (Stays site s t names hidden (check ⟨site, s⟩) before))
    (hjoin : ∀ l r, ∃ (out : Expr) (errors : List CompileError)
      (again : Expr → Expr → Check Scope Expr), join l r = Check.note out errors
      ∧ out.children = [l, r] ∧ out.isUnbound = false ∧ out.check ⟨site, s⟩ = (do
        let l ← l.check ⟨site, s⟩
        let r ← r.check ⟨site, s⟩
        again l r) ∧ again l r = Check.note out errors) :
    (do
      let l ← lhs.check ⟨site, s⟩
      let r ← rhs.check ⟨site, s⟩
      join l r : Check Scope Expr).Clean scope
      (Stays site s t names hidden (check ⟨site, s⟩) scope) := by
  refine clean_bind hlhs fun l middle hl => clean_bind (hrhs middle hl.inside) fun r after hr => ?_
  obtain ⟨out, errors, again, hjoined, hchildren, hbound, hcheck, hagain⟩ := hjoin l r
  rw [hjoined]
  refine clean_note fun herrors => ⟨hr.inside, everywhere_two hbound hchildren hl.named hr.named,
    fun hlasting => ?_⟩
  rw [hcheck]
  refine answers_bind (hl.answers (hlasting.child (by simp [hchildren]))) ?_
  refine answers_bind (hr.answers (hlasting.child (by simp [hchildren]))) ?_
  rw [hagain]
  exact answers_note herrors

theorem answers_markAssigned (target : Expr) (scope : Scope) : ∃ after,
    target.markAssigned.Answers scope () after
      ∧ (scope.Inside s names → after.Inside s names) := by
  unfold markAssigned
  split
  · next text _ => exact ⟨scope.markInitialized text, rfl, fun h => h.markInitialized text⟩
  · exact ⟨scope, rfl, id⟩

/-- The arguments of a call, one by one. -/
structure StayList (site : Site) (s t : Registry) (names hidden : List String) (before : Scope)
    (out : List Expr) (after : Scope) : Prop where
  inside : after.Inside s names
  named : ∀ a ∈ out, a.Named
  known : ∀ a ∈ out, s.contains a.tyOrAny = true
  answers : (∀ a ∈ out, a.Lasting ⟨site, t⟩ hidden) →
    (checkList ⟨site, s⟩ out).Answers before out after

/-- The receiver of a call: what was the name of a class is gone, anything else is found again. -/
structure StayReceiver (site : Site) (s t : Registry) (names hidden : List String) (before : Scope)
    (out : Option Expr × ExprEnv.Receiver) (after : Scope) : Prop where
  inside : after.Inside s names
  named : ∀ e, out.1 = some e → e.Named
  answers : (∀ e, out.1 = some e → e.Lasting ⟨site, t⟩ hidden) → ∃ found : ExprEnv.Receiver,
    (checkReceiver ⟨site, s⟩ out.1).Answers before (out.1, found) after
      ∧ (found = out.2 ∨ out.1 = none ∧ found.ty = site.owner ∧ out.2.staticOnly = true)

/-- A member of a class is not selected by the name of the class again. -/
theorem typeQualifier?_named {env : ExprEnv} {e : Expr} (he : e.Named) (scope : Scope) :
    env.typeQualifier? scope e = none := by
  unfold ExprEnv.typeQualifier?
  rw [he.qualifiedName?]
  rfl

theorem checkReceiver_stays {target : Option Expr}
    (htarget : ∀ e, target = some e → (e.check ⟨site, s⟩).Clean scope
      (Stays site s t names hidden (check ⟨site, s⟩) scope))
    (hscope : scope.Inside s names) :
    (checkReceiver ⟨site, s⟩ target).Clean scope (StayReceiver site s t names hidden scope) := by
  cases target with
  | none =>
    refine clean_read_bind (clean_pure ⟨hscope, fun e he => ?_, fun _ => ?_⟩)
    · cases he
    · exact ⟨_, answers_read_bind answers_pure, .inl rfl⟩
  | some target =>
    refine clean_read_bind ?_
    cases hfound : ExprEnv.typeQualifier? ⟨site, s⟩ scope target with
    | some owner =>
      refine clean_pure ⟨hscope, fun e he => ?_, fun _ => ?_⟩
      · cases he
      · exact ⟨_, answers_read_bind answers_pure, .inr ⟨rfl, rfl, rfl⟩⟩
    | none =>
      refine clean_bind (htarget target rfl) fun out after hout => clean_pure ⟨hout.inside, ?_, ?_⟩
      · rintro e ⟨⟩
        exact hout.named
      · intro hlasting
        refine ⟨_, answers_read_bind ?_, .inl rfl⟩
        rw [typeQualifier?_named hout.named]
        exact answers_bind (hout.answers (hlasting out rfl)) answers_pure

section

variable (hs : s.Founded) (hsite : site.Among fun ty => s.contains ty = true)

include hs hsite

/-- The type of an analyzed expression is registered. -/
theorem contains_check (e : Expr) (hscope : scope.Inside s names) :
    s.contains ((e.check ⟨site, s⟩).run scope).value.tyOrAny = true := by
  have hshare : ∀ ty, s.contains ty = true → s.Share s ty := fun ty hty => ⟨hty, hty⟩
  exact ((e.check_same hs.agree (hsite.mono hshare) fun _ _ _ _ => trivial) scope
    (hscope.among.mono hshare)).2.2.1

theorem checkList_stays {args : List Expr}
    (hargs : ∀ a ∈ args, ∀ scope : Scope, scope.Inside s names → (a.check ⟨site, s⟩).Clean scope
      (Stays site s t names hidden (check ⟨site, s⟩) scope))
    (hscope : scope.Inside s names) :
    (checkList ⟨site, s⟩ args).Clean scope (StayList site s t names hidden scope) := by
  induction args generalizing scope with
  | nil =>
    exact clean_pure ⟨hscope, fun _ h => (List.not_mem_nil h).elim,
      fun _ h => (List.not_mem_nil h).elim, fun _ => answers_pure⟩
  | cons first rest ih =>
    unfold checkList
    refine clean_bind ((hargs first List.mem_cons_self scope hscope).and_value
      (P := fun out => s.contains out.tyOrAny = true) (contains_check hs hsite first hscope))
      fun one middle hfirst => ?_
    obtain ⟨hone, hknown⟩ := hfirst
    refine clean_bind (ih (fun a ha => hargs a (List.mem_cons_of_mem _ ha)) hone.inside)
      fun others after hothers => clean_pure ⟨hothers.inside, ?_, ?_, fun hlasting => ?_⟩
    · exact List.forall_mem_cons.mpr ⟨hone.named, hothers.named⟩
    · exact List.forall_mem_cons.mpr ⟨hknown, hothers.known⟩
    · obtain ⟨hfirst, hrest⟩ := List.forall_mem_cons.mp hlasting
      unfold checkList
      exact answers_bind (hone.answers hfirst) (answers_bind (hothers.answers hrest) answers_pure)

/-- Fields: what has become a simple name is found as one, since no local hides it. -/
theorem field_stays (hpart : s.PartOf t) (ht : t.Nested) {n : Node} {target : Expr}
    {text : String} {ref : Option FieldRef} (hhides : (field n target text ref).HidesIn names hidden)
    (htarget : (target.check ⟨site, s⟩).Clean scope
      (Stays site s t names hidden (check ⟨site, s⟩) scope))
    (hscope : scope.Inside s names) :
    ((field n target text ref).check ⟨site, s⟩).Clean scope
      (Stays site s t names hidden (check ⟨site, s⟩) scope) := by
  have hfound : ∀ found : FieldRef, found.isStatic = true →
      (ExprEnv.fieldName n text found).Lasting ⟨site, t⟩ hidden →
      (∀ d ∈ target.nodes, d.isAssignment = false)
        ∧ ((ExprEnv.fieldName n text found).check ⟨site, s⟩).Answers scope
          (ExprEnv.fieldName n text found) scope := by
    intro found hstatic hlasting
    have hself : lasts ⟨site, t⟩ hidden (ExprEnv.fieldName n text found) = true :=
      hlasting _ (mem_nodes_self _)
    rw [lasts_agree (hpart.agree hs ht) (hsite.mono fun _ => hpart.share) hidden
      fun _ hc => (List.not_mem_nil hc).elim] at hself
    obtain ⟨hfield, hhidden⟩ := Bool.and_eq_true_iff.mp hself
    obtain ⟨hlocal, hnone⟩ := hhides.shown fun hmem => by
      simp [hstatic, hmem] at hhidden
    have hread := ExprEnv.readName_static (n := { n with ty := some found.ty })
      (hscope.lookup?_eq_none hlocal) (eq_of_beq hfield) hstatic
    refine ⟨hnone, ?_⟩
    show Check.Answers (_ >>= _) _ _ _
    refine answers_read_bind ?_
    rw [hread]
    exact answers_note rfl
  rw [check_field]
  refine clean_read_bind ?_
  cases htype : ExprEnv.typeQualifier? ⟨site, s⟩ scope target with
  | some owner =>
    refine clean_note fun herrors => ?_
    obtain ⟨found, hstatic, hout⟩ := ExprEnv.staticField_ok herrors
    rw [hout]
    exact ⟨hscope, everywhere_leaf rfl rfl, fun hlasting => (hfound found hstatic hlasting).2⟩
  | none =>
    have hstill : (target.check ⟨site, s⟩).Clean scope fun out after =>
        Stays site s t names hidden (check ⟨site, s⟩) scope out after
          ∧ ((∀ d ∈ target.nodes, d.isAssignment = false) → after = scope) := fun herrors =>
      ⟨htarget herrors, fun hnone => (check_still ⟨site, s⟩ hnone scope).symm⟩
    refine clean_bind hstill fun out after hafter => clean_note fun herrors => ?_
    obtain ⟨hout, hsame⟩ := hafter
    rcases ExprEnv.selectField_ok herrors with ⟨found, hstatic, hvalue⟩ | ⟨hvalue, hlength⟩ | hall
    · rw [hvalue]
      refine ⟨hout.inside, everywhere_leaf rfl rfl, fun hlasting => ?_⟩
      obtain ⟨hnone, hanswers⟩ := hfound found hstatic hlasting
      rw [hsame hnone]
      exact hanswers
    · rw [hvalue]
      refine ⟨hout.inside, everywhere_one rfl rfl hout.named, fun hlasting => ?_⟩
      unfold check
      refine answers_bind (hout.answers (hlasting.child List.mem_cons_self)) ?_
      rw [hlength]
      exact answers_note rfl
    · obtain ⟨ty, found, hall⟩ := hall
      rw [hall]
      refine ⟨hout.inside, everywhere_one rfl rfl hout.named, fun hlasting => ?_⟩
      unfold check
      refine answers_read_bind ?_
      rw [typeQualifier?_named hout.named]
      refine answers_bind (hout.answers (hlasting.child List.mem_cons_self)) ?_
      rw [hall]
      exact answers_note rfl

omit hs hsite in
theorem assign_stays {n : Node} {op : AssignOp} {lhs rhs : Expr}
    (hlhs : (lhs.check ⟨site, s⟩).Clean scope
      (Stays site s t names hidden (check ⟨site, s⟩) scope))
    (hrhs : ∀ before : Scope, before.Inside s names → (rhs.check ⟨site, s⟩).Clean before
      (Stays site s t names hidden (check ⟨site, s⟩) before))
    (hscope : scope.Inside s names) :
    ((assign n op lhs rhs).check ⟨site, s⟩).Clean scope
      (Stays site s t names hidden (check ⟨site, s⟩) scope) := by
  rw [check_assign]
  refine clean_bind (checkTarget_stays hscope hlhs) fun l middle hl => ?_
  by_cases hplace : l.isAssignable = true
  · rw [if_pos hplace]
    have hl := hl hplace
    refine clean_bind (hrhs middle hl.inside) fun r last hr => ?_
    obtain ⟨after, hmark, hinside⟩ : ∃ after, l.markAssigned.Answers last () after
        ∧ (last.Inside s names → after.Inside s names) := answers_markAssigned l last
    have hmarked : l.markAssigned.Clean last fun _ end' => end' = after := fun _ =>
      congrArg Checked.state hmark
    refine clean_bind hmarked fun _ end' hend => ?_
    subst hend
    refine clean_note fun herrors => ?_
    show Stays _ _ _ _ _ _ _ (assign _ op l (judgeAssign s op l r n.line).1) _
    have hnamed : (judgeAssign s op l r n.line).1.Named := by
      unfold judgeAssign
      dsimp only
      split
      · exact hr.named
      · exact everywhere_two rfl rfl hl.named hr.named
      · exact hr.named
      · split <;> exact hr.named
    refine ⟨hinside hr.inside, everywhere_two rfl rfl hl.named hnamed, fun hlasting => ?_⟩
    have hself := hlasting _ (mem_nodes_self _)
    have hstored : (judgeAssign s op l r n.line).1 = r := by
      refine judgeAssign_fst s r n.line ?_
      rintro ⟨rfl, hstring⟩
      simp [lasts, hstring] at hself
    have hleft := hl.answers (hlasting.child List.mem_cons_self)
    have hright := hlasting.child (List.mem_cons_of_mem _ List.mem_cons_self)
    rw [hstored] at hright ⊢
    rw [check_assign]
    refine answers_bind hleft ?_
    rw [if_pos hplace]
    refine answers_bind (hr.answers hright) (answers_bind hmark ?_)
    show (Check.note (assign _ op l (judgeAssign s op l r n.line).1) _).Answers _ _ _
    rw [hstored]
    exact answers_note herrors
  · rw [if_neg hplace]
    exact clean_bind (Q := fun _ _ => False) (clean_report _) fun _ _ hfalse => hfalse.elim

omit hs hsite in
theorem increment_stays {n : Node} {op : IncrementOp} {operand : Expr}
    (hoperand : (operand.check ⟨site, s⟩).Clean scope
      (Stays site s t names hidden (check ⟨site, s⟩) scope))
    (hscope : scope.Inside s names) :
    ((increment n op operand).check ⟨site, s⟩).Clean scope
      (Stays site s t names hidden (check ⟨site, s⟩) scope) := by
  rw [check_increment]
  refine clean_bind (checkTarget_stays hscope hoperand) fun out after hout => ?_
  by_cases hplace : out.isAssignable = true
  · rw [if_pos hplace]
    have hout := hout hplace
    refine clean_note fun herrors => ⟨hout.inside, everywhere_one rfl rfl hout.named,
      fun hlasting => ?_⟩
    rw [check_increment]
    refine answers_bind (hout.answers (hlasting.child List.mem_cons_self)) ?_
    rw [if_pos hplace]
    exact answers_note herrors
  · rw [if_neg hplace]
    refine clean_note fun herrors => ?_
    cases herrors

/-- Calls: a method of a named class is found in the enclosing one. -/
theorem call_stays (hpart : s.PartOf t) (ht : t.Nested) {n : Node} {target : Option Expr}
    {text : String} {args : List Expr} {method : Option MethodRef}
    (htarget : ∀ e, target = some e → (e.check ⟨site, s⟩).Clean scope
      (Stays site s t names hidden (check ⟨site, s⟩) scope))
    (hargs : ∀ a ∈ args, ∀ scope : Scope, scope.Inside s names → (a.check ⟨site, s⟩).Clean scope
      (Stays site s t names hidden (check ⟨site, s⟩) scope))
    (hscope : scope.Inside s names) :
    ((call n target text args method).check ⟨site, s⟩).Clean scope
      (Stays site s t names hidden (check ⟨site, s⟩) scope) := by
  rw [check_call]
  refine clean_bind (checkReceiver_stays htarget hscope) fun receiver middle hreceiver => ?_
  refine clean_bind (checkList_stays hs hsite hargs hreceiver.inside) fun args after hargs => ?_
  refine clean_note fun herrors => ?_
  have hchildren : ∀ m ref, (call m receiver.1 text args ref).children
      = receiver.1.toList ++ args := fun _ _ => rfl
  have hnamed : ∀ m ref, (call m receiver.1 text args ref).Named := by
    refine fun m ref => everywhere_of_children rfl fun c hc => ?_
    rcases List.mem_append.mp hc with hc | hc
    · exact hreceiver.named c (Option.mem_toList.mp hc)
    · exact hargs.named c hc
  -- the second analysis comes as far as the choice of the method
  have hagain : ∀ m ref, (call m receiver.1 text args ref).Lasting ⟨site, t⟩ hidden →
      ∃ found : ExprEnv.Receiver,
        (found = receiver.2
          ∨ receiver.1 = none ∧ found.ty = site.owner ∧ receiver.2.staticOnly = true)
        ∧ ∀ out, ExprEnv.selectMethod ⟨site, s⟩ found m receiver.1 text args = (out, []) →
          ((call m receiver.1 text args ref).check ⟨site, s⟩).Answers scope out after := by
    intro m ref hlasting
    obtain ⟨found, hfound, hsame⟩ := hreceiver.answers fun e he =>
      hlasting.child (List.mem_append_left _ (Option.mem_toList.mpr he))
    refine ⟨found, hsame, fun out hout => ?_⟩
    rw [check_call]
    refine answers_bind hfound (answers_bind (hargs.answers fun a ha =>
      hlasting.child (List.mem_append_right _ ha)) ?_)
    dsimp only
    rw [hout]
    exact answers_note rfl
  rcases ExprEnv.selectMethod_ok herrors with ⟨hany, hall⟩ | ⟨ref, honly, hall⟩
  · rw [hall]
    refine ⟨hargs.inside, hnamed _ _, fun hlasting => ?_⟩
    obtain ⟨found, hsame, hdone⟩ := hagain _ _ hlasting
    refine hdone _ ?_
    rcases hsame with rfl | ⟨hnone, howner, -⟩
    · exact hall _
    · have hself := hlasting _ (mem_nodes_self _)
      rw [hnone] at hself ⊢
      have hfound : found.ty = .any := howner.trans (eq_of_beq hself)
      unfold ExprEnv.selectMethod
      exact if_pos hfound
  · rw [hall]
    refine ⟨hargs.inside, hnamed _ _, fun hlasting => ?_⟩
    obtain ⟨found, hsame, hdone⟩ := hagain _ _ hlasting
    refine hdone _ ?_
    rcases hsame with rfl | ⟨hnone, howner, hstatic⟩
    · exact hall _
    · have hself : lasts ⟨site, t⟩ hidden _ = true := hlasting _ (mem_nodes_self _)
      rw [hnone] at hself ⊢
      have hshared : ∀ a ∈ children (call { n with ty := some ref.returnTy } none text args ref),
          a.Shared s t := fun a ha => hpart.share (hargs.known a ha)
      rw [lasts_agree (hpart.agree hs ht) (hsite.mono fun _ => hpart.share) hidden hshared] at hself
      obtain ⟨hany, hmethod⟩ := Bool.and_eq_true_iff.mp hself
      obtain ⟨ty, staticOnly⟩ := found
      subst howner
      exact ExprEnv.selectMethod_own (bne_iff_ne.mp hany) (eq_of_beq hmethod) (honly hstatic)

/-- An analyzed expression stays as it is, if it lasts. -/
theorem check_stays (hpart : s.PartOf t) (ht : t.Nested) (e : Expr) (he : e.HidesIn names hidden)
    (scope : Scope) (hscope : scope.Inside s names) :
    (e.check ⟨site, s⟩).Clean scope (Stays site s t names hidden (check ⟨site, s⟩) scope) := by
  induction e using Expr.induction generalizing scope with
  | literal n value =>
    exact clean_pure ⟨hscope, everywhere_leaf rfl rfl, fun _ => answers_pure⟩
  | name n text binding =>
    unfold check
    refine clean_read_bind (clean_note fun herrors => ?_)
    obtain ⟨ty, found, hall⟩ := ExprEnv.readName_ok herrors
    show Stays _ _ _ _ _ _ _ (ExprEnv.readName ⟨site, s⟩ scope n text).1 _
    rw [hall]
    refine ⟨hscope, everywhere_leaf rfl rfl, fun _ => ?_⟩
    unfold check
    refine answers_read_bind ?_
    rw [hall]
    exact answers_note rfl
  | self n =>
    unfold check
    refine clean_read_bind (clean_note fun herrors => ⟨hscope, everywhere_leaf rfl rfl, fun _ => ?_⟩)
    unfold check
    exact answers_read_bind (answers_note herrors)
  | field n target text ref ih =>
    exact field_stays hs hsite hpart ht he (ih (he.child List.mem_cons_self) scope hscope) hscope
  | length n operand ih | unary n op operand ih =>
    unfold check
    refine check_one_stays (ih (he.child List.mem_cons_self) scope hscope)
      fun a => ⟨_, _, rfl, rfl, rfl, ?_⟩
    conv => lhs; unfold check
    rfl
  | not n operand ih =>
    unfold check
    refine check_one_stays (ih (he.child List.mem_cons_self) scope hscope)
      fun a => ⟨_, _, rfl, rfl, rfl, ?_⟩
    conv => lhs; unfold check
  | binary n op lhs rhs ihl ihr =>
    unfold check
    refine check_two_stays (ihl (he.child List.mem_cons_self) scope hscope)
      (ihr (he.child (List.mem_cons_of_mem _ List.mem_cons_self))) fun l r => ?_
    by_cases hconcat : isConcatenation op l r = true
    · refine ⟨_, _, ?_, if_pos hconcat, rfl, rfl, ?_, ?_⟩
      rotate_left
      · conv => lhs; unfold check
      · rfl
    · refine ⟨_, _, ?_, if_neg hconcat, rfl, rfl, ?_, ?_⟩
      rotate_left
      · conv => lhs; unfold check
      · exact if_neg hconcat
  | index n lhs rhs ihl ihr | compare n op lhs rhs ihl ihr | equality n op lhs rhs ihl ihr
  | logical n op lhs rhs ihl ihr | concat n lhs rhs ihl ihr =>
    unfold check
    refine check_two_stays (ihl (he.child List.mem_cons_self) scope hscope)
      (ihr (he.child (List.mem_cons_of_mem _ List.mem_cons_self)))
      fun l r => ⟨_, _, ?_, rfl, rfl, rfl, ?_, ?_⟩
    rotate_left
    · conv => lhs; unfold check
    · rfl
  | assign n op lhs rhs ihl ihr =>
    exact assign_stays (ihl (he.child List.mem_cons_self) scope hscope)
      (ihr (he.child (List.mem_cons_of_mem _ List.mem_cons_self))) hscope
  | increment n op operand ih =>
    exact increment_stays (ih (he.child List.mem_cons_self) scope hscope) hscope
  | call n target text args method ihtarget ihargs =>
    exact call_stays hs hsite hpart ht
      (fun e hsome => ihtarget e hsome (he.child (List.mem_append_left _
        (Option.mem_toList.mpr hsome))) scope hscope)
      (fun a ha => ihargs a ha (he.child (List.mem_append_right _ ha))) hscope

/-- In a registry that knows more, an analyzed expression that lasts is analyzed as before. -/
theorem check_again (ht : t.Nested) (e : Expr) (he : e.HidesIn names hidden)
    (hscope : scope.Inside s names) :
    (e.check ⟨site, s⟩).Clean scope fun out after => after.Inside s names
      ∧ s.contains out.tyOrAny = true
      ∧ (s.PartOf t → out.Lasting ⟨site, t⟩ hidden →
        (out.check ⟨site, t⟩).Answers scope out after) := by
  intro herrors
  have hinside := (check_stays hs hsite (.refl s) hs.closed.nested e he scope hscope herrors).inside
  refine ⟨hinside, contains_check hs hsite e hscope, fun hpart hlasting => ?_⟩
  have hstays := check_stays hs hsite hpart ht e he scope hscope herrors
  have hshare : ∀ ty, s.contains ty = true → s.Share t ty := fun _ => hpart.share
  obtain ⟨hsame, -⟩ := check_same (hpart.agree hs ht) (hsite.mono hshare) _
    hstays.named.qualifiedBy scope (hscope.among.mono hshare)
  exact hsame.trans (hstays.answers hlasting)

end

end Expr

end ClassCompiler
