import ClassCompiler.Proofs.Body.Shared
import ClassCompiler.Proofs.Unit.Order

/-!
# What bodies learn

A body may make array types known, and that is all that it leaves in the registry. So the analysis
of a method starts from a registry that stubbing has made, with some arrays added by the bodies
before it. Whichever they are, the analysis comes to the same, and adds some more.

* `Setting.Stubbed`: the registries that bodies may start from
* `Setting.Both.agree`: such registries agree
* `Stmt.check_agrees`, `MethodDecl.check_agrees`
-/

namespace ClassCompiler

open Check BodyState

/-! ## Registries that know different arrays -/

namespace Setting

/-- All classes have their supertypes, so that only arrays are added. -/
structure Stubbed (setting : Setting) : Prop extends setting.Regular where
  done : setting.classes = []
  fixed : ∀ ty ∈ Prim.all.map Ty.prim ++ [.null, .string], setting.base.contains ty = true

/-- The name is not taken for that of an array. -/
def Clear (setting : Setting) (name : String) : Prop :=
  ∀ array ∈ setting.arrays, Ty.named (Registry.internalForm name) ≠ Ty.named array.internalName

variable {setting : Setting} {s t : Registry}

theorem Both.share (h : setting.Both [] s t) {ty : Ty} (hty : setting.base.contains ty = true) :
    s.Share t ty := ⟨h.one.contains hty, h.two.contains hty⟩

theorem Stubbed.ancestors (hsetting : setting.Stubbed) (h : setting.Both [] s t) {ty : Ty}
    (hty : s.Share t ty) : t.ancestors ty = s.ancestors ty := by
  have hclasses : ∀ ancestor, s.Inherits ty ancestor → ancestor ∉ setting.classes := by
    intro ancestor _
    rw [hsetting.done]
    exact List.not_mem_nil
  refine Registry.ancestors_congr fun ancestor hancestor => ?_
  obtain ⟨hcontains, hcontains'⟩ := Admits.contains_of_inherits hsetting.toRegular h.one h.two
    hty.1 hty.2 hclasses hancestor
  obtain ⟨entry, hentry⟩ := Registry.contains_iff.mp hcontains
  obtain ⟨entry', hentry'⟩ := Registry.contains_iff.mp hcontains'
  have hsame := (Admits.agree hsetting.toRegular h.one h.two hentry hentry').2.2
    (hclasses ancestor hancestor)
  unfold Registry.supertypes
  rw [hentry, hentry', hsame]

/-- Whatever arrays two registries know, they agree. -/
theorem Both.agree (hsetting : setting.Stubbed) (h : setting.Both [] s t) :
    s.Agree setting.Clear t := by
  have hregular := hsetting.toRegular
  have hkind : ∀ ty, s.Share t ty → t.kind? ty = s.kind? ty := fun ty hty =>
    h.one.kind? hregular h.two hty.1 hty.2
  refine ⟨fun p => h.share (hsetting.fixed _ ?_), fun ty hty => h.share ?_, fun name hname => ?_,
    hkind, fun ty element hty helement => ?_, fun ty hty => ?_, fun ty hty => ?_,
    fun target source htarget hsource => ?_⟩
  · exact List.mem_append_left _ (List.mem_map_of_mem (by cases p <;> decide))
  · rcases List.mem_cons.mp hty with rfl | hty
    · exact hregular.closed.roots .any (by simp)
    · exact hsetting.fixed ty (List.mem_append_right _ hty)
  · have hone := h.one.lookup? hname
    have htwo := h.two.lookup? hname
    refine ⟨htwo.trans hone.symm, fun ty hty => ?_⟩
    exact h.share (hregular.closed.lookup? (hone.symm.trans hty))
  · have harray := Registry.elementType?_eq_some_iff.mp helement
    obtain ⟨rank, hrank⟩ := h.one.nested
    obtain ⟨rank', hrank'⟩ := h.two.nested
    exact ⟨(hrank ty element harray).1, (hrank' ty element ((hkind ty hty).trans harray)).1⟩
  · exact h.one.displayName hregular h.two hty.1 hty.2
  · exact hsetting.ancestors h hty
  · exact Registry.isAssignableFrom_agree h.one.nested h.two.nested
      (fun ty hs ht => hkind ty ⟨hs, ht⟩) (fun ty hs ht => hsetting.ancestors h ⟨hs, ht⟩)
      htarget hsource

end Setting

/-! ## States of a body -/

theorem ClassInfo.Among.mono {P Q : Ty → Prop} {info : ClassInfo} (h : info.Among P)
    (himp : ∀ ty, P ty → Q ty) : info.Among Q :=
  ⟨himp _ h.ty, fun field hfield => himp _ (h.fields field hfield),
    fun method hmethod ty hty => himp _ (h.params method hmethod ty hty),
    fun method hmethod => himp _ (h.results method hmethod)⟩

theorem Site.Among.mono {P Q : Ty → Prop} {site : Site} (h : site.Among P)
    (himp : ∀ ty, P ty → Q ty) : site.Among Q :=
  ⟨fun info hinfo => (h.classes info hinfo).mono himp, himp _ h.owner⟩

namespace Scope.Among

variable {P Q : Ty → Prop} {scope after : Scope}

theorem mono (h : scope.Among P) (himp : ∀ ty, P ty → Q ty) : scope.Among Q :=
  ⟨⟨fun pair hpair => himp _ (h.visible pair hpair),
    fun entry hentry => himp _ (h.shadowed entry hentry)⟩, himp _ h.returnTy⟩

theorem popFrame (h : scope.Among P) : scope.popFrame.Among P := ⟨h.toHolds.popFrame, h.returnTy⟩

theorem declareLocal {name : String} {ty : Ty} {line slot : Nat} (h : scope.Among P) (hty : P ty)
    (hok : scope.declareLocal name ty line = .ok (slot, after)) : after.Among P := by
  obtain ⟨-, -, -, -, hreturn, hholds⟩ := declareLocal_ok hok
  refine ⟨hholds _ h.toHolds fun var hvar => ?_, hreturn ▸ h.returnTy⟩
  have htype : var.ty = ty := congrArg Local.ty hvar
  exact htype ▸ hty

theorem declareParam {name : String} {ty : Ty} {line slot : Nat} (h : scope.Among P) (hty : P ty)
    (hok : scope.declareParam name ty line = .ok (slot, after)) : after.Among P := by
  obtain ⟨-, -, -, -, hreturn, hholds⟩ := declareParam_ok hok
  refine ⟨hholds _ h.toHolds fun var hvar => ?_, hreturn ▸ h.returnTy⟩
  have htype : var.ty = ty := congrArg Local.ty hvar
  exact htype ▸ hty

end Scope.Among

/-- The same scope over two registries that bodies may have come to. -/
structure BodyState.Alike (setting : Setting) (a b : BodyState) : Prop where
  both : setting.Both [] a.registry b.registry
  scope_eq : b.scope = a.scope
  scope : a.scope.Among (a.registry.Share b.registry)

/-- The two states agree on everything that counts for the steps of a body. -/
abbrev Check.Consistent {α : Type} (setting : Setting) (step : Check BodyState α) : Prop :=
  step.Agrees (fun _ => true) (Alike setting) fun _ => Alike setting

namespace BodyState

variable {setting : Setting}

theorem consistent_changeScope {change : Scope → Scope}
    (h : ∀ P scope, Scope.Among P scope → (change scope).Among P) :
    (changeScope change).Consistent setting := by
  rintro a b ⟨hboth, heq, hscope⟩
  exact ⟨rfl, rfl, hboth, congrArg change heq, h _ _ hscope⟩

theorem consistent_setReturned (returned : Bool) : (setReturned returned).Consistent setting :=
  consistent_changeScope fun _ _ h => ⟨⟨h.visible, h.shadowed⟩, h.returnTy⟩

theorem consistent_pushFrame : (changeScope Scope.pushFrame).Consistent setting :=
  consistent_changeScope fun _ _ h => ⟨⟨h.visible, h.shadowed⟩, h.returnTy⟩

theorem consistent_popFrame : (changeScope Scope.popFrame).Consistent setting :=
  consistent_changeScope fun _ _ h => h.popFrame

theorem consistent_enterLoop : (changeScope Scope.enterLoop).Consistent setting :=
  consistent_changeScope fun _ _ h => ⟨⟨h.visible, h.shadowed⟩, h.returnTy⟩

/-- What is read from the scope alone. -/
theorem consistent_read {α : Type} (view : Scope → α) :
    (Check.read fun state : BodyState => view state.scope).Consistent setting :=
  agrees_read fun _ _ hst => congrArg view hst.scope_eq

theorem consistent_exitLoop : exitLoop.Consistent setting := by
  rintro a b ⟨hboth, heq, hscope⟩
  refine ⟨congrArg (fun scope : Scope => scope.exitLoop.1) heq, rfl, hboth,
    congrArg (fun scope : Scope => scope.exitLoop.2) heq, ⟨hscope.visible, hscope.shadowed⟩,
    hscope.returnTy⟩

theorem consistent_onScope (hsetting : setting.Stubbed) {site : Site}
    (hsite : site.Among fun ty => setting.base.contains ty = true) {α : Type}
    {step : ExprEnv → Check Scope α}
    (h : ∀ s t : Registry, s.Agree setting.Clear t → site.Among (s.Share t) →
      (step ⟨site, s⟩).Same (step ⟨site, t⟩) (Scope.Among (s.Share t)) fun _ => True) :
    (onScope site step).Consistent setting := by
  rintro ⟨s, scope⟩ ⟨t, scope'⟩ ⟨hboth, heq, hscope⟩
  cases heq
  obtain ⟨hrun, hafter, -⟩ := h s t (hboth.agree hsetting)
    (hsite.mono fun ty hty => hboth.share hty) scope hscope
  unfold onScope Check.run at *
  dsimp only at *
  rw [hrun]
  exact ⟨rfl, rfl, hboth, rfl, hafter⟩

theorem resolve_agrees (hsetting : setting.Stubbed) {name : TypeName}
    (hname : setting.Allows name) (valueOnly : Bool) :
    (resolve valueOnly name).Agrees (fun _ => true) (Alike setting) fun ty a b =>
      Alike setting a b ∧ a.registry.Share b.registry ty := by
  rintro ⟨s, scope⟩ ⟨t, scope'⟩ ⟨hboth, heq, hscope⟩
  cases heq
  obtain ⟨hvalue, herrors, hlater, -⟩ :=
    resolveName_agrees hsetting.toRegular [] hname valueOnly s t hboth
  have hs := Registry.below_resolveOrAny s valueOnly name
  have ht := Registry.below_resolveOrAny t valueOnly name
  refine ⟨hvalue, herrors, ⟨hlater.less fun _ hty => (List.not_mem_nil hty).elim, rfl, ?_⟩,
    hlater.contains _ List.mem_cons_self⟩
  exact hscope.mono fun ty hty => ⟨hs.contains hty.1, ht.contains hty.2⟩

theorem declareLocal_agrees (name : String) (ty : Ty) (line : Nat) :
    (declareLocal name ty line).Agrees (fun _ => true)
      (fun a b => Alike setting a b ∧ a.registry.Share b.registry ty)
      fun _ a b => Alike setting a b ∧ a.registry.Share b.registry ty := by
  rintro ⟨s, scope⟩ ⟨t, scope'⟩ ⟨⟨hboth, heq, hscope⟩, hty⟩
  cases heq
  unfold declareLocal Check.run
  dsimp only
  cases hok : scope.declareLocal name ty line with
  | error error => exact ⟨rfl, rfl, ⟨hboth, rfl, hscope⟩, hty⟩
  | ok found => exact ⟨rfl, rfl, ⟨hboth, rfl, hscope.declareLocal hty hok⟩, hty⟩

theorem declareParam_agrees (name : String) (ty : Ty) (line : Nat)
    (hbase : setting.base.contains ty = true) :
    (declareParam name ty line).Consistent setting := by
  rintro ⟨s, scope⟩ ⟨t, scope'⟩ ⟨hboth, heq, hscope⟩
  cases heq
  unfold declareParam Check.run
  dsimp only
  cases hok : scope.declareParam name ty line with
  | error error => exact ⟨rfl, rfl, hboth, rfl, hscope⟩
  | ok found => exact ⟨rfl, rfl, hboth, rfl, hscope.declareParam (hboth.share hbase) hok⟩

end BodyState

/-! ## Statements -/

namespace Stmt

theorem decls_subset {s t : Stmt} (ht : t ∈ s.children) : t.decls ⊆ s.decls := by
  cases s with
  | block stmts line => exact fun d hd => mem_declsList.mpr ⟨t, ht, hd⟩
  | branch condition onTrue onFalse line =>
    rw [decls_branch]
    rcases List.mem_cons.mp ht with rfl | ht
    · exact List.subset_append_left _ _
    · rw [Option.mem_toList.mp ht]
      exact List.subset_append_right _ _
  | whileLoop condition body line =>
    rw [List.mem_singleton.mp ht]
    exact fun _ h => h
  | forLoop init condition update body line =>
    rw [List.mem_singleton.mp ht]
    exact List.subset_append_right _ _
  | declare | expr | ret | «break» | «continue» | empty => exact (List.not_mem_nil ht).elim

/-- The names in a statement mean in all registries of the setting what they mean in its base. -/
structure Suits (setting : Setting) (s : Stmt) : Prop where
  spells : s.Everywhere fun d => ∀ name, d.qualifier? = some name → setting.Clear name
  types : ∀ decl ∈ s.decls, setting.Allows decl.type

variable {setting : Setting}

theorem Suits.child {s t : Stmt} (h : s.Suits setting) (ht : t ∈ s.children) : t.Suits setting :=
  ⟨h.spells.child ht, fun decl hdecl => h.types decl (decls_subset ht hdecl)⟩

end Stmt

section

variable {setting : Setting} (hsetting : setting.Stubbed) {site : Site}
  (hsite : site.Among fun ty => setting.base.contains ty = true)

include hsetting hsite

namespace Expr

theorem checkCondition_consistent {e : Expr} (he : e.QualifiedBy setting.Clear) :
    (e.checkCondition site).Consistent setting := by
  refine consistent_onScope hsetting hsite fun s t h hshared =>
    same_bind (check_same h hshared e he) fun out hout => ?_
  rw [expectBoolean_agree h hout]
  exact same_note trivial

theorem checkStatement_consistent {e : Expr} (he : e.QualifiedBy setting.Clear) :
    (e.checkStatement site).Consistent setting :=
  consistent_onScope hsetting hsite fun _ _ h hshared =>
    same_bind (same_reportAll _) fun _ _ =>
      (check_same h hshared _ (he.withNode _)).mono fun _ _ => trivial

theorem checkStatements_consistent {es : List Expr} (hes : ∀ e ∈ es, e.QualifiedBy setting.Clear) :
    (checkStatements site es).Consistent setting := by
  induction es with
  | nil => exact agrees_pure fun _ _ hst => hst
  | cons first rest ih =>
    unfold checkStatements
    exact agrees_bind (checkStatement_consistent hsetting hsite (hes first List.mem_cons_self))
      fun one => agrees_bind (ih fun e he => hes e (List.mem_cons_of_mem _ he)) fun others =>
      agrees_pure fun _ _ hst => hst

end Expr

/-! Locals have a type that both states know. -/

theorem Declarator.check_agrees (ty : Ty) {declarator : Declarator}
    (hinit : ∀ e ∈ declarator.init, e.QualifiedBy setting.Clear) :
    (declarator.check site ty).Agrees (fun _ => true)
      (fun a b => Alike setting a b ∧ a.registry.Share b.registry ty)
      fun _ a b => Alike setting a b ∧ a.registry.Share b.registry ty := by
  unfold check
  refine agrees_bind (declareLocal_agrees _ ty _) fun slot => ?_
  cases hsome : declarator.init with
  | none => exact agrees_pure fun _ _ hst => hst
  | some init =>
    have hassignment : (declarator.assignment init).QualifiedBy setting.Clear := by
      refine Expr.everywhere_of_children (fun name hname => by cases hname) fun c hc => ?_
      rcases List.mem_pair.mp hc with rfl | rfl
      · refine Expr.everywhere_of_children (fun name hname => by cases hname) fun d hd => ?_
        exact (List.not_mem_nil hd).elim
      · exact hinit _ hsome
    have hconsistent : (onScope site fun env =>
        (declarator.assignment init).check env).Consistent setting :=
      consistent_onScope hsetting hsite fun _ _ h hshared =>
        (Expr.check_same h hshared _ hassignment).mono fun _ _ => trivial
    -- the registry stays, so both states still know the type
    have hstep : (onScope site fun env => (declarator.assignment init).check env).Agrees
        (fun _ => true) (fun a b => Alike setting a b ∧ a.registry.Share b.registry ty)
        fun _ a b => Alike setting a b ∧ a.registry.Share b.registry ty := by
      rintro a b ⟨hst, hty⟩
      obtain ⟨hvalue, herrors, hafter⟩ := hconsistent a b hst
      exact ⟨hvalue, herrors, hafter, hty⟩
    exact agrees_bind hstep fun out => agrees_pure fun _ _ hst => hst

theorem Declarator.checkList_agrees (ty : Ty) {declarators : List Declarator}
    (hinits : ∀ declarator ∈ declarators, ∀ e ∈ declarator.init, e.QualifiedBy setting.Clear) :
    (checkList site ty declarators).Agrees (fun _ => true)
      (fun a b => Alike setting a b ∧ a.registry.Share b.registry ty)
      fun _ a b => Alike setting a b ∧ a.registry.Share b.registry ty := by
  induction declarators with
  | nil => exact agrees_pure fun _ _ hst => hst
  | cons first rest ih =>
    unfold checkList
    exact agrees_bind (check_agrees hsetting hsite ty (hinits first List.mem_cons_self))
      fun one => agrees_bind (ih fun d hd => hinits d (List.mem_cons_of_mem _ hd)) fun others =>
      agrees_pure fun _ _ hst => hst

theorem LocalDecl.check_consistent {decl : LocalDecl} (htype : setting.Allows decl.type)
    (hroots : ∀ e ∈ decl.roots, e.QualifiedBy setting.Clear) :
    (decl.check site).Consistent setting := by
  have hinits : ∀ declarator ∈ decl.declarators, ∀ e ∈ declarator.init, e.QualifiedBy setting.Clear := by
    intro declarator hdeclarator e he
    exact hroots e (List.mem_append_left _ (List.mem_flatMap.mpr
      ⟨declarator, hdeclarator, Option.mem_toList.mpr he⟩))
  unfold check
  exact agrees_bind (resolve_agrees hsetting htype true) fun ty =>
    agrees_bind (Declarator.checkList_agrees hsetting hsite ty hinits) fun out =>
    agrees_pure fun _ _ hst => hst.1

theorem ForInit.check_consistent {init : ForInit}
    (htypes : ∀ decl ∈ init.decls, setting.Allows decl.type)
    (hroots : ∀ e ∈ init.roots, e.QualifiedBy setting.Clear) : (init.check site).Consistent setting := by
  cases init with
  | exprs es => exact agrees_map (Expr.checkStatements_consistent hsetting hsite hroots)
  | decl d =>
    exact agrees_map (LocalDecl.check_consistent hsetting hsite (htypes d List.mem_cons_self) hroots)

omit hsetting hsite in
theorem checkBreak_consistent (line : Nat) : (checkBreak line).Consistent setting := by
  rintro ⟨s, scope⟩ ⟨t, scope'⟩ ⟨hboth, heq, hscope⟩
  cases heq
  unfold checkBreak Check.run
  dsimp only
  cases hbreak : scope.noteBreak? with
  | none => exact ⟨rfl, rfl, hboth, rfl, hscope⟩
  | some after =>
    have hafter : after.Among (s.Share t) := by
      unfold Scope.noteBreak? at hbreak
      split at hbreak <;> cases hbreak
      exact ⟨⟨hscope.visible, hscope.shadowed⟩, hscope.returnTy⟩
    exact ⟨rfl, rfl, hboth, rfl, hafter⟩

omit hsetting hsite in
theorem checkContinue_consistent (line : Nat) : (checkContinue line).Consistent setting :=
  agrees_bind (consistent_read Scope.inLoop) fun _ => agrees_reportAll _

theorem checkReturn_consistent {value : Option Expr}
    (hvalue : ∀ e, value = some e → e.QualifiedBy setting.Clear) (line : Nat) :
    (checkReturn site value line).Consistent setting := by
  rw [checkReturn_eq]
  refine agrees_bind (consistent_onScope hsetting hsite fun s t h hshared =>
    same_bind (same_optional fun e he => Expr.check_same h hshared e (hvalue e he))
      fun out hout => same_bind (same_read fun scope hscope => ⟨rfl, hscope.returnTy⟩)
      fun returnTy hreturn => ?_) fun out =>
    agrees_bind (consistent_setReturned true) fun _ => agrees_pure fun _ _ hst => hst
  rw [returnErrors_agree h hreturn hout]
  exact same_note trivial

namespace Stmt

omit hsetting hsite in
theorem checkList_consistent {stmts : List Stmt}
    (h : ∀ s ∈ stmts, (s.check site).Consistent setting) :
    (checkList site stmts).Consistent setting := by
  induction stmts with
  | nil => exact agrees_pure fun _ _ hst => hst
  | cons first rest ih =>
    unfold checkList
    exact agrees_bind (h first List.mem_cons_self) fun one =>
      agrees_bind (ih fun s hs => h s (List.mem_cons_of_mem _ hs)) fun others =>
      agrees_pure fun _ _ hst => hst

/-- A statement does not tell apart what the bodies before it have learned. -/
theorem check_consistent (s : Stmt) (hs : s.Suits setting) :
    (s.check site).Consistent setting := by
  induction s using Stmt.induction with
  | block stmts line ih =>
    unfold check
    exact agrees_bind consistent_pushFrame fun _ =>
      agrees_bind (checkList_consistent fun s hmem => ih s hmem (hs.child hmem)) fun out =>
      agrees_bind consistent_popFrame fun _ => agrees_pure fun _ _ hst => hst
  | declare decl =>
    exact agrees_map (LocalDecl.check_consistent hsetting hsite (hs.types decl List.mem_cons_self)
      fun e he => hs.spells.root he)
  | expr e line =>
    unfold check
    exact agrees_bind (Expr.checkStatement_consistent hsetting hsite
      (hs.spells.root List.mem_cons_self)) fun out => agrees_pure fun _ _ hst => hst
  | branch condition onTrue onFalse line ihTrue ihFalse =>
    have hfalse : ∀ s, onFalse = some s → s.Suits setting := by
      rintro s rfl
      exact hs.child (by simp [children])
    rw [check_branch]
    exact agrees_bind (Expr.checkCondition_consistent hsetting hsite
        (hs.spells.root List.mem_cons_self)) fun c =>
      agrees_bind (consistent_read Scope.hasReturned) fun before =>
      agrees_bind (ihTrue (hs.child List.mem_cons_self)) fun one =>
      agrees_bind (consistent_read Scope.hasReturned) fun trueReturns =>
      agrees_bind (consistent_setReturned before) fun _ =>
      agrees_bind (agrees_optional fun s hsome => ihFalse s hsome (hfalse s hsome)) fun two =>
      agrees_bind (consistent_read Scope.hasReturned) fun falseReturns =>
      agrees_bind (consistent_setReturned _) fun _ => agrees_pure fun _ _ hst => hst
  | whileLoop condition body line ih =>
    unfold check
    exact agrees_bind (Expr.checkCondition_consistent hsetting hsite
        (hs.spells.root List.mem_cons_self)) fun c =>
      agrees_bind (consistent_read Scope.hasReturned) fun before =>
      agrees_bind consistent_enterLoop fun _ =>
      agrees_bind (ih (hs.child List.mem_cons_self)) fun b =>
      agrees_bind consistent_exitLoop fun hasBreak =>
      agrees_bind (consistent_setReturned _) fun _ => agrees_pure fun _ _ hst => hst
  | forLoop init condition update body line ih =>
    have hinit : ∀ i, init = some i → (i.check site).Consistent setting := by
      rintro i rfl
      refine ForInit.check_consistent hsetting hsite (fun decl hdecl => hs.types decl ?_)
        fun e he => hs.spells.root ?_
      · exact List.mem_append_left _ (List.mem_flatMap.mpr ⟨i, List.mem_singleton_self i, hdecl⟩)
      · exact List.mem_append_left _ (List.mem_append_left _
          (List.mem_flatMap.mpr ⟨i, List.mem_singleton_self i, he⟩))
    have hcondition : ∀ e, condition = some e → e.QualifiedBy setting.Clear := by
      rintro e rfl
      exact hs.spells.root (by simp [roots])
    rw [check_forLoop]
    exact agrees_bind consistent_pushFrame fun _ =>
      agrees_bind (agrees_optional hinit) fun i =>
      agrees_bind (agrees_optional fun e he =>
        Expr.checkCondition_consistent hsetting hsite (hcondition e he)) fun c =>
      agrees_bind (consistent_read Scope.hasReturned) fun before =>
      agrees_bind consistent_enterLoop fun _ =>
      agrees_bind (ih (hs.child List.mem_cons_self)) fun b =>
      agrees_bind consistent_exitLoop fun hasBreak =>
      agrees_bind (Expr.checkStatements_consistent hsetting hsite fun e he =>
        hs.spells.root (List.mem_append_right _ he)) fun u =>
      agrees_bind consistent_popFrame fun _ =>
      agrees_bind (consistent_setReturned _) fun _ => agrees_pure fun _ _ hst => hst
  | ret value line =>
    unfold check
    exact agrees_bind (checkReturn_consistent hsetting hsite (fun e he =>
      hs.spells.root (Option.mem_toList.mpr he)) line) fun out => agrees_pure fun _ _ hst => hst
  | breakOut line =>
    unfold check
    exact agrees_bind (checkBreak_consistent line) fun _ => agrees_pure fun _ _ hst => hst
  | continueOn line =>
    unfold check
    exact agrees_bind (checkContinue_consistent line) fun _ => agrees_pure fun _ _ hst => hst
  | empty line => exact agrees_pure fun _ _ hst => hst

end Stmt

end

/-! ## Methods -/

namespace MethodDecl

/-- The names in the body of a method mean in all registries of the setting what they mean in its
base. -/
def Suits (setting : Setting) (method : MethodDecl) : Prop :=
  ∀ body, method.body = some body → ∀ s ∈ body.stmts, s.Suits setting

/-- The base knows the types of the signature. -/
def SignedIn (base : Registry) (method : MethodDecl) : Prop :=
  ∃ signature, method.signature = some signature
    ∧ ∀ ty ∈ signature.types, base.contains ty = true

variable {setting : Setting}

theorem declareParams_consistent {params : List (FormalParam × Ty)}
    (h : ∀ pair ∈ params, setting.base.contains pair.2 = true) :
    (declareParams params).Consistent setting := by
  induction params with
  | nil => exact agrees_pure fun _ _ hst => hst
  | cons first rest ih =>
    exact agrees_bind (declareParam_agrees _ _ _ (h first List.mem_cons_self)) fun _ =>
      ih fun pair hpair => h pair (List.mem_cons_of_mem _ hpair)

/-- The analysis of a method gives the same, whatever arrays the registry has got, and the registry
gets nothing but arrays. -/
theorem check_agrees (hsetting : setting.Stubbed) {site : Site}
    (hsite : site.Among fun ty => setting.base.contains ty = true) {method : MethodDecl}
    (hsuits : method.Suits setting) (hsigned : method.SignedIn setting.base) :
    (method.check site).Agrees (fun _ => true) (setting.Both []) fun _ => setting.Both [] := by
  obtain ⟨signature, hsignature, hknown⟩ := hsigned
  intro s t hboth
  have hbody : (method.checkBody site signature).Consistent setting := by
    rw [checkBody_eq]
    refine agrees_bind (declareParams_consistent fun pair hpair => hknown _
        (signature.params_subset (List.of_mem_zip hpair).2)) fun _ =>
      agrees_bind (agrees_optional fun body hsome => ?_) fun body =>
      agrees_bind (consistent_read fun scope => FrameInfo.mk scope.frameSize scope.hasReturned)
        fun frame => agrees_pure fun _ _ hst => hst
    unfold Block.check
    exact agrees_bind (Stmt.checkList_consistent fun stmt hstmt =>
        stmt.check_consistent hsetting hsite (hsuits body hsome stmt hstmt)) fun stmts =>
      agrees_bind (consistent_read fun scope => missingReturnErrors method.name method.line scope)
        fun errors hst hst' h => ⟨rfl, rfl, h⟩
  rw [run_check site hsignature, run_check site hsignature]
  obtain ⟨hvalue, herrors, hafter⟩ := hbody
    ⟨s, Scope.start signature.returnTy signature.exceptions method.mods.isStatic⟩
    ⟨t, Scope.start signature.returnTy signature.exceptions method.mods.isStatic⟩
    ⟨hboth, rfl, Scope.holds_start _ _ _, hboth.share (hknown _ signature.returnTy_mem)⟩
  exact ⟨hvalue, herrors, hafter.both⟩

end MethodDecl

end ClassCompiler
