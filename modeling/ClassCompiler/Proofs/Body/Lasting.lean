import ClassCompiler.Proofs.Body.Assigned
import ClassCompiler.Proofs.Body.Marks
import ClassCompiler.Proofs.Extension
import ClassCompiler.Proofs.Unit.Learned

/-!
# What is left of an analyzed expression

The analysis puts the analyzed tree in the place of the one that was parsed, and four things are
lost by that: an initializer is a statement of its own afterwards, `+=` on a `String` holds its
concatenation, a static field is a simple name whatever it was selected from, and a method that was
called through the name of a class is called without one. Where the bare name still means the same,
the expression lasts.

* `Expr.lasts`: a node of an analyzed tree
* `Expr.hiding?`: a field whose bare name does not stand for what it was selected from
* `Scope.Inside`: the locals of a scope have certain names, and registered types
-/

namespace ClassCompiler

open Check BodyState

theorem Check.map_note {σ α β : Type} (f : α → β) (a : α) (errors : List CompileError) :
    (f <$> note a errors : Check σ β) = note (f a) errors :=
  Check.ext fun state => by rw [map_eq_pure_bind, run_bind, run_note, run_pure, List.append_nil,
    run_note]

/-! ## Nodes that last -/

namespace Expr

/-- The name of a selected field that a simple name cannot replace: there is a local of that name,
or the expression that it is selected from gives a local its value. -/
def hiding? (locals : List String) : Expr → Option String
  | field _ target text _ =>
    if locals.contains text || target.nodes.any isAssignment then some text else none
  | _ => none

/-- Does an analyzed node mean the same again? Its class and the other nodes are all that it is
looked up with; `hidden` are the names of fields that a simple name cannot replace. -/
def lasts (env : ExprEnv) (hidden : List String) : Expr → Bool
  | name _ text (some (.field ref)) =>
    env.field? env.owner text == some ref && !(ref.isStatic && hidden.contains text)
  | assign _ (.compound .add) lhs _ => lhs.tyOrAny != .string
  | call _ none text args method =>
    match method with
    | none => env.owner == .any
    | some ref => env.owner != .any && env.method? env.owner text (args.map tyOrAny) == some ref
  | _ => true

theorem lasts_withNode (env : ExprEnv) (hidden : List String) (n : Node) (e : Expr) :
    (e.withNode n).lasts env hidden = e.lasts env hidden := by
  cases e with
  | name _ _ binding => rcases binding with _ | _ | _ <;> rfl
  | assign _ op => rcases op with _ | op <;> [rfl; cases op <;> rfl]
  | call _ target _ _ method => cases target <;> cases method <;> rfl
  | _ => rfl

/-- Is it a name that stands for nothing? -/
def isUnbound : Expr → Bool
  | name _ _ none => true
  | _ => false

theorem isUnbound_withNode (n : Node) (e : Expr) : (e.withNode n).isUnbound = e.isUnbound := by
  cases e with
  | name _ _ binding => cases binding <;> rfl
  | _ => rfl

/-- Everything in it lasts. -/
abbrev Lasting (env : ExprEnv) (hidden : List String) : Expr → Prop :=
  Everywhere fun d => d.lasts env hidden = true

/-- All names in it stand for something. -/
abbrev Named : Expr → Prop := Everywhere fun d => d.isUnbound = false

/-- The names that no simple name can replace are known. -/
abbrev HidesIn (locals hidden : List String) : Expr → Prop :=
  Everywhere fun d => ∀ text, d.hiding? locals = some text → text ∈ hidden

/-- A field that a simple name can replace: no local has its name, and nothing is assigned in front
of it. -/
theorem HidesIn.shown {locals hidden : List String} {n : Node} {target : Expr} {text : String}
    {ref : Option FieldRef} (h : (field n target text ref).HidesIn locals hidden)
    (htext : text ∉ hidden) : text ∉ locals ∧ ∀ d ∈ target.nodes, d.isAssignment = false := by
  have hshown : ¬(locals.contains text || target.nodes.any isAssignment) = true := fun hyes =>
    htext (h _ (mem_nodes_self _) text (if_pos hyes))
  rw [Bool.or_eq_true, not_or, List.contains_iff_mem, List.any_eq_true] at hshown
  refine ⟨hshown.1, fun d hd => ?_⟩
  cases hassign : d.isAssignment with
  | false => rfl
  | true => exact absurd ⟨d, hd, hassign⟩ hshown.2

/-- Without unbound names, no chain of names is left that could stand for a class. -/
theorem Named.qualifiedName? {e : Expr} (h : e.Named) : e.qualifiedName? = none := by
  induction e using Expr.induction with
  | name n text binding =>
    have hbound := h _ (mem_nodes_self _)
    cases binding with
    | none => cases hbound
    | some binding => rfl
  | field n target text ref ih =>
    unfold Expr.qualifiedName?
    rw [ih (h.child List.mem_cons_self)]
    rfl
  | _ => rfl

theorem Named.qualifiedBy {e : Expr} (h : e.Named) : e.QualifiedBy fun _ => False := by
  intro d hd name hname
  have hnamed : d.Named := fun c hc => h c (nodes_subset hd hc)
  cases d with
  | field n target text ref =>
    have hnone := Named.qualifiedName? (hnamed.child List.mem_cons_self)
    cases hnone.symm.trans hname
  | call n target text args method =>
    cases target with
    | none => cases hname
    | some target =>
      have hnone := Named.qualifiedName? (hnamed.child List.mem_cons_self)
      cases hnone.symm.trans hname
  | _ => cases hname

theorem everywhere_withNode {P : Expr → Prop} (hP : ∀ n e, P (withNode n e) ↔ P e) (n : Node)
    (e : Expr) : (e.withNode n).Everywhere P ↔ e.Everywhere P := by
  refine ⟨fun h => everywhere_of_children ((hP n e).mp (h _ (mem_nodes_self _))) fun c hc => ?_,
    fun h => everywhere_of_children ((hP n e).mpr (h _ (mem_nodes_self _))) fun c hc => ?_⟩
  · exact h.child (children_withNode n e ▸ hc)
  · exact h.child (children_withNode n e ▸ hc)

theorem lasting_withNode (env : ExprEnv) (hidden : List String) (n : Node) (e : Expr) :
    (e.withNode n).Lasting env hidden ↔ e.Lasting env hidden :=
  everywhere_withNode (fun n e => by rw [lasts_withNode]) n e

theorem named_withNode (n : Node) (e : Expr) : (e.withNode n).Named ↔ e.Named :=
  everywhere_withNode (fun n e => by rw [isUnbound_withNode]) n e

theorem hidesIn_withNode {locals hidden : List String} (n : Node) (e : Expr) :
    (e.withNode n).HidesIn locals hidden ↔ e.HidesIn locals hidden :=
  everywhere_withNode (fun n e => by
    have hsame : (e.withNode n).hiding? locals = e.hiding? locals := by cases e <;> rfl
    rw [hsame]) n e

theorem withNode_node (e : Expr) : e.withNode e.node = e := by
  cases e <;> rfl

/-- An expression with its mark is left as it is. -/
theorem markStatement_of_isStatement {e : Expr} {isStatement : Bool}
    (h : e.isStatement = isStatement) : e.markStatement isStatement = e := by
  subst h
  exact e.withNode_node

/-! ## Nodes keep their marks -/

/-- An expression that stands as a statement keeps its mark. -/
theorem isStatement_check (env : ExprEnv) {e : Expr} (h : e.isStatementForm = true) :
    (e.check env).Gives fun out => out.isStatement = e.isStatement := by
  cases e with
  | assign n op lhs rhs =>
    rw [check_assign]
    refine gives_then fun l => ?_
    split
    · exact gives_then fun r => gives_then fun _ => gives_note _ rfl
    · exact gives_then fun _ => gives_then fun r => gives_pure rfl
  | increment n op operand =>
    rw [check_increment]
    refine gives_then fun l => ?_
    split <;> exact gives_note _ rfl
  | call n target text args method =>
    rw [check_call]
    refine gives_then fun receiver => gives_then fun args => gives_note _ ?_
    unfold ExprEnv.selectMethod
    dsimp only
    split
    · rfl
    · split <;> rfl
  | _ => cases h

/-- Only a place is a place after its analysis. -/
theorem isAssignable_check (env : ExprEnv) {e : Expr} (h : e.isAssignable = false) :
    (e.check env).Gives fun out => out.isAssignable = false := by
  cases e with
  | name | field | index => cases h
  | literal =>
    unfold check
    exact gives_pure rfl
  | self | length | unary | not =>
    unfold check
    exact gives_then fun _ => gives_note _ rfl
  | binary =>
    unfold check
    refine gives_then fun _ => gives_then fun _ => ?_
    split <;> exact gives_note _ rfl
  | compare | equality | logical | concat =>
    unfold check
    exact gives_then fun _ => gives_then fun _ => gives_note _ rfl
  | assign =>
    rw [check_assign]
    refine gives_then fun _ => ?_
    split
    · exact gives_then fun _ => gives_then fun _ => gives_note _ rfl
    · exact gives_then fun _ => gives_then fun _ => gives_pure rfl
  | increment =>
    rw [check_increment]
    refine gives_then fun _ => ?_
    split <;> exact gives_note _ rfl
  | call =>
    rw [check_call]
    refine gives_then fun receiver => gives_then fun args => gives_note _ ?_
    unfold ExprEnv.selectMethod
    dsimp only
    split
    · rfl
    · split <;> rfl

end Expr

namespace ExprEnv

variable (env : ExprEnv) (n : Node) (text : String) (isStatement : Bool)

theorem bindName_markStatement (scope : Scope) :
    env.bindName scope { n with isStatement } text
      = ((env.bindName scope n text).1.markStatement isStatement,
        (env.bindName scope n text).2) := by
  unfold bindName
  split
  · rfl
  · split <;> rfl

theorem readName_markStatement (scope : Scope) :
    env.readName scope { n with isStatement } text
      = ((env.readName scope n text).1.markStatement isStatement,
        (env.readName scope n text).2) := by
  unfold readName
  rw [bindName_markStatement]

theorem staticField_markStatement (owner : Ty) :
    env.staticField owner { n with isStatement } text
      = ((env.staticField owner n text).1.markStatement isStatement,
        (env.staticField owner n text).2) := by
  unfold staticField
  split <;> rfl

theorem selectField_markStatement (target : Expr) :
    env.selectField { n with isStatement } target text
      = ((env.selectField n target text).1.markStatement isStatement,
        (env.selectField n target text).2) := by
  unfold selectField
  dsimp only
  split
  · rfl
  · split
    · rfl
    · split
      · split <;> rfl
      · rfl

end ExprEnv

namespace Expr

/-- The mark of a place has no part in its analysis. -/
theorem check_markStatement (env : ExprEnv) {e : Expr} (h : e.isAssignable = true)
    (isStatement : Bool) :
    (e.markStatement isStatement).check env = markStatement isStatement <$> e.check env := by
  cases e with
  | name n text binding =>
    show (name _ text binding).check env = _
    unfold check
    rw [map_bind]
    refine Check.ext fun scope => ?_
    show _ = (markStatement isStatement <$> Check.note _ _ : Check Scope Expr).run scope
    rw [Check.map_note]
    exact congrArg (fun found : Expr × List CompileError =>
      (Check.note found.1 found.2 : Check Scope Expr).run scope)
      (env.readName_markStatement n text isStatement scope)
  | field n target text ref =>
    show (field _ target text ref).check env = _
    unfold check
    rw [map_bind]
    refine congrArg (Bind.bind _) (funext fun found => ?_)
    cases found with
    | some owner =>
      show Check.note _ _ = markStatement isStatement <$> Check.note _ _
      rw [Check.map_note]
      exact congrArg (fun found : Expr × List CompileError => Check.note found.1 found.2)
        (env.staticField_markStatement n text isStatement owner)
    | none =>
      show (_ >>= _) = markStatement isStatement <$> (_ >>= _)
      rw [map_bind]
      refine congrArg (Bind.bind _) (funext fun target => ?_)
      show Check.note _ _ = markStatement isStatement <$> Check.note _ _
      rw [Check.map_note]
      exact congrArg (fun found : Expr × List CompileError => Check.note found.1 found.2)
        (env.selectField_markStatement n text isStatement target)
  | index n array position =>
    show (index _ array position).check env = _
    unfold check
    simp only [map_bind, Check.map_note]
    rfl
  | _ => cases h

end Expr

/-! ## Scopes -/

namespace Scope

/-- The types of a scope are registered, and its variables have names from a list. -/
structure Inside (registry : Registry) (names : List String) (scope : Scope) : Prop where
  among : scope.Among fun ty => registry.contains ty = true
  visible : ∀ pair ∈ scope.visible.pairs, pair.1 ∈ names
  shadowed : ∀ entry ∈ scope.shadowed, entry.name ∈ names

variable {registry later : Registry} {names : List String} {scope after : Scope}

theorem inside_start {returnTy : Ty} (h : registry.contains returnTy = true) (exceptions : List Ty)
    (isStatic : Bool) : (start returnTy exceptions isStatic).Inside registry names :=
  ⟨⟨holds_start _ _ _, h⟩, fun _ h => (List.not_mem_nil h).elim,
    fun _ h => (List.not_mem_nil h).elim⟩

namespace Inside

theorem mono (h : scope.Inside registry names) (hpart : registry.PartOf later) :
    scope.Inside later names :=
  ⟨h.among.mono fun _ => hpart.contains, h.visible, h.shadowed⟩

/-- A name that none of the locals has means no local. -/
theorem lookup?_eq_none (h : scope.Inside registry names) {text : String} (htext : text ∉ names) :
    scope.lookup? text = none := by
  cases hfound : scope.lookup? text with
  | none => rfl
  | some var => exact absurd (h.visible _ (Table.mem_of_get? hfound)) htext

theorem of_eq (h : scope.Inside registry names) (hvisible : after.visible = scope.visible)
    (hshadowed : after.shadowed = scope.shadowed) (hreturn : after.returnTy = scope.returnTy) :
    after.Inside registry names := by
  refine ⟨⟨⟨?_, ?_⟩, ?_⟩, ?_, ?_⟩
  · rw [hvisible]
    exact h.among.visible
  · rw [hshadowed]
    exact h.among.shadowed
  · rw [hreturn]
    exact h.among.returnTy
  · rw [hvisible]
    exact h.visible
  · rw [hshadowed]
    exact h.shadowed

theorem markInitialized (h : scope.Inside registry names) (name : String) :
    (scope.markInitialized name).Inside registry names := by
  refine ⟨h.among.markInitialized name, fun pair hpair => ?_, h.shadowed⟩
  obtain ⟨old, hold, rfl⟩ := List.mem_map.mp hpair
  dsimp only
  split <;> exact h.visible old hold

theorem popFrame (h : scope.Inside registry names) : scope.popFrame.Inside registry names := by
  refine ⟨h.among.popFrame, fun pair hpair => ?_, fun entry hentry => ?_⟩
  · rcases mem_foldl_insert hpair with hkept | ⟨entry, hentry, rfl⟩
    · exact h.visible pair (List.mem_filter.mp hkept).1
    · exact h.shadowed entry ((List.takeWhile_sublist _).subset hentry)
  · exact h.shadowed entry ((List.dropWhile_sublist _).subset hentry)

theorem declareLocal {name : String} {ty : Ty} {line slot : Nat} (h : scope.Inside registry names)
    (hty : registry.contains ty = true) (hname : name ∈ names)
    (hok : scope.declareLocal name ty line = .ok (slot, after)) :
    after.Inside registry names := by
  obtain ⟨var, -, hdeclares⟩ := declareLocal_declares hok
  refine ⟨h.among.declareLocal hty hok, fun pair hpair => ?_, fun entry hentry => ?_⟩
  · rw [hdeclares.visible] at hpair
    rcases mem_insert hpair with rfl | hpair
    · exact hname
    · exact h.visible pair hpair
  · rcases hdeclares.aside with heq | ⟨outer, -, -, heq⟩
    · exact h.shadowed entry (heq ▸ hentry)
    · rw [heq] at hentry
      rcases List.mem_cons.mp hentry with rfl | hentry
      · exact hname
      · exact h.shadowed entry hentry

theorem declareParam {name : String} {ty : Ty} {line slot : Nat} (h : scope.Inside registry names)
    (hty : registry.contains ty = true) (hname : name ∈ names)
    (hok : scope.declareParam name ty line = .ok (slot, after)) :
    after.Inside registry names := by
  have hamong := h.among.declareParam hty hok
  unfold Scope.declareParam at hok
  split at hok
  · cases hok
  · cases hok
    refine ⟨hamong, fun pair hpair => ?_, h.shadowed⟩
    rcases mem_insert hpair with rfl | hpair
    · exact hname
    · exact h.visible pair hpair

end Inside

end Scope

end ClassCompiler
