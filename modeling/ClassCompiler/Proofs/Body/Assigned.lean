import ClassCompiler.Proofs.Body.Initialized
import ClassCompiler.Proofs.Body.Returns
import ClassCompiler.Proofs.Code.Flow

/-!
# Bodies whose locals get a value where they are declared

In such a body every local that a name can mean has a value already, whatever way led there, so the
marks of the analysis tell the truth. A block gives back the locals that it found, and only those.

* `Stmt.initsLocals`: every declaration has initializers
* `Scope.Stored`: every variable has a value, and its slot is in a set
* `Scope.Extends`: what statements of one frame add to a scope
* `Stmt.check_reads`, `MethodDecl.check_reads`
-/

namespace ClassCompiler

open Check BodyState

/-! ## Forms -/

/-- The local gets its value from an initializer, and not inside of it. -/
def Declarator.initsLocal (declarator : Declarator) : Bool :=
  match declarator.init with
  | none => false
  | some init => !init.assigns declarator.name

def LocalDecl.initsLocals (decl : LocalDecl) : Bool :=
  decl.declarators.all Declarator.initsLocal

def ForInit.initsLocals : ForInit → Bool
  | exprs _ => true
  | decl d => d.initsLocals

namespace Stmt

def isDeclaration : Stmt → Bool
  | declare _ => true
  | _ => false

mutual

/-- Every local of the statement has an initializer, and its declaration stands in a block or in the
header of a loop. -/
def initsLocals : Stmt → Bool
  | block stmts _ => listInitsLocals stmts
  | declare decl => decl.initsLocals
  | branch _ onTrue onFalse _ =>
    !onTrue.isDeclaration && onTrue.initsLocals && match onFalse with
      | none => true
      | some stmt => !stmt.isDeclaration && stmt.initsLocals
  | whileLoop _ body _ => !body.isDeclaration && body.initsLocals
  | forLoop init _ _ body _ =>
    init.all ForInit.initsLocals && !body.isDeclaration && body.initsLocals
  | _ => true

def listInitsLocals : List Stmt → Bool
  | [] => true
  | first :: rest => first.initsLocals && listInitsLocals rest

end

end Stmt

/-! ## Scopes -/

namespace Scope

/-- The variables of a scope, those that are set aside included. -/
def vars (scope : Scope) : List Variable :=
  scope.visible.pairs.map Prod.snd ++ scope.shadowed.map Shadowed.var

/-- Every variable comes from a frame that is still open, and one that is set aside from outside of
the frame that did it. -/
structure Nested (scope : Scope) : Prop where
  visible : ∀ pair ∈ scope.visible.pairs, pair.2.depth ≤ scope.depth
  aside : ∀ entry ∈ scope.shadowed, entry.var.depth < entry.depth ∧ entry.depth ≤ scope.depth
  latest : scope.shadowed.Pairwise fun one two => two.depth ≤ one.depth

/-- Every variable has a value, and its slot is in the set. -/
structure Stored (S : Set Nat) (scope : Scope) : Prop where
  nested : scope.Nested
  vars : ∀ var ∈ scope.vars, var.isInitialized = true ∧ var.slot ∈ S
  receiver : scope.isStatic = false → 0 ∈ S

/-- Statements of one frame add variables of that frame, with a value and with slots in the set. -/
structure Extends (new : Set Nat) (before after : Scope) : Prop where
  depth : after.depth = before.depth
  isStatic : after.isStatic = before.isStatic
  nested : before.Nested → after.Nested
  vars : before.Nested → ∀ var ∈ after.vars, var ∈ before.vars
    ∨ var.depth = before.depth ∧ var.isInitialized = true ∧ var.slot ∈ new

variable {S new more : Set Nat} {one two three before after scope : Scope}

theorem mem_vars_visible {pair : String × Variable} (h : pair ∈ scope.visible.pairs) :
    pair.2 ∈ scope.vars := List.mem_append_left _ (List.mem_map_of_mem h)

theorem mem_vars_shadowed {entry : Shadowed} (h : entry ∈ scope.shadowed) :
    entry.var ∈ scope.vars := List.mem_append_right _ (List.mem_map_of_mem h)

theorem mem_vars {var : Variable} : var ∈ scope.vars ↔
    (∃ pair ∈ scope.visible.pairs, pair.2 = var) ∨ ∃ entry ∈ scope.shadowed, entry.var = var := by
  simp only [vars, List.mem_append, List.mem_map]

theorem Nested.of_eq (h : before.Nested) (hvisible : after.visible = before.visible)
    (hshadowed : after.shadowed = before.shadowed) (hdepth : before.depth ≤ after.depth) :
    after.Nested := by
  refine ⟨fun pair hpair => ?_, fun entry hentry => ?_, hshadowed ▸ h.latest⟩
  · exact (h.visible pair (hvisible ▸ hpair)).trans hdepth
  · obtain ⟨hvar, hentry⟩ := h.aside entry (hshadowed ▸ hentry)
    exact ⟨hvar, hentry.trans hdepth⟩

theorem vars_eq (hvisible : after.visible = before.visible)
    (hshadowed : after.shadowed = before.shadowed) : after.vars = before.vars := by
  unfold vars
  rw [hvisible, hshadowed]

theorem Stored.of_eq (h : before.Stored S) (hvisible : after.visible = before.visible)
    (hshadowed : after.shadowed = before.shadowed) (hdepth : before.depth ≤ after.depth)
    (hstatic : after.isStatic = before.isStatic) : after.Stored S :=
  ⟨h.nested.of_eq hvisible hshadowed hdepth, by rw [vars_eq hvisible hshadowed]; exact h.vars,
    hstatic ▸ h.receiver⟩

/-- A change of the flags adds nothing. -/
theorem Extends.of_eq (hvisible : after.visible = before.visible)
    (hshadowed : after.shadowed = before.shadowed) (hdepth : after.depth = before.depth)
    (hstatic : after.isStatic = before.isStatic) : Extends new before after :=
  ⟨hdepth, hstatic, fun h => h.of_eq hvisible hshadowed hdepth.ge,
    fun _ _ hvar => .inl (vars_eq hvisible hshadowed ▸ hvar)⟩

theorem Extends.refl (scope : Scope) : Extends new scope scope := .of_eq rfl rfl rfl rfl

theorem Extends.mono (h : Extends new before after) (hsub : new ⊆ more) :
    Extends more before after :=
  ⟨h.depth, h.isStatic, h.nested, fun hnested var hvar =>
    (h.vars hnested var hvar).imp_right fun ⟨hd, hmarked, hslot⟩ => ⟨hd, hmarked, hsub hslot⟩⟩

theorem Extends.trans (h : Extends new one two) (h' : Extends more two three) :
    Extends (new ∪ more) one three := by
  refine ⟨h'.depth.trans h.depth, h'.isStatic.trans h.isStatic, fun hn => h'.nested (h.nested hn),
    fun hn var hvar => ?_⟩
  rcases h'.vars (h.nested hn) var hvar with hvar | ⟨hdepth, hmarked, hslot⟩
  · exact (h.mono Set.subset_union_left).vars hn var hvar
  · exact .inr ⟨hdepth.trans h.depth, hmarked, .inr hslot⟩

/-- Statements that add nothing, one behind the other. -/
theorem Extends.trans_none (h : Extends ∅ one two) (h' : Extends ∅ two three) :
    Extends ∅ one three := (h.trans h').mono (by simp)

theorem Extends.setReturned (h : Extends new before after) (returned : Bool) :
    Extends new before (after.setReturned returned) :=
  ⟨h.depth, h.isStatic, fun hn => (h.nested hn).of_eq rfl rfl le_rfl, h.vars⟩

theorem Extends.of_setReturned {returned : Bool}
    (h : Extends new (before.setReturned returned) after) : Extends new before after :=
  ⟨h.depth, h.isStatic, fun hn => h.nested (hn.of_eq rfl rfl le_rfl),
    fun hn => h.vars (hn.of_eq rfl rfl le_rfl)⟩

theorem Extends.exitLoop (h : Extends new before.enterLoop after) :
    Extends new before after.exitLoop.2 :=
  ⟨h.depth, h.isStatic, fun hn => (h.nested (hn.of_eq rfl rfl le_rfl)).of_eq rfl rfl le_rfl,
    fun hn => h.vars (hn.of_eq rfl rfl le_rfl)⟩

theorem Stored.extends (h : before.Stored S) (hext : Extends new before after) :
    after.Stored (S ∪ new) := by
  refine ⟨hext.nested h.nested, fun var hvar => ?_, fun hstatic => .inl (h.receiver ?_)⟩
  · rcases hext.vars h.nested var hvar with hvar | ⟨-, hmarked, hslot⟩
    · exact (h.vars var hvar).imp_right fun hslot => .inl hslot
    · exact ⟨hmarked, .inr hslot⟩
  · exact hext.isStatic ▸ hstatic

theorem Stored.extends_none (h : before.Stored S) (hext : Extends ∅ before after) :
    after.Stored S := by
  have := h.extends hext
  rwa [Set.union_empty] at this

/-- With all variables stored, the marks are right and complete. -/
theorem Stored.ready (h : scope.Stored S) (names : String → Prop) : scope.Ready S names :=
  ⟨fun _ hpair _ => (h.vars _ (mem_vars_visible hpair)).2,
    fun _ hpair _ => (h.vars _ (mem_vars_visible hpair)).1, h.receiver⟩

/-! ### Frames -/

theorem Stored.pushFrame (h : scope.Stored S) : scope.pushFrame.Stored S :=
  h.of_eq rfl rfl (Nat.le_succ _) rfl

theorem mem_foldl_insert {entries : List Shadowed} {table : Table String Variable}
    {pair : String × Variable}
    (h : pair ∈ (entries.foldl (fun table entry => table.insert entry.name entry.var) table).pairs) :
    pair ∈ table.pairs ∨ ∃ entry ∈ entries, pair = (entry.name, entry.var) := by
  induction entries generalizing table with
  | nil => exact .inl h
  | cons entry rest ih =>
    rcases ih h with h | ⟨e, he, heq⟩
    · rcases mem_insert h with rfl | h
      · exact .inr ⟨entry, List.mem_cons_self, rfl⟩
      · exact .inl h
    · exact .inr ⟨e, List.mem_cons_of_mem _ he, heq⟩

/-- Behind the entries of the innermost frame stand those of the frames around it. -/
theorem Nested.depth_lt (h : scope.Nested) {entry : Shadowed}
    (hentry : entry ∈ scope.shadowed.dropWhile fun entry => entry.depth = scope.depth) :
    entry.depth < scope.depth := by
  have hle : ∀ e ∈ scope.shadowed, e.depth ≤ scope.depth := fun e he => (h.aside e he).2
  have hsorted := h.latest
  revert hle hsorted hentry
  generalize scope.shadowed = entries
  induction entries with
  | nil => exact fun hentry => (List.not_mem_nil hentry).elim
  | cons first rest ih =>
    intro hentry hle hsorted
    obtain ⟨hfirst, hrest⟩ := List.pairwise_cons.mp hsorted
    by_cases hdepth : first.depth = scope.depth
    · rw [List.dropWhile_cons_of_pos (by simpa using hdepth)] at hentry
      exact ih hentry (fun e he => hle e (List.mem_cons_of_mem _ he)) hrest
    · rw [List.dropWhile_cons_of_neg (by simpa using hdepth)] at hentry
      have hlt := lt_of_le_of_ne (hle first List.mem_cons_self) hdepth
      rcases List.mem_cons.mp hentry with rfl | hentry
      · exact hlt
      · exact (hfirst _ hentry).trans_lt hlt

/-- What is left of a variable behind its frame was there before it. -/
theorem mem_vars_popFrame (h : scope.Nested) {var : Variable} (hvar : var ∈ scope.popFrame.vars) :
    var ∈ scope.vars ∧ var.depth < scope.depth := by
  rcases mem_vars.mp hvar with ⟨pair, hpair, rfl⟩ | ⟨entry, hentry, rfl⟩
  · rcases mem_foldl_insert hpair with hkept | ⟨entry, hentry, rfl⟩
    · obtain ⟨hmem, hdepth⟩ := List.mem_filter.mp hkept
      exact ⟨mem_vars_visible hmem, by simpa using hdepth⟩
    · have hmem := (List.takeWhile_sublist _).subset hentry
      obtain ⟨hlt, hle⟩ := h.aside entry hmem
      exact ⟨mem_vars_shadowed hmem, hlt.trans_le hle⟩
  · have hmem := (List.dropWhile_sublist _).subset hentry
    exact ⟨mem_vars_shadowed hmem, (h.aside entry hmem).1.trans (h.depth_lt hentry)⟩

theorem Nested.popFrame (h : scope.Nested) : scope.popFrame.Nested := by
  refine ⟨fun pair hpair => ?_, fun entry hentry => ?_, ?_⟩
  · exact Nat.le_sub_one_of_lt (mem_vars_popFrame h (mem_vars_visible hpair)).2
  · exact ⟨(h.aside entry ((List.dropWhile_sublist _).subset hentry)).1,
      Nat.le_sub_one_of_lt (h.depth_lt hentry)⟩
  · exact h.latest.sublist (List.dropWhile_sublist _)

/-- A block gives back the variables that it found. -/
theorem Extends.popFrame (h : Extends new before.pushFrame after) (hnested : before.Nested) :
    Extends ∅ before after.popFrame := by
  have hdepth : after.depth = before.depth + 1 := h.depth
  have hpushed : before.pushFrame.Nested := hnested.of_eq rfl rfl (Nat.le_succ _)
  have hafter := h.nested hpushed
  refine ⟨congrArg (· - 1) hdepth, h.isStatic, fun _ => hafter.popFrame,
    fun _ var hvar => .inl ?_⟩
  obtain ⟨hmem, hlt⟩ := mem_vars_popFrame hafter hvar
  rcases h.vars hpushed var hmem with hold | ⟨hsame, -⟩
  · exact hold
  · change var.depth = before.depth + 1 at hsame
    omega

/-! ### Declarations -/

/-- A declaration: a new variable without a value, and perhaps one that it sets aside. -/
structure Declares (name : String) (var : Variable) (before after : Scope) : Prop where
  depth : after.depth = before.depth
  isStatic : after.isStatic = before.isStatic
  visible : after.visible = before.visible.insert name var
  aside : after.shadowed = before.shadowed ∨ ∃ outer, before.lookup? name = some outer
    ∧ outer.depth ≠ before.depth
    ∧ after.shadowed = ⟨before.depth, name, outer⟩ :: before.shadowed
  var_depth : var.depth = before.depth
  unmarked : var.isInitialized = false

theorem declareLocal_declares {name : String} {ty : Ty} {line slot : Nat}
    (h : before.declareLocal name ty line = .ok (slot, after)) :
    ∃ var, var.slot = slot ∧ Declares name var before after := by
  unfold declareLocal at h
  split at h
  · cases h
    exact ⟨_, rfl, rfl, rfl, rfl, .inl rfl, rfl, rfl⟩
  · next outer houter =>
    split at h
    · cases h
    · next hdepth =>
      cases h
      exact ⟨_, rfl, rfl, rfl, rfl, .inr ⟨outer, houter, hdepth, rfl⟩, rfl, rfl⟩

variable {name : String} {var : Variable}

theorem Declares.lookup? (h : Declares name var before after) : after.lookup? name = some var := by
  unfold Scope.lookup?
  rw [h.visible, Table.get?_insert_self]

theorem mem_insert_ne {table : Table String Variable} {pair : String × Variable}
    (h : pair ∈ (table.insert name var).pairs) :
    pair = (name, var) ∨ pair ∈ table.pairs ∧ pair.1 ≠ name := by
  rcases List.mem_cons.mp h with rfl | h
  · exact .inl rfl
  · obtain ⟨hmem, hne⟩ := List.mem_filter.mp h
    exact .inr ⟨hmem, by simpa using hne⟩

/-- Only the new local has no value. -/
theorem Declares.ready (h : Declares name var before after) (hbefore : before.Stored S)
    {names : String → Prop} (hname : ¬ names name) : after.Ready S names := by
  have hcases : ∀ pair ∈ after.visible.pairs, pair = (name, var) ∨ pair ∈ before.visible.pairs :=
    fun pair hpair => mem_insert (h.visible ▸ hpair)
  refine ⟨fun pair hpair hmarked => ?_, fun pair hpair hnamed => ?_, h.isStatic ▸ hbefore.receiver⟩
  · rcases hcases pair hpair with rfl | hold
    · rw [h.unmarked] at hmarked
      cases hmarked
    · exact (hbefore.vars _ (mem_vars_visible hold)).2
  · rcases hcases pair hpair with rfl | hold
    · exact (hname hnamed).elim
    · exact (hbefore.vars _ (mem_vars_visible hold)).1

/-- With its first value, the new local is one more stored variable. -/
theorem Declares.extends (h : Declares name var before after) :
    Extends {var.slot} before (after.markInitialized name) := by
  have hvisible : ∀ pair ∈ (after.markInitialized name).visible.pairs,
      pair ∈ before.visible.pairs ∨ pair.2 = { var with isInitialized := true } := by
    intro pair hpair
    obtain ⟨old, hold, rfl⟩ := List.mem_map.mp hpair
    rcases mem_insert_ne (h.visible ▸ hold) with rfl | ⟨hmem, hne⟩
    · exact .inr (by rw [if_pos rfl])
    · exact .inl (by rwa [if_neg hne])
  have haside : ∀ entry ∈ (after.markInitialized name).shadowed, entry ∈ before.shadowed
      ∨ ∃ outer, before.lookup? name = some outer ∧ outer.depth ≠ before.depth
        ∧ entry = ⟨before.depth, name, outer⟩ := by
    intro entry hentry
    change entry ∈ after.shadowed at hentry
    rcases h.aside with heq | ⟨outer, hlookup, hdepth, heq⟩
    · exact .inl (heq ▸ hentry)
    · rcases List.mem_cons.mp (heq ▸ hentry) with rfl | hentry
      · exact .inr ⟨outer, hlookup, hdepth, rfl⟩
      · exact .inl hentry
  refine ⟨h.depth, h.isStatic, fun hnested => ⟨fun pair hpair => ?_, fun entry hentry => ?_, ?_⟩,
    fun hnested v hv => ?_⟩
  · change pair.2.depth ≤ after.depth
    rw [h.depth]
    rcases hvisible pair hpair with hold | hnew
    · exact hnested.visible pair hold
    · exact hnew ▸ h.var_depth.le
  · change _ ∧ entry.depth ≤ after.depth
    rw [h.depth]
    rcases haside entry hentry with hold | ⟨outer, hlookup, hdepth, rfl⟩
    · exact hnested.aside entry hold
    · exact ⟨lt_of_le_of_ne (hnested.visible _ (mem_of_lookup? hlookup)) hdepth, le_rfl⟩
  · change after.shadowed.Pairwise _
    rcases h.aside with heq | ⟨outer, -, -, heq⟩
    · exact heq ▸ hnested.latest
    · rw [heq]
      exact List.pairwise_cons.mpr ⟨fun entry hentry => (hnested.aside entry hentry).2,
        hnested.latest⟩
  · rcases mem_vars.mp hv with ⟨pair, hpair, rfl⟩ | ⟨entry, hentry, rfl⟩
    · rcases hvisible pair hpair with hold | hnew
      · exact .inl (mem_vars_visible hold)
      · rw [hnew]
        exact .inr ⟨h.var_depth, rfl, rfl⟩
    · rcases haside entry hentry with hold | ⟨outer, hlookup, -, rfl⟩
      · exact .inl (mem_vars_shadowed hold)
      · exact .inl (mem_vars_visible (mem_of_lookup? hlookup))

end Scope

/-! ## Expressions in statements -/

variable {S : Set Nat} {site : Site} {state : BodyState}

theorem clean_onScope {α : Type} {step : ExprEnv → Check Scope α} (Q : α → Scope → Prop)
    (h : ∀ env, (step env).Clean state.scope Q) :
    (onScope site step).Clean state fun a after => Q a after.scope := h _

theorem clean_changeScope {β : Type} {change : Scope → Scope} {next : Unit → Check BodyState β}
    {Q : β → BodyState → Prop}
    (h : (next ()).Clean { state with scope := change state.scope } Q) :
    (changeScope change >>= next).Clean state Q := h

theorem clean_hasReturned {β : Type} {next : Bool → Check BodyState β} {Q : β → BodyState → Prop}
    (h : ∀ returned, (next returned).Clean state Q) : (hasReturned >>= next).Clean state Q := h _

theorem clean_exitLoop {β : Type} {next : Bool → Check BodyState β} {Q : β → BodyState → Prop}
    (h : (next state.scope.exitLoop.1).Clean { state with scope := state.scope.exitLoop.2 } Q) :
    (exitLoop >>= next).Clean state Q := h

/-- What a part has, wherever there is one, beside what the step does to the state. -/
theorem clean_optional_all {σ α β : Type} {step : α → Check σ β} {part : Option α} {state : σ}
    {P : β → Prop} {Q : Option β → σ → Prop} (hnone : part = none → Q none state)
    (hsome : ∀ a, part = some a → (step a).Clean state fun b after => P b ∧ Q (some b) after) :
    (optional step part).Clean state fun out after =>
      (∀ b, out = some b → P b) ∧ Q out after := by
  refine clean_optional (fun h => ⟨(fun b hb => by cases hb), hnone h⟩) fun a ha => ?_
  refine (hsome a ha).mono fun b after hb => ⟨fun b' hb' => ?_, hb.2⟩
  cases hb'
  exact hb.1

namespace Expr

theorem checkCondition_reads (condition : Expr) (hscope : state.scope.Stored S) :
    (condition.checkCondition site).Clean state fun out after => Kept S state.scope out after.scope := by
  refine clean_onScope (Kept S state.scope) fun env => ?_
  refine clean_bind (condition.check_reads (hscope.ready _)) ?_
  exact fun out after h => clean_note fun _ => h

theorem checkStatement_reads (e : Expr) (hscope : state.scope.Stored S) :
    (e.checkStatement site).Clean state fun out after => Kept S state.scope out after.scope := by
  refine clean_onScope (Kept S state.scope) fun env => ?_
  refine clean_bind (clean_reportAll (S := fun _ after => after = state.scope) fun _ => rfl) ?_
  rintro _ _ rfl
  exact check_reads _ (hscope.ready _)

theorem checkStatements_reads (es : List Expr) (hscope : state.scope.Stored S) :
    (checkStatements site es).Clean state fun out after =>
      after.scope = state.scope ∧ ∀ e ∈ out, e.Reads S := by
  induction es generalizing state with
  | nil => exact clean_pure ⟨rfl, fun e he => (List.not_mem_nil he).elim⟩
  | cons first rest ih =>
    refine clean_bind (first.checkStatement_reads hscope) ?_
    rintro a middle ⟨hkept, ha⟩
    refine clean_bind (ih (show middle.scope.Stored S from hkept ▸ hscope)) ?_
    rintro out after ⟨hkept', hout⟩
    exact clean_pure ⟨hkept'.trans hkept, List.forall_mem_cons.mpr ⟨ha, hout⟩⟩

/-! ## Declarations -/

theorem judgeAssign_plain (registry : Registry) (l r : Expr) (line : Nat) :
    (judgeAssign registry .plain l r line).1 = r := by
  unfold judgeAssign checkAssignment checkPlain
  dsimp only
  split
  · rfl
  · next h =>
    exfalso
    revert h
    repeat' split
    all_goals exact fun h => by cases h
  · rfl
  · rfl

/-- The right side of an initializer is analyzed while the new local has no value. -/
theorem checkInit_reads {env : ExprEnv} {before scope : Scope} {text : String} {var : Variable}
    (hdeclares : Scope.Declares text var before scope) (hbefore : before.Stored S) {init : Expr}
    (hassigns : init.assigns text = false) (n m : Node) :
    ((assign n .plain (name m text none) init).check env).Clean scope fun out after =>
      out.InitReads S ∧ Scope.Extends out.initStores before after := by
  rw [check_assign]
  let bound : Expr := name { line := m.line, ty := some var.ty } text (some (.slot var.slot))
  have htarget : (checkTarget env (name m text none)).Clean scope fun out after =>
      out = bound ∧ after = scope := by
    have hbound : env.bindName scope { line := m.line } text = (bound, []) := by
      unfold ExprEnv.bindName
      rw [hdeclares.lookup?]
    refine clean_read_bind (clean_note fun _ => ⟨?_, rfl⟩)
    exact congrArg Prod.fst hbound
  have hready : scope.Ready S fun t => init.assigns t = true :=
    hdeclares.ready hbefore (by simp [hassigns])
  refine clean_bind htarget ?_
  rintro _ _ ⟨rfl, rfl⟩
  rw [if_pos (show bound.isAssignable = true from rfl)]
  refine clean_bind (init.check_reads hready) ?_
  rintro r _ ⟨rfl, hr⟩
  refine clean_bind (clean_modify (S := fun _ after => after = _) rfl) ?_
  rintro _ _ rfl
  refine clean_note fun _ => ⟨?_, hdeclares.extends⟩
  change (judgeAssign env.registry .plain bound r n.line).1.Reads S
  rwa [judgeAssign_plain]

end Expr

theorem clean_declareLocal (name : String) (ty : Ty) (line : Nat) :
    (declareLocal name ty line).Clean state fun _ after =>
      ∃ var, Scope.Declares name var state.scope after.scope := by
  unfold declareLocal Clean Check.run
  dsimp only
  split
  · next hok =>
    obtain ⟨var, -, hdeclares⟩ := Scope.declareLocal_declares hok
    exact fun _ => ⟨var, hdeclares⟩
  · exact fun h => by cases h

theorem Declarator.check_reads (ty : Ty) {declarator : Declarator}
    (h : declarator.initsLocal = true) (hscope : state.scope.Stored S) :
    (declarator.check site ty).Clean state fun out after =>
      InitsRead S out.2 ∧ Scope.Extends (initsStore out.2) state.scope after.scope := by
  unfold check
  refine clean_bind (clean_declareLocal _ _ _) ?_
  rintro slot middle ⟨var, hdeclares⟩
  unfold initsLocal at h
  cases hinit : declarator.init with
  | none => rw [hinit] at h; cases h
  | some init =>
    rw [hinit] at h
    have hassigns : init.assigns declarator.name = false := by simpa using h
    refine clean_bind (clean_onScope (fun out after => out.InitReads S
      ∧ Scope.Extends out.initStores state.scope after) fun env =>
        Expr.checkInit_reads hdeclares hscope hassigns _ _) ?_
    rintro out after ⟨hreads, hext⟩
    refine clean_pure ⟨⟨hreads, trivial⟩, ?_⟩
    unfold initsStore initsStore
    rwa [Set.union_empty]

theorem initsRead_append {one two : List Expr} (h : InitsRead S one)
    (h' : InitsRead (S ∪ initsStore one) two) : InitsRead S (one ++ two) := by
  induction one generalizing S with
  | nil => simpa [initsStore] using h'
  | cons first rest ih =>
    refine ⟨h.1, ih h.2 ?_⟩
    rwa [Set.union_assoc]

theorem initsStore_append (one two : List Expr) :
    initsStore (one ++ two) = initsStore one ∪ initsStore two := by
  induction one with
  | nil => simp [initsStore]
  | cons first rest ih => rw [List.cons_append, initsStore, initsStore, ih, Set.union_assoc]

theorem Declarator.checkList_reads (ty : Ty) {declarators : List Declarator}
    (h : declarators.all initsLocal = true) (hscope : state.scope.Stored S) :
    (checkList site ty declarators).Clean state fun out after =>
      InitsRead S out.2 ∧ Scope.Extends (initsStore out.2) state.scope after.scope := by
  induction declarators generalizing state S with
  | nil => exact clean_pure ⟨trivial, .refl _⟩
  | cons first rest ih =>
    obtain ⟨hfirst, hrest⟩ : first.initsLocal = true ∧ rest.all initsLocal = true := by
      simpa using h
    unfold checkList
    refine clean_bind (first.check_reads ty hfirst hscope) ?_
    rintro ⟨one, inits⟩ middle ⟨hreads, hext⟩
    refine clean_bind (ih hrest (hscope.extends hext)) ?_
    rintro ⟨others, more⟩ after ⟨hreads', hext'⟩
    refine clean_pure ⟨initsRead_append hreads hreads', ?_⟩
    rw [initsStore_append]
    exact hext.trans hext'

theorem LocalDecl.check_reads {decl : LocalDecl} (h : decl.initsLocals = true)
    (hscope : state.scope.Stored S) : (decl.check site).Clean state fun out after =>
      InitsRead S out.initializers
        ∧ Scope.Extends (initsStore out.initializers) state.scope after.scope := by
  unfold check
  refine clean_bind (Q := fun _ after => after.scope = state.scope) (fun _ => rfl) ?_
  intro ty middle hkept
  refine clean_bind (Declarator.checkList_reads ty h (hkept ▸ hscope)) ?_
  rintro out after ⟨hreads, hext⟩
  exact clean_pure ⟨hreads, hkept ▸ hext⟩

theorem ForInit.check_reads {init : ForInit} (h : init.initsLocals = true)
    (hscope : state.scope.Stored S) : (init.check site).Clean state fun out after =>
      out.Reads S ∧ Scope.Extends out.stores state.scope after.scope := by
  cases init with
  | exprs es =>
    refine clean_map ((Expr.checkStatements_reads es hscope).mono ?_)
    rintro out after ⟨hkept, hreads⟩
    exact ⟨hreads, hkept ▸ .refl _⟩
  | decl d => exact clean_map (LocalDecl.check_reads h hscope)

/-! ## Statements -/

theorem checkReturn_reads (value : Option Expr) (line : Nat) (hscope : state.scope.Stored S) :
    (checkReturn site value line).Clean state fun out after => (∀ e, out = some e → e.Reads S)
      ∧ Scope.Extends ∅ state.scope after.scope := by
  rw [checkReturn_eq]
  refine clean_bind (clean_onScope (fun out after => after = state.scope
    ∧ ∀ e, out = some e → e.Reads S) fun env => ?_) ?_
  · refine clean_bind (Q := fun out after => after = state.scope
      ∧ ∀ e, out = some e → e.Reads S) (clean_optional (fun _ => ⟨rfl, fun e he => by cases he⟩)
        fun e _ => ?_) fun out after h => clean_read_bind (clean_note fun _ => h)
    refine (e.check_reads (hscope.ready _)).mono ?_
    rintro out after ⟨hkept, hreads⟩
    refine ⟨hkept, fun e he => ?_⟩
    cases he
    exact hreads
  · rintro out middle ⟨hkept, hreads⟩
    exact clean_changeScope (clean_pure ⟨hreads, hkept ▸ .of_eq rfl rfl rfl rfl⟩)

theorem checkBreak_kept (line : Nat) : (checkBreak line).Clean state fun _ after =>
    Scope.Extends ∅ state.scope after.scope := by
  unfold checkBreak Clean Check.run
  dsimp only
  split
  · next hbreak =>
    unfold Scope.noteBreak? at hbreak
    split at hbreak
    · cases hbreak
    · cases hbreak
      exact fun _ => .of_eq rfl rfl rfl rfl
  · exact fun h => by cases h

namespace Stmt

/-- What the analysis of a statement leaves. -/
def CheckReads (site : Site) (s : Stmt) : Prop :=
  s.initsLocals = true → ∀ (S : Set Nat) (state : BodyState), state.scope.Stored S →
    (s.check site).Clean state fun out after => (out.Reads S
      ∧ Scope.Extends out.stores state.scope after.scope)
      ∧ (s.isDeclaration = false → out.stores = ∅)

theorem checkList_reads {stmts : List Stmt} (h : ∀ s ∈ stmts, s.CheckReads site)
    (hinits : listInitsLocals stmts = true) (hscope : state.scope.Stored S) :
    (checkList site stmts).Clean state fun out after => ListReads S out
      ∧ ∃ new, Scope.Extends new state.scope after.scope := by
  induction stmts generalizing state S with
  | nil => exact clean_pure ⟨trivial, ∅, .refl _⟩
  | cons first rest ih =>
    obtain ⟨hfirst, hrest⟩ := Bool.and_eq_true_iff.mp hinits
    refine clean_bind (h first List.mem_cons_self hfirst S state hscope) ?_
    rintro a middle ⟨⟨hreads, hext⟩, -⟩
    refine clean_bind (ih (fun s hs => h s (List.mem_cons_of_mem _ hs)) hrest
      (hscope.extends hext)) ?_
    rintro out after ⟨hreads', new, hext'⟩
    exact clean_pure ⟨⟨hreads, hreads'⟩, _, hext.trans hext'⟩

/-- An arm of a branch, or the body of a loop. -/
theorem CheckReads.part {s : Stmt} (h : s.CheckReads site) (hpart : s.isDeclaration = false)
    (hinits : s.initsLocals = true) (hscope : state.scope.Stored S) :
    (s.check site).Clean state fun out after =>
      out.Reads S ∧ Scope.Extends ∅ state.scope after.scope := by
  refine (h hinits S state hscope).mono ?_
  rintro out after ⟨⟨hreads, hext⟩, hstores⟩
  exact ⟨hreads, hstores hpart ▸ hext⟩

theorem CheckReads.branch {condition : Expr} {onTrue : Stmt} {onFalse : Option Stmt} {line : Nat}
    (hintrue : onTrue.CheckReads site) (hinfalse : ∀ s, onFalse = some s → s.CheckReads site) :
    (Stmt.branch condition onTrue onFalse line).CheckReads site := by
  intro hinits S state hscope
  rw [check_branch]
  unfold initsLocals at hinits
  simp only [Bool.and_eq_true, Bool.not_eq_true'] at hinits
  obtain ⟨⟨htrue, hinitsTrue⟩, hfalse⟩ := hinits
  refine clean_bind (condition.checkCondition_reads hscope) ?_
  rintro c m ⟨hkept, hc⟩
  have hm : m.scope.Stored S := hkept ▸ hscope
  refine clean_hasReturned fun before => ?_
  refine clean_bind (hintrue.part htrue hinitsTrue hm) ?_
  rintro t m' ⟨ht, hext⟩
  have hm' : (m'.scope.setReturned before).Stored S :=
    (hm.extends_none hext).of_eq rfl rfl le_rfl rfl
  refine clean_hasReturned fun trueReturns => clean_changeScope ?_
  refine clean_bind (clean_optional_all (P := fun f => f.Reads S)
    (Q := fun _ after => Scope.Extends ∅ (m'.scope.setReturned before) after.scope)
    (fun _ => .refl _) fun s hs => ?_) ?_
  · subst hs
    simp only [Bool.and_eq_true, Bool.not_eq_true'] at hfalse
    exact (hinfalse s rfl).part hfalse.1 hfalse.2 hm'
  · rintro f after ⟨hf, hext'⟩
    refine clean_hasReturned fun falseReturns =>
      clean_changeScope (clean_pure ⟨⟨?_, ?_⟩, fun _ => rfl⟩)
    · unfold Reads
      refine ⟨hc, ht, ?_⟩
      cases f with
      | none => trivial
      | some f => exact hf f rfl
    · exact hkept ▸ (hext.trans_none hext'.of_setReturned).setReturned _

theorem CheckReads.whileLoop {condition : Expr} {body : Stmt} {line : Nat}
    (hinbody : body.CheckReads site) :
    (Stmt.whileLoop condition body line).CheckReads site := by
  intro hinits S state hscope
  obtain ⟨hpart, hbody⟩ := Bool.and_eq_true_iff.mp hinits
  unfold check
  refine clean_bind (condition.checkCondition_reads hscope) ?_
  rintro c m ⟨hkept, hc⟩
  have hm : m.scope.enterLoop.Stored S := (hkept ▸ hscope).of_eq rfl rfl le_rfl rfl
  refine clean_hasReturned fun before => clean_changeScope ?_
  refine clean_bind (hinbody.part (by simpa using hpart) hbody hm) ?_
  rintro b m' ⟨hb, hext⟩
  refine clean_exitLoop (clean_changeScope (clean_pure ⟨⟨?_, ?_⟩, fun _ => rfl⟩))
  · unfold Reads
    exact ⟨hc, hb⟩
  · exact hkept ▸ hext.exitLoop.setReturned _

theorem CheckReads.forLoop {init : Option ForInit} {condition : Option Expr} {update : List Expr}
    {body : Stmt} {line : Nat} (hinbody : body.CheckReads site) :
    (Stmt.forLoop init condition update body line).CheckReads site := by
  intro hinits S state hscope
  rw [check_forLoop]
  unfold initsLocals at hinits
  simp only [Bool.and_eq_true, Bool.not_eq_true'] at hinits
  obtain ⟨⟨hinit, hpart⟩, hbody⟩ := hinits
  refine clean_changeScope ?_
  refine clean_bind (clean_optional_all (P := fun i => i.Reads S)
    (Q := fun out after => Scope.Extends (headerStores out) state.scope.pushFrame after.scope)
    (fun _ => .refl _) fun i hi => ?_) ?_
  · subst hi
    exact ForInit.check_reads (by simpa using hinit) hscope.pushFrame
  rintro i m ⟨hi, hext⟩
  have hm := hscope.pushFrame.extends hext
  refine clean_bind (clean_optional_all (P := fun c => c.Reads (S ∪ headerStores i))
    (Q := fun _ after => after.scope = m.scope) (fun _ => rfl) fun c _ =>
      (c.checkCondition_reads hm).mono fun _ _ h => h.symm) ?_
  rintro c m' ⟨hc, hkept⟩
  have hm' : m'.scope.enterLoop.Stored (S ∪ headerStores i) :=
    (hkept ▸ hm).of_eq rfl rfl le_rfl rfl
  refine clean_hasReturned fun before => clean_changeScope ?_
  refine clean_bind (hinbody.part hpart hbody hm') ?_
  rintro b m'' ⟨hb, hext'⟩
  have hm'' : m''.scope.exitLoop.2.Stored (S ∪ headerStores i) :=
    (hm'.extends_none hext').of_eq rfl rfl le_rfl rfl
  refine clean_exitLoop (clean_bind (Expr.checkStatements_reads update hm'') ?_)
  rintro u after ⟨hkept', hu⟩
  refine clean_changeScope (clean_changeScope (clean_pure ⟨⟨?_, ?_⟩, fun _ => rfl⟩))
  · unfold Reads
    exact ⟨hi, hc, hu, hb⟩
  · -- The header's own stores stay inside of the frame that the loop leaves.
    have hframe : Scope.Extends (headerStores i ∪ ∅) state.scope.pushFrame after.scope := by
      refine hext.trans ?_
      rw [hkept', ← hkept]
      exact hext'.exitLoop
    exact (hframe.popFrame hscope.nested).setReturned _

/-- While every local has a value from its declaration on, a statement reads stored slots only. -/
theorem check_reads (s : Stmt) : s.CheckReads site := by
  induction s using Stmt.induction with
  | block stmts line ih =>
    intro hinits S state hscope
    unfold check
    refine clean_changeScope ?_
    refine clean_bind (checkList_reads ih hinits (hscope.pushFrame)) ?_
    rintro out middle ⟨hreads, new, hext⟩
    refine clean_changeScope (clean_pure ⟨⟨?_, hext.popFrame hscope.nested⟩, fun _ => rfl⟩)
    unfold Reads
    exact hreads
  | declare decl =>
    intro hinits S state hscope
    unfold check
    refine clean_map ((LocalDecl.check_reads hinits hscope).mono ?_)
    rintro out after ⟨hreads, hext⟩
    refine ⟨⟨?_, hext⟩, fun h => by cases h⟩
    unfold Reads
    exact hreads
  | expr e line =>
    intro _ S state hscope
    unfold check
    refine clean_bind (e.checkStatement_reads hscope) ?_
    rintro out after ⟨hkept, hreads⟩
    refine clean_pure ⟨⟨?_, hkept ▸ .refl _⟩, fun _ => rfl⟩
    unfold Reads
    exact hreads
  | branch condition onTrue onFalse line ihTrue ihFalse => exact .branch ihTrue ihFalse
  | whileLoop condition body line ih => exact .whileLoop ih
  | forLoop init condition update body line ih => exact .forLoop ih
  | ret value line =>
    intro _ S state hscope
    unfold check
    refine clean_bind (checkReturn_reads value line hscope) ?_
    rintro out after ⟨hreads, hext⟩
    refine clean_pure ⟨⟨?_, hext⟩, fun _ => rfl⟩
    unfold Reads
    exact hreads
  | breakOut line =>
    intro _ S state hscope
    unfold check
    refine clean_bind (checkBreak_kept line) ?_
    intro _ after hext
    exact clean_pure ⟨⟨trivial, hext⟩, fun _ => rfl⟩
  | continueOn line =>
    intro _ S state hscope
    unfold check
    refine clean_bind (Q := fun _ after => after = state) (fun _ => rfl) ?_
    rintro _ _ rfl
    exact clean_pure ⟨⟨trivial, .refl _⟩, fun _ => rfl⟩
  | empty line =>
    intro _ S state hscope
    exact clean_pure ⟨⟨trivial, .refl _⟩, fun _ => rfl⟩

end Stmt

/-! ## Methods -/

/-- A parameter has a value from the start. -/
theorem clean_declareParam (name : String) (ty : Ty) (line : Nat)
    (hscope : state.scope.Stored S) (hslot : state.scope.nextSlot ∈ S) :
    (declareParam name ty line).Clean state fun _ after => after.scope.Stored S
      ∧ after.scope.nextSlot = min Scope.maxSlot (state.scope.nextSlot + max 1 ty.slots) := by
  unfold declareParam Scope.declareParam Clean Check.run
  dsimp only
  split
  · next hok =>
    split at hok
    · cases hok
    · cases hok
      refine fun _ => ⟨⟨⟨fun pair hpair => ?_, hscope.nested.aside, hscope.nested.latest⟩,
        fun v hv => ?_, hscope.receiver⟩, rfl⟩
      · rcases Scope.mem_insert hpair with rfl | hold
        · exact le_rfl
        · exact hscope.nested.visible pair hold
      · rcases Scope.mem_vars.mp hv with ⟨pair, hpair, rfl⟩ | ⟨entry, hentry, rfl⟩
        · rcases Scope.mem_insert hpair with rfl | hold
          · exact ⟨rfl, hslot⟩
          · exact hscope.vars _ (Scope.mem_vars_visible hold)
        · exact hscope.vars _ (Scope.mem_vars_shadowed hentry)
  · exact fun h => by cases h

theorem declareParams_stored (params : List (FormalParam × Ty)) (hscope : state.scope.Stored S)
    (hslots : ∀ v ∈ paramLocals state.scope.nextSlot (params.map Prod.snd), v.slot ∈ S) :
    (declareParams params).Clean state fun _ after => after.scope.Stored S := by
  induction params generalizing state with
  | nil => exact clean_pure hscope
  | cons first rest ih =>
    obtain ⟨param, ty⟩ := first
    unfold declareParams
    refine clean_bind (clean_declareParam _ ty _ hscope (hslots _ List.mem_cons_self)) ?_
    rintro _ middle ⟨hmiddle, hnext⟩
    refine ih hmiddle fun v hv => hslots v (List.mem_cons_of_mem _ ?_)
    rwa [hnext] at hv

theorem paramLocals_zip {α : Type} (slot : Nat) (as : List α) (types : List Ty) {v : Local}
    (h : v ∈ paramLocals slot ((as.zip types).map Prod.snd)) : v ∈ paramLocals slot types := by
  induction as generalizing slot types with
  | nil => cases h
  | cons a as ih =>
    cases types with
    | nil => cases h
    | cons ty types =>
      rcases List.mem_cons.mp h with rfl | h
      · exact List.mem_cons_self
      · exact List.mem_cons_of_mem _ (ih _ types h)

namespace MethodDecl

/-- Receiver and parameters, by their slots. -/
def entrySlots (method : MethodDecl) : List Nat :=
  let first := if method.mods.isStatic then 0 else 1
  List.range first ++ (paramLocals first method.paramTypes).map Local.slot

/-- Every local of the method has an initializer. -/
def initsLocals (method : MethodDecl) : Bool :=
  method.body.all fun body => Stmt.listInitsLocals body.stmts

theorem stored_start (method : MethodDecl) (returnTy : Ty) (exceptions : List Ty) :
    (Scope.start returnTy exceptions method.mods.isStatic).Stored { s | s ∈ method.entrySlots } := by
  refine ⟨⟨fun pair hpair => (List.not_mem_nil hpair).elim,
    fun entry hentry => (List.not_mem_nil hentry).elim, .nil⟩,
    fun v hv => (List.not_mem_nil hv).elim, fun hinstance => List.mem_append_left _ ?_⟩
  change method.mods.isStatic = false at hinstance
  simp [hinstance]

/-- The body of a method that is analyzed without an error reads slots that were stored to before it
or by it. -/
theorem check_reads {method : MethodDecl} {signature : MethodSignature}
    (hsignature : method.signature = some signature) (hinits : method.initsLocals = true)
    (registry : Registry) :
    (method.check site).Clean registry fun out _ => out.Reads { s | s ∈ out.entrySlots } := by
  let scope := Scope.start signature.returnTy signature.exceptions method.mods.isStatic
  have hslots : ∀ v ∈ paramLocals scope.nextSlot
      ((method.params.zip signature.params).map Prod.snd), v.slot ∈ method.entrySlots := by
    intro v hv
    refine List.mem_append_right _ (List.mem_map_of_mem ?_)
    have hparams : method.paramTypes = signature.params := by
      unfold paramTypes
      rw [hsignature]
      rfl
    rw [hparams]
    exact paramLocals_zip _ _ _ hv
  have hchecked : (method.checkBody site signature).Clean { registry, scope } fun out _ =>
      out.Reads { s | s ∈ out.entrySlots } := by
    rw [checkBody_eq]
    refine clean_bind (declareParams_stored _ (method.stored_start _ _) hslots) ?_
    intro _ s hs
    refine clean_bind (clean_optional (S := fun (out : Option Block) _ => ∀ body : Block,
      out = some body → Stmt.ListReads { s | s ∈ method.entrySlots } body.stmts)
        (fun _ body hbody => by cases hbody) fun given hgiven => ?_)
        fun out _ hout => clean_read_bind (clean_pure hout)
    unfold initsLocals at hinits
    rw [hgiven] at hinits
    refine clean_bind (Stmt.checkList_reads (fun s _ => s.check_reads) hinits hs) ?_
    rintro stmts after ⟨hreads, -⟩
    refine clean_read_bind (clean_note fun _ body hbody => ?_)
    cases hbody
    exact hreads
  intro herrors
  rw [run_check site hsignature] at herrors ⊢
  exact hchecked herrors

end MethodDecl

end ClassCompiler
