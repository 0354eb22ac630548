import ClassCompiler.Proofs.Body.Returns
import ClassCompiler.Proofs.Code.Confined
import ClassCompiler.Proofs.Code.Success
import Mathlib.Data.Set.Basic

/-!
# Control flow of statements

Where the code of a statement can go, and which slots have been stored to when it gets there. The end
of the code is reached only if the statement does not return by its form, and a jump out of it comes
only from a `break` or a `continue` that stands there.

* `Stmt.Reads`, `Stmt.stores`: the slots that a statement reads, and those that it surely stores
* `At`: a point that is reached under a condition, with some slots stored to
* `Stmt.Accepted.flows`
-/

namespace ClassCompiler

open Emit

/-! ## Slots of a statement -/

namespace Expr

/-- The initializer of a local reads what its right side reads, and stores to the local. -/
def InitReads (S : Set Nat) : Expr → Prop
  | assign _ .plain (name _ _ (some (.slot _))) rhs => rhs.Reads S
  | e => e.Reads S

def initStores : Expr → Set Nat
  | assign _ .plain (name _ _ (some (.slot slot))) _ => {slot}
  | _ => ∅

theorem init_cases (e : Expr) :
    (∃ n m text slot rhs, e = assign n .plain (name m text (some (.slot slot))) rhs)
      ∨ (∀ S, e.InitReads S = e.Reads S) ∧ e.initStores = ∅ := by
  unfold InitReads initStores
  split
  · exact .inl ⟨_, _, _, _, _, rfl⟩
  · exact .inr ⟨fun _ => rfl, rfl⟩

end Expr

/-- Initializers in turn; each may read what the ones before it have stored to. -/
def InitsRead (S : Set Nat) : List Expr → Prop
  | [] => True
  | first :: rest => first.InitReads S ∧ InitsRead (S ∪ first.initStores) rest

def initsStore : List Expr → Set Nat
  | [] => ∅
  | first :: rest => first.initStores ∪ initsStore rest

namespace ForInit

def Reads (S : Set Nat) : ForInit → Prop
  | exprs es => ∀ e ∈ es, e.Reads S
  | decl d => InitsRead S d.initializers

def stores : ForInit → Set Nat
  | exprs _ => ∅
  | decl d => initsStore d.initializers

end ForInit

namespace Stmt

/-- The slots that are stored to behind the statement, on every path. -/
def stores : Stmt → Set Nat
  | declare decl => initsStore decl.initializers
  | _ => ∅

/-- The slots that the header of a loop stores to. -/
def headerStores (init : Option ForInit) : Set Nat := init.elim ∅ ForInit.stores

mutual

/-- Whatever the statement reads is in the set or has been stored to before by the statement. -/
def Reads (S : Set Nat) : Stmt → Prop
  | block stmts _ => ListReads S stmts
  | declare decl => InitsRead S decl.initializers
  | expr e _ => e.Reads S
  | branch condition onTrue onFalse _ => condition.Reads S ∧ onTrue.Reads S ∧
    match onFalse with
      | none => True
      | some stmt => stmt.Reads S
  | whileLoop condition body _ => condition.Reads S ∧ body.Reads S
  | forLoop init condition update body _ => (∀ i, init = some i → i.Reads S)
    ∧ (∀ e, condition = some e → e.Reads (S ∪ headerStores init))
    ∧ (∀ e ∈ update, e.Reads (S ∪ headerStores init))
    ∧ body.Reads (S ∪ headerStores init)
  | ret value _ => ∀ e, value = some e → e.Reads S
  | _ => True

def ListReads (S : Set Nat) : List Stmt → Prop
  | [] => True
  | first :: rest => first.Reads S ∧ ListReads (S ∪ first.stores) rest

end

end Stmt

/-! ### All slots -/

theorem initsRead_univ (es : List Expr) : InitsRead Set.univ es := by
  induction es with
  | nil => trivial
  | cons first rest ih =>
    refine ⟨?_, ?_⟩
    · unfold Expr.InitReads
      split <;> exact Expr.reads_univ _
    · rwa [Set.univ_union]

theorem ForInit.reads_univ (init : ForInit) : init.Reads Set.univ := by
  cases init with
  | exprs es => exact fun e _ => e.reads_univ
  | decl d => exact initsRead_univ _

theorem Stmt.listReads_univ {stmts : List Stmt} (h : ∀ s ∈ stmts, s.Reads Set.univ) :
    ListReads Set.univ stmts := by
  induction stmts with
  | nil => trivial
  | cons first rest ih =>
    refine ⟨h first List.mem_cons_self, ?_⟩
    rw [Set.univ_union]
    exact ih fun s hs => h s (List.mem_cons_of_mem _ hs)

theorem Stmt.reads_univ (s : Stmt) : s.Reads Set.univ := by
  induction s using Stmt.induction with
  | block stmts line ih =>
    unfold Reads
    exact listReads_univ ih
  | declare decl =>
    unfold Reads
    exact initsRead_univ _
  | expr e line =>
    unfold Reads
    exact e.reads_univ
  | branch condition onTrue onFalse line ihTrue ihFalse =>
    unfold Reads
    refine ⟨condition.reads_univ, ihTrue, ?_⟩
    cases onFalse with
    | none => trivial
    | some stmt => exact ihFalse stmt rfl
  | whileLoop condition body line ih =>
    unfold Reads
    exact ⟨condition.reads_univ, ih⟩
  | forLoop init condition update body line ih =>
    unfold Reads
    rw [Set.univ_union]
    exact ⟨fun i _ => i.reads_univ, fun e _ => e.reads_univ, fun e _ => e.reads_univ, ih⟩
  | ret value line =>
    unfold Reads
    exact fun e _ => e.reads_univ
  | breakOut | continueOn | empty => trivial

/-! ## Points of the code -/

/-- The point is reached only if the condition holds, and only with the slots stored to. -/
def At (p : Prop) (S : Set Nat) (slots : Set Nat) : Prop := p ∧ S ⊆ slots

variable {p q : Prop} {S T : Set Nat} {targets : Targets (Set Nat)}

theorem At.mono {slots : Set Nat} (h : At p S slots) (himp : p → q) (hsub : T ⊆ S) : At q T slots :=
  ⟨himp h.1, hsub.trans h.2⟩

namespace Emit

variable {piece : Emit Unit} {pre post : Set Nat → Prop}

theorem Confined.flows (h : piece.Confined S (targets.map Prod.fst)) (hpiece : piece.Succeeds)
    (htargets : ∀ t ∈ targets, ∀ slots, At p S slots → t.2 slots) :
    piece.Meets slotMachine Instr.ReadsStored targets (At p S) (At p S) :=
  h.meets hpiece (fun _ h => h.2) (fun _ _ h hsub => ⟨h.1, h.2.trans hsub⟩) htargets

/-- A piece without jumps to outside. -/
theorem Confined.flows_closed (h : piece.Confined S []) (hpiece : piece.Succeeds) :
    piece.Meets slotMachine Instr.ReadsStored targets (At p S) (At p S) := by
  have hpiece : piece.Meets slotMachine Instr.ReadsStored [] (At p S) (At p S) :=
    Confined.flows h hpiece fun _ ht => (List.not_mem_nil ht).elim
  exact hpiece.widen (List.nil_subset _)

/-- Nothing comes behind a jump. -/
theorem flows_goto {label : Label} {condition : Set Nat → Prop}
    (hmem : (label, condition) ∈ targets) (h : ∀ slots, pre slots → condition slots) :
    (goto label).Meets slotMachine Instr.ReadsStored targets pre post := by
  refine meets_instr (fun _ heq => by cases heq) fun slots hslots =>
    ⟨Instr.readsStored_of_access rfl, ?_⟩
  rintro effect ⟨after, hafter, hpermits⟩
  obtain rfl := Option.some.inj hafter
  cases effect with
  | next => cases hpermits.1
  | jump target =>
    obtain ⟨⟨op, hop⟩, rfl⟩ := hpermits
    cases hop
    exact ⟨condition, hmem, h _ hslots⟩
  | leave => trivial

theorem flows_place {label : Label} {condition : Set Nat → Prop}
    (hmem : (label, condition) ∈ targets) (h : ∀ slots, pre slots → post slots)
    (hjump : ∀ slots, condition slots → post slots) :
    (place label).Meets slotMachine Instr.ReadsStored targets pre post := by
  refine meets_place hmem (fun slots hslots => ⟨Instr.readsStored_of_access rfl, ?_⟩) hjump
  rintro effect ⟨after, hafter, hpermits⟩
  obtain rfl := Option.some.inj hafter
  cases effect with
  | next => exact hpermits.2 ▸ h slots hslots
  | jump target =>
    obtain ⟨⟨op, hop⟩, -⟩ := hpermits
    cases hop
  | leave => trivial

theorem flows_ret (ty : Ty) :
    (instr (.ret ty)).Meets slotMachine Instr.ReadsStored targets pre post := by
  obtain ⟨op, hop, hreturn, haccess⟩ : ∃ op, Instr.ret ty = .noArg op ∧ op.isReturn = true
      ∧ op.shortAccess? = none := by
    unfold Instr.ret
    refine ⟨_, rfl, ?_⟩
    split
    · exact ⟨rfl, rfl⟩
    · cases ty.kind <;> exact ⟨rfl, rfl⟩
  rw [hop]
  refine meets_instr (fun _ heq => by cases heq) fun slots hslots =>
    ⟨Instr.readsStored_of_access haccess, ?_⟩
  rintro effect ⟨after, hafter, hpermits⟩
  cases effect with
  | next =>
    have hfalls := hpermits.1
    simp [Instr.fallsThrough, Instr.opCode?, hreturn] at hfalls
  | jump target =>
    obtain ⟨⟨op, hop⟩, -⟩ := hpermits
    cases hop
  | leave => trivial

/-- Behind a store, its slot has been stored to. -/
theorem flows_store (ty : Ty) (slot : Nat) : (instr (.store ty slot)).Meets slotMachine
    Instr.ReadsStored targets (At p S) (At p (S ∪ {slot})) := by
  have haccess := Instr.access?_store ty slot
  refine meets_instr (fun _ heq => ?_) fun slots hslots => ⟨fun access hfound hmode => ?_, ?_⟩
  · rw [heq] at haccess
    cases haccess
  · rw [haccess] at hfound
    cases hfound
    exact (hmode rfl).elim
  · rintro effect ⟨after, hafter, hpermits⟩
    obtain rfl := Option.some.inj hafter
    cases effect with
    | next =>
      obtain rfl := hpermits.2
      refine ⟨hslots.1, Set.union_subset (hslots.2.trans (Instr.subset_stored _ _)) ?_⟩
      unfold Instr.stored
      rw [haccess]
      exact Set.singleton_subset_iff.mpr (Set.mem_insert slot _)
    | jump target =>
      obtain ⟨⟨op, hop⟩, -⟩ := hpermits
      rw [hop] at haccess
      cases haccess
    | leave => trivial

theorem flows_part {α : Type} {step : α → Emit Unit} {part : Option α}
    (hnone : part = none → ∀ slots : Set Nat, pre slots → post slots)
    (h : ∀ a, part = some a → (step a).Meets slotMachine Instr.ReadsStored targets pre post) :
    (Emit.part step part).Meets slotMachine Instr.ReadsStored targets pre post := by
  cases part with
  | none => exact meets_pure (hnone rfl)
  | some a => exact h a rfl

theorem flows_forM {α : Type} {step : α → Emit Unit} {l : List α}
    (h : ∀ a ∈ l, (step a).Meets slotMachine Instr.ReadsStored targets pre pre) :
    (l.forM step).Meets slotMachine Instr.ReadsStored targets pre pre := by
  induction l with
  | nil => exact meets_pure fun _ h => h
  | cons a rest ih =>
    exact meets_bind (h a List.mem_cons_self) (ih fun b hb => h b (List.mem_cons_of_mem _ hb))

end Emit

/-! ## Expressions in statements -/

variable {ctx : BodyCtx} (env : CodeEnv)

/-- A literal that is always true has no jump. -/
theorem Expr.exitCode_of_alwaysTrue {condition : Expr} (h : alwaysTrue (some condition) = true)
    (target : Label) : condition.exitCode env target = pure () := by
  unfold alwaysTrue at h
  split at h
  · contradiction
  · next heq =>
    cases heq
    rfl
  · cases h

/-- A condition jumps out unless it is always true. -/
theorem Expr.Accepted.exitFlows {condition : Expr} {ty : Ty} (h : condition.Accepted ctx ty)
    (hreads : condition.Reads S) {out : Label} {exit : Set Nat → Prop}
    (hmem : (out, exit) ∈ targets)
    (hexit : alwaysTrue (some condition) = false → ∀ slots, At p S slots → exit slots) :
    (condition.exitCode env out).Meets slotMachine Instr.ReadsStored targets (At p S) (At p S) := by
  cases halways : alwaysTrue (some condition) with
  | true =>
    rw [exitCode_of_alwaysTrue env halways]
    exact meets_pure fun _ h => h
  | false =>
    have hconfined := (condition.code_confined env.registry hreads).branch out false
    have hflows : (condition.exitCode env out).Meets slotMachine Instr.ReadsStored [(out, exit)]
        (At p S) (At p S) := by
      refine Confined.flows hconfined (h.exitCode env out) fun t ht => ?_
      rw [List.mem_singleton.mp ht]
      exact hexit halways
    exact hflows.widen (List.cons_subset.mpr ⟨hmem, List.nil_subset _⟩)

theorem Expr.AcceptedStatement.flows {e : Expr} (h : e.AcceptedStatement ctx) (hreads : e.Reads S) :
    (e.statementCode env).Meets slotMachine Instr.ReadsStored targets (At p S) (At p S) := by
  obtain ⟨-, ty, haccepted⟩ := h
  exact (Expr.statementCode_confined env hreads).flows_closed (haccepted.statementCode env)

/-- The right side of an initializer is computed before its local is stored to. -/
theorem Expr.Accepted.initFlows {e : Expr} {ty : Ty} (h : e.Accepted ctx ty)
    (hreads : e.InitReads S) : (e.valueCode env).Meets slotMachine Instr.ReadsStored targets
      (At p S) (At p (S ∪ e.initStores)) := by
  rcases e.init_cases with ⟨n, m, text, slot, rhs, rfl⟩ | ⟨hother, hstores⟩
  · cases h with
    | assign _ _ hlhs hrhs hfits =>
      have hright : (rhs.code env.registry).value.Meets slotMachine Instr.ReadsStored targets
          (At p S) (At p S) := (rhs.code_confined env.registry hreads).value.flows_closed
        (hrhs.succeeds env.registry).value
      have hkeep : (Emit.optionally (!n.isStatement) ((Place.slot slot).keep ty)).Confined S [] :=
        confined_ite (fun _ => Place.keep_confined ty _) fun _ => confined_pure _
      have hkeeps : (Emit.optionally (!n.isStatement) ((Place.slot slot).keep ty)).Succeeds :=
        succeeds_optionally _ ((Place.slot slot).keep_succeeds ty)
      show Emit.Meets _ _ _ _ _ (ExprCode.assignValue env.registry n .plain _ rhs (pure ()) _)
      have hplace : (Expr.name m text (some (.slot slot))).place = .ok (.slot slot) := rfl
      rw [ExprCode.assignValue_eq hlhs hrhs hplace hfits, Emit.pure_bind]
      exact meets_bind hright (meets_bind (hkeep.flows_closed hkeeps) (flows_store ty slot))
  · rw [hstores, Set.union_empty]
    rw [hother S] at hreads
    exact (e.code_confined env.registry hreads).value.flows_closed (h.succeeds env.registry).value

theorem initsFlows {es : List Expr} (h : ∀ e ∈ es, e.AcceptedStatement ctx)
    (hreads : InitsRead S es) :
    (es.forM fun e => e.valueCode env).Meets slotMachine Instr.ReadsStored targets (At p S)
      (At p (S ∪ initsStore es)) := by
  induction es generalizing S with
  | nil => exact meets_pure fun _ h => h.mono id (by simp [initsStore])
  | cons first rest ih =>
    obtain ⟨-, ty, haccepted⟩ := h first List.mem_cons_self
    have hrest := ih (fun e he => h e (List.mem_cons_of_mem _ he)) hreads.2
    rw [Set.union_assoc] at hrest
    exact meets_bind (haccepted.initFlows env hreads.1) hrest

theorem ForInit.Accepted.flows {init : ForInit} (h : init.Accepted ctx) (hreads : init.Reads S) :
    (init.code env).Meets slotMachine Instr.ReadsStored targets (At p S)
      (At p (S ∪ init.stores)) := by
  cases init with
  | exprs es =>
    refine (flows_forM fun e he => (h e he).flows env (hreads e he)).mono (fun _ h => h)
      fun _ h => h.mono id ?_
    simp [stores]
  | decl d => exact initsFlows env h.initializers hreads

/-! ## Statements -/

/-- The labels of the loop around, with what is known where a `break` and a `continue` stand. -/
def loopConditions (loop : Option LoopLabels) (onBreak onContinue : Set Nat → Prop) :
    Targets (Set Nat) :=
  loop.elim [] fun labels => [(labels.onBreak, onBreak), (labels.onContinue, onContinue)]

namespace Stmt

/-- Where the code of a statement can go: a `break` and a `continue` meet the conditions on the loop
around, and the end is reached only if the statement does not return. -/
def Flows (env : CodeEnv) (loop : Option LoopLabels) (s : Stmt) : Prop :=
  ∀ (p : Prop) (S : Set Nat) (onBreak onContinue : Set Nat → Prop), s.Reads S →
    (s.breaks = true → ∀ slots, At p S slots → onBreak slots) →
    (∀ slots, At p S slots → onContinue slots) →
    (s.code env loop).Meets slotMachine Instr.ReadsStored (loopConditions loop onBreak onContinue)
      (At p S) (At (p ∧ s.returns = false) (S ∪ s.stores))

theorem listFlows {loop : Option LoopLabels} {onBreak onContinue : Set Nat → Prop}
    {stmts : List Stmt} (h : ∀ s ∈ stmts, s.Flows env loop) (hreads : ListReads S stmts)
    (hbreak : listBreaks stmts = true → ∀ slots, At p S slots → onBreak slots)
    (hcontinue : ∀ slots, At p S slots → onContinue slots) :
    (listCode env loop stmts).Meets slotMachine Instr.ReadsStored
      (loopConditions loop onBreak onContinue) (At p S) (At (p ∧ listReturns stmts = false) S) := by
  induction stmts generalizing p S with
  | nil => exact meets_pure fun _ h => h.mono (fun hp => ⟨hp, rfl⟩) subset_rfl
  | cons first rest ih =>
    obtain ⟨hfirst, hrest⟩ := hreads
    unfold listBreaks at hbreak
    have hinside : ∀ slots, At (p ∧ first.returns = false) (S ∪ first.stores) slots → At p S slots :=
      fun _ h => h.mono And.left Set.subset_union_left
    have hone := h first List.mem_cons_self p S onBreak onContinue hfirst
      (fun hb => hbreak (by rw [hb]; rfl)) hcontinue
    have htwo := ih (fun s hs => h s (List.mem_cons_of_mem _ hs)) hrest
      (fun hb slots hslots => hbreak (by rw [hb, Bool.or_true]) slots (hinside slots hslots))
      fun slots hslots => hcontinue slots (hinside slots hslots)
    refine meets_bind hone (htwo.mono (fun _ h => h) fun slots h => ?_)
    exact h.mono (fun ⟨⟨hp, hone⟩, htwo⟩ => ⟨hp, by unfold listReturns; rw [hone, htwo]; rfl⟩)
      Set.subset_union_left

/-- A statement without jumps to outside that does not return. -/
theorem flows_of_closed {loop : Option LoopLabels} {s : Stmt} (hreturns : s.returns = false)
    (h : ∀ (p : Prop) (S : Set Nat), s.Reads S → ∀ targets,
      (s.code env loop).Meets slotMachine Instr.ReadsStored targets (At p S)
        (At p (S ∪ s.stores))) : s.Flows env loop := fun p S _ _ hreads _ _ =>
  (h p S hreads _).mono (fun _ h => h) fun _ h => h.mono (fun hp => ⟨hp, hreturns⟩) subset_rfl

theorem flows_ret {value : Option Expr} {line : Nat} {loop : Option LoopLabels}
    (h : ReturnAccepted ctx value) : (ret value line).Flows env loop := by
  intro p S onBreak onContinue hreads _ _
  unfold Reads at hreads
  cases value with
  | none => exact Emit.flows_ret .void
  | some e =>
    obtain ⟨-, ty, haccepted, -⟩ := h
    exact meets_bind ((e.code_confined env.registry (hreads e rfl)).value.flows_closed
      (haccepted.succeeds env.registry).value) (Emit.flows_ret env.returnTy)

theorem flows_branch {loop : Option LoopLabels} {condition : Expr} {onTrue : Stmt}
    {onFalse : Option Stmt} {line : Nat} (hcondition : condition.Accepted ctx .boolean)
    (htrue : onTrue.Flows env loop) (hfalse : ∀ s, onFalse = some s → s.Flows env loop) :
    (branch condition onTrue onFalse line).Flows env loop := by
  intro p S onBreak onContinue hreads hbreak hcontinue
  unfold Reads at hreads
  unfold breaks at hbreak
  obtain ⟨hreadsCondition, hreadsTrue, hreadsFalse⟩ := hreads
  have htrue := htrue p S onBreak onContinue hreadsTrue
    (fun hb => hbreak (by rw [hb]; rfl)) hcontinue
  rw [code_branch]
  refine meets_newLabel (At p S) fun otherwise => meets_bind
    (hcondition.exitFlows env hreadsCondition List.mem_cons_self fun _ _ h => h)
    (meets_bind (htrue.widen (List.subset_cons_self _ _)) ?_)
  cases onFalse with
  | none =>
    refine flows_place List.mem_cons_self (fun slots h => ?_) fun slots h => ?_
    · exact h.mono (fun hp => ⟨hp.1, by simp [returns]⟩)
        (by simp [stores])
    · exact h.mono (fun hp => ⟨hp, by simp [returns]⟩) (by simp [stores])
  | some stmt =>
    have hfalse := hfalse stmt rfl p S onBreak onContinue hreadsFalse
      (fun hb => hbreak (by simp [hb])) hcontinue
    let after := At (p ∧ (branch condition onTrue (some stmt) line).returns = false) S
    have hafter : ∀ slots, after slots → At (p ∧ (branch condition onTrue (some stmt) line).returns
        = false) (S ∪ (branch condition onTrue (some stmt) line).stores) slots :=
      fun slots h => h.mono id (by simp [stores])
    refine meets_newLabel after fun done => meets_bind (m := fun _ => False)
      (flows_goto List.mem_cons_self fun slots h => ?_)
      (meets_bind (m := At p S) (flows_place (List.mem_cons_of_mem _ List.mem_cons_self)
        (fun _ h => h.elim) fun _ h => h)
      (meets_bind (hfalse.widen fun t ht => List.mem_cons_of_mem _ (List.mem_cons_of_mem _ ht))
      (flows_place List.mem_cons_self (fun slots h => hafter slots ?_) hafter)))
    · exact h.mono (fun hp => ⟨hp.1, by simp [returns, hp.2]⟩) Set.subset_union_left
    · exact h.mono (fun hp => ⟨hp.1, by simp [returns, hp.2]⟩) Set.subset_union_left

theorem flows_whileLoop {loop : Option LoopLabels} {condition : Expr} {body : Stmt} {line : Nat}
    (hcondition : condition.Accepted ctx .boolean)
    (hbody : ∀ labels, body.Flows env (some labels)) :
    (whileLoop condition body line).Flows env loop := by
  intro p S onBreak onContinue hreads _ _
  unfold Reads at hreads
  let after := At (p ∧ (whileLoop condition body line).returns = false) S
  refine meets_newLabel (At p S) fun top => meets_newLabel after fun out => ?_
  have htop : (top, At p S) ∈ (out, after) :: (top, At p S)
      :: loopConditions loop onBreak onContinue := List.mem_cons_of_mem _ List.mem_cons_self
  have hexit : Expr.alwaysTrue (some condition) = false → ∀ slots, At p S slots → after slots :=
    fun halways slots h => h.mono (fun hp => ⟨hp, by simp [returns, halways]⟩) subset_rfl
  have hout : body.breaks = true → ∀ slots, At p S slots → after slots :=
    fun hb slots h => h.mono (fun hp => ⟨hp, by simp [returns, hb]⟩) subset_rfl
  refine meets_bind (m := At p S) (flows_place htop (fun _ h => h) fun _ h => h)
    (meets_bind (hcondition.exitFlows env hreads.1 List.mem_cons_self hexit)
    (meets_bind ((hbody ⟨out, top⟩ p S after (At p S) hreads.2 hout fun _ h => h).widen ?_)
    (meets_bind (m := fun _ => False) (flows_goto htop fun slots h =>
      h.mono And.left Set.subset_union_left)
    (flows_place List.mem_cons_self (fun _ h => h.elim) fun slots h =>
      h.mono id (by simp [stores])))))
  exact List.cons_subset.mpr ⟨List.mem_cons_self, List.cons_subset.mpr ⟨htop, List.nil_subset _⟩⟩

theorem flows_forLoop {loop : Option LoopLabels} {init : Option ForInit}
    {condition : Option Expr} {update : List Expr} {body : Stmt} {line : Nat}
    (hinit : ∀ i, init = some i → i.Accepted ctx)
    (hcondition : ∀ e, condition = some e → e.Accepted ctx .boolean)
    (hbody : ∀ labels, body.Flows env (some labels))
    (hupdate : ∀ e ∈ update, e.AcceptedStatement ctx) :
    (forLoop init condition update body line).Flows env loop := by
  intro p S onBreak onContinue hreads _ _
  unfold Reads at hreads
  obtain ⟨hreadsInit, hreadsCondition, hreadsUpdate, hreadsBody⟩ := hreads
  generalize hT : S ∪ headerStores init = T at hreadsCondition hreadsUpdate hreadsBody
  rw [code_forLoop]
  let after := At (p ∧ (forLoop init condition update body line).returns = false) T
  have hheader : (Emit.part (ForInit.code env) init).Meets slotMachine Instr.ReadsStored
      (loopConditions loop onBreak onContinue) (At p S) (At p T) := by
    subst hT
    refine flows_part (fun hnone slots h => ?_) fun i hi => ?_
    · exact h.mono id (by simp [hnone, headerStores])
    · have hflows : (i.code env).Meets slotMachine Instr.ReadsStored
          (loopConditions loop onBreak onContinue) (At p S) (At p (S ∪ i.stores)) :=
        (hinit i hi).flows env (hreadsInit i hi)
      rwa [hi]
  refine meets_bind hheader (meets_newLabel (At p T) fun top => meets_newLabel (At p T) fun again =>
    meets_newLabel after fun out => ?_)
  have hagain : (again, At p T) ∈ (out, after) :: (again, At p T) :: (top, At p T)
      :: loopConditions loop onBreak onContinue := List.mem_cons_of_mem _ List.mem_cons_self
  have htop : (top, At p T) ∈ (out, after) :: (again, At p T) :: (top, At p T)
      :: loopConditions loop onBreak onContinue :=
    List.mem_cons_of_mem _ (List.mem_cons_of_mem _ List.mem_cons_self)
  have hout : body.breaks = true → ∀ slots, At p T slots → after slots :=
    fun hb slots h => h.mono (fun hp => ⟨hp, by simp [returns, hb]⟩) subset_rfl
  refine meets_bind (m := At p T) (flows_place htop (fun _ h => h) fun _ h => h)
    (meets_bind (m := At p T) (flows_part (fun _ _ h => h) fun e he => ?_)
    (meets_bind ((hbody ⟨out, again⟩ p T after (At p T) hreadsBody hout fun _ h => h).widen ?_)
    (meets_bind (m := At p T) (flows_place hagain (fun slots h =>
      h.mono And.left Set.subset_union_left) fun _ h => h)
    (meets_bind (m := At p T) (flows_forM fun e he => (hupdate e he).flows env (hreadsUpdate e he))
    (meets_bind (m := fun _ => False) (flows_goto htop fun _ h => h)
    (flows_place List.mem_cons_self (fun _ h => h.elim) fun slots h => h.mono id ?_))))))
  · refine (hcondition e he).exitFlows env (hreadsCondition e he) List.mem_cons_self
      fun halways slots h => h.mono (fun hp => ⟨hp, ?_⟩) subset_rfl
    simp [returns, he, halways]
  · exact List.cons_subset.mpr ⟨List.mem_cons_self,
      List.cons_subset.mpr ⟨hagain, List.nil_subset _⟩⟩
  · subst hT
    simp [stores]

/-- Where the code of an accepted statement can go. -/
theorem Accepted.flows {inLoop : Bool} {s : Stmt} (h : s.Accepted ctx inLoop) :
    ∀ loop : Option LoopLabels, (inLoop = true → loop.isSome) → s.Flows env loop := by
  induction h with
  | block _ ih =>
    intro loop hloop p S onBreak onContinue hreads hbreak hcontinue
    unfold Reads at hreads
    unfold breaks at hbreak
    refine (listFlows env (fun s hs => ih s hs loop hloop) hreads hbreak hcontinue).mono
      (fun _ h => h) fun slots h => ?_
    unfold returns
    exact h.mono id (by simp [stores])
  | declare hdecl =>
    refine fun loop _ => flows_of_closed env rfl fun p S hreads targets => ?_
    unfold Reads at hreads
    exact initsFlows env hdecl.initializers hreads
  | expr he =>
    refine fun loop _ => flows_of_closed env rfl fun p S hreads targets => ?_
    unfold Reads at hreads
    exact (he.flows env hreads).mono (fun _ h => h) fun _ h => h.mono id (by simp [stores])
  | branch hcondition _ _ ihtrue ihfalse =>
    exact fun loop hloop => flows_branch env hcondition (ihtrue loop hloop)
      fun s hs => ihfalse s hs loop hloop
  | whileLoop hcondition _ ih =>
    exact fun loop _ => flows_whileLoop env hcondition fun labels => ih (some labels) fun _ => rfl
  | forLoop hinit hcondition _ hupdate ih =>
    exact fun loop _ => flows_forLoop env hinit hcondition (fun labels => ih (some labels)
      fun _ => rfl) hupdate
  | ret hvalue => exact fun loop _ => flows_ret env hvalue
  | breakOut =>
    intro loop hloop p S onBreak onContinue _ hbreak _
    cases loop with
    | none => cases hloop rfl
    | some labels => exact flows_goto List.mem_cons_self (hbreak rfl)
  | continueOn =>
    intro loop hloop p S onBreak onContinue _ _ hcontinue
    cases loop with
    | none => cases hloop rfl
    | some labels => exact flows_goto (List.mem_cons_of_mem _ List.mem_cons_self) hcontinue
  | empty =>
    refine fun loop _ => flows_of_closed env rfl fun p S _ targets => ?_
    exact meets_pure fun _ h => h.mono id (by simp [stores])

end Stmt

/-! ## Methods -/

namespace MethodDecl

variable {registry last : Registry} {owner : Ty} {method : MethodDecl}
  {signature : MethodSignature} {frame : FrameInfo}

/-- Whatever the body of a method reads is in the set or has been stored to before by the body. -/
def Reads (S : Set Nat) (method : MethodDecl) : Prop :=
  ∀ body, method.body = some body → Stmt.ListReads S body.stmts

theorem reads_univ (method : MethodDecl) : method.Reads Set.univ :=
  fun _ _ => Stmt.listReads_univ fun s _ => s.reads_univ

/-- The end of the code is reached if the body does not return and nothing is put behind it. -/
def FallsOff (method : MethodDecl) (returnTy : Ty) : Prop :=
  (∀ body, method.body = some body → Stmt.listReturns body.stmts = false)
    ∧ (returnTy = .void → method.mods.isAbstract = true)

theorem Analyzed.flows (h : method.Analyzed last owner signature frame) (registry : Registry)
    (hreads : method.Reads S) :
    (method.bodyCode { registry, returnTy := signature.returnTy }).Meets slotMachine
      Instr.ReadsStored [] (At True S) (At (method.FallsOff signature.returnTy) S) := by
  rw [bodyCode_eq]
  let returns := ∀ body, method.body = some body → Stmt.listReturns body.stmts = false
  refine meets_bind (m := At returns S) (flows_part (fun hnone slots h => ?_) fun body hbody => ?_) ?_
  · exact h.mono (fun _ body hbody => by rw [hnone] at hbody; cases hbody) subset_rfl
  · have hstmts : (Stmt.listCode { registry, returnTy := signature.returnTy } none
        body.stmts).Meets slotMachine Instr.ReadsStored
        (loopConditions none (fun _ => True) fun _ => True) (At True S)
        (At (True ∧ Stmt.listReturns body.stmts = false) S) :=
      Stmt.listFlows _ (fun s hs => (h.body body hbody s hs).flows _ none fun h => by cases h)
        (hreads body hbody) (fun _ _ _ => trivial) fun _ _ => trivial
    refine hstmts.mono (fun _ h => h) fun slots h => h.mono (fun hp body' hbody' => ?_) subset_rfl
    rw [hbody] at hbody'
    cases hbody'
    exact hp.2
  · unfold Emit.optionally
    split
    · exact flows_ret .void
    · next htest =>
      refine meets_pure fun slots h => h.mono (fun hp => ⟨hp, fun hvoid => ?_⟩) subset_rfl
      by_contra habstract
      exact htest (by simp [hvoid, habstract])

/-- The code of an analyzed method reads slots that have been stored to, never leaves for a label that
it does not have, and reaches its end only if it falls off. -/
theorem Analyzed.slotSafe (h : method.Analyzed last owner signature frame) (registry : Registry)
    (hreads : method.Reads S) : slotMachine.Safe Instr.ReadsStored
      ((method.bodyCode { registry, returnTy := signature.returnTy }).run 0).code S
      (At (method.FallsOff signature.returnTy) S) fun _ _ => False := by
  have hspec : ∀ t ∈ ([] : Targets (Set Nat)), t.1.id < 0 ∧ (fun _ : Set Nat => False) = t.2 :=
    fun _ ht => (List.not_mem_nil ht).elim
  have hstart : At True S S := ⟨trivial, subset_rfl⟩
  have hsafe := (h.flows registry hreads).safe (h.bodyCode registry) (fun _ _ => False) hspec hstart
  refine ⟨hsafe.ok, hsafe.post, fun n target slots hruns => ?_⟩
  obtain ⟨_, hmem, -⟩ := hsafe.exits n target slots hruns
  exact List.not_mem_nil hmem

end MethodDecl

end ClassCompiler
