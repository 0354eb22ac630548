import ClassCompiler.Proofs.Body.Method
import ClassCompiler.Proofs.Code.Confined

/-!
# Locals with a value

The analysis has one mark per local that says whether it has a value, and it sets the mark where an
assignment stands, on whatever path. While all marks that an expression could set are set already,
its analysis leaves the scope as it was, and it reads marked locals only. This is so all through a
body whose locals get their first values where they are declared.

* `Expr.assigns`: the names that an expression gives a value
* `Scope.Ready`: the marks are right, and complete for some names
* `Expr.check_reads`
-/

namespace ClassCompiler

open Check

/-! ## Assigned names -/

namespace Expr

/-- The simple name that a node gives a value. -/
def assignedName? : Expr → Option String
  | assign _ _ lhs _ => lhs.simpleName?
  | increment _ _ operand => operand.simpleName?
  | _ => none

/-- Is there an assignment to the name, or an increment of it? -/
def assigns (e : Expr) (text : String) : Bool :=
  e.nodes.any fun d => d.assignedName? == some text

variable {e c : Expr} {text : String}

theorem assigns_iff : e.assigns text = true ↔ ∃ d ∈ e.nodes, d.assignedName? = some text := by
  simp [assigns]

theorem assigns_self (h : e.assignedName? = some text) : e.assigns text = true :=
  assigns_iff.mpr ⟨e, mem_nodes_self e, h⟩

theorem assigns_child (hc : c ∈ e.children) (h : c.assigns text = true) :
    e.assigns text = true := by
  obtain ⟨d, hd, hname⟩ := assigns_iff.mp h
  exact assigns_iff.mpr ⟨d, mem_nodes.mpr (.inr ⟨c, hc, hd⟩), hname⟩

end Expr

/-! ## Scopes -/

namespace Scope

/-- Marked variables have slots in the set, and so has the receiver; the variables with the given
names are marked. -/
structure Ready (S : Set Nat) (names : String → Prop) (scope : Scope) : Prop where
  slots : ∀ pair ∈ scope.visible.pairs, pair.2.isInitialized = true → pair.2.slot ∈ S
  marked : ∀ pair ∈ scope.visible.pairs, names pair.1 → pair.2.isInitialized = true
  receiver : scope.isStatic = false → 0 ∈ S

variable {S : Set Nat} {names fewer : String → Prop} {scope : Scope}

theorem Ready.mono (h : scope.Ready S names) (himp : ∀ text, fewer text → names text) :
    scope.Ready S fewer := ⟨h.slots, fun pair hpair hname => h.marked pair hpair (himp _ hname),
      h.receiver⟩

theorem mem_of_lookup? {name : String} {var : Variable} (h : scope.lookup? name = some var) :
    (name, var) ∈ scope.visible.pairs := by
  unfold lookup? Table.get? at h
  obtain ⟨pair, hpair, rfl⟩ := Option.map_eq_some_iff.mp h
  have hname : pair.1 = name := by simpa using List.find?_some hpair
  exact hname ▸ List.mem_of_find?_eq_some hpair

/-- To mark a marked variable changes nothing. -/
theorem markInitialized_eq {name : String}
    (h : ∀ pair ∈ scope.visible.pairs, pair.1 = name → pair.2.isInitialized = true) :
    scope.markInitialized name = scope := by
  have hpairs : (scope.visible.modify name fun var => { var with isInitialized := true }).pairs
      = scope.visible.pairs := by
    refine (List.map_congr_left fun pair hpair => ?_).trans (List.map_id _)
    split
    · next hname =>
      obtain ⟨text, var⟩ := pair
      have hmarked := h _ hpair hname
      cases var
      simp_all
    · rfl
  unfold markInitialized
  obtain ⟨⟨pairs⟩⟩ := scope
  simp only [Table.modify] at hpairs ⊢
  rw [hpairs]

end Scope

/-! ## Names -/

section

variable {S : Set Nat} {env : ExprEnv} {scope : Scope} {n : Node} {text : String}

theorem Expr.reads_leaf {e : Expr} (hchildren : e.children = [])
    (h : ∀ slot, e.slotRead? = some slot → slot ∈ S) : e.Reads S :=
  Expr.reads_of_children h fun _ hc => (List.not_mem_nil (hchildren ▸ hc)).elim

theorem ExprEnv.reads_fieldName {field : FieldRef} (h : field.isStatic = false → 0 ∈ S) :
    (fieldName n text field).Reads S := by
  refine Expr.reads_leaf rfl fun slot hslot => ?_
  change (if field.isStatic then none else some 0) = some slot at hslot
  split at hslot
  · cases hslot
  · next hstatic =>
    cases hslot
    exact h (by simpa using hstatic)

theorem isStatic_of_staticFieldErrors {field : FieldRef} {line : Nat}
    (h : ExprEnv.staticFieldErrors text field line = []) : field.isStatic = true := by
  unfold ExprEnv.staticFieldErrors at h
  split at h
  · assumption
  · cases h

/-- A bound name with a marked variable reads a slot of the set. -/
theorem ExprEnv.bindName_reads (hscope : scope.Ready S names)
    (hmarked : ∀ var, scope.lookup? text = some var → var.isInitialized = true)
    (h : (env.bindName scope n text).2 = []) : (env.bindName scope n text).1.Reads S := by
  unfold bindName at h ⊢
  split
  · next var hvar =>
    refine Expr.reads_leaf rfl fun slot hslot => ?_
    cases hslot
    exact hscope.slots _ (Scope.mem_of_lookup? hvar) (hmarked var hvar)
  · next hnone =>
    rw [hnone] at h
    dsimp only at h ⊢
    split
    · next field hfield =>
      rw [hfield] at h
      dsimp only at h
      refine reads_fieldName fun hinstance => ?_
      split at h
      · rw [isStatic_of_staticFieldErrors h] at hinstance
        cases hinstance
      · next hstatic => exact hscope.receiver (by simpa using hstatic)
    · exact Expr.reads_leaf rfl fun slot hslot => by cases hslot

/-- A local that is read is marked, or there is an error. -/
theorem ExprEnv.readName_reads (hscope : scope.Ready S names)
    (h : (env.readName scope n text).2 = []) : (env.readName scope n text).1.Reads S := by
  obtain ⟨hbind, hread⟩ := List.append_eq_nil_iff.mp h
  refine bindName_reads hscope (fun var hvar => ?_) hbind
  unfold uninitializedErrors at hread
  rw [hvar] at hread
  dsimp only at hread
  split at hread
  · assumption
  · cases hread

end

namespace ExprEnv

variable (env : ExprEnv) (n : Node) (text : String)

theorem local?_bindName {scope : Scope} {found : String}
    (h : (env.bindName scope n text).1.local? = some found) : found = text := by
  unfold bindName at h
  split at h
  · exact (Option.some.inj h).symm
  · split at h <;> cases h

variable {env n text} {S : Set Nat}

theorem staticField_reads {owner : Ty} (h : (env.staticField owner n text).2 = []) :
    (env.staticField owner n text).1.Reads S := by
  unfold staticField at h ⊢
  split
  · next field hfield =>
    rw [hfield] at h
    refine reads_fieldName fun hinstance => ?_
    rw [isStatic_of_staticFieldErrors h] at hinstance
    cases hinstance
  · exact Expr.reads_leaf rfl fun _ hslot => by cases hslot

theorem selectField_reads {target : Expr} (h : target.Reads S) :
    (env.selectField n target text).1.Reads S := by
  have hone : ∀ e : Expr, e.children = [target] → e.slotRead? = none → e.Reads S := by
    intro e hchildren hslot
    refine Expr.reads_of_children (fun slot hread => by rw [hslot] at hread; cases hread) ?_
    rw [hchildren]
    exact fun c hc => List.mem_singleton.mp hc ▸ h
  unfold selectField
  dsimp only
  repeat' split
  · exact hone _ rfl rfl
  · exact hone _ rfl rfl
  · next hstatic => exact reads_fieldName fun hinstance => by rw [hstatic] at hinstance; cases hinstance
  · exact hone _ rfl rfl
  · exact hone _ rfl rfl

theorem selectMethod_reads {receiver : Receiver} {target : Option Expr} {args : List Expr}
    (hthis : target = none → receiver.staticOnly = false → 0 ∈ S)
    (htarget : ∀ t, target = some t → t.Reads S) (hargs : ∀ a ∈ args, a.Reads S)
    (h : (env.selectMethod receiver n target text args).2 = []) :
    (env.selectMethod receiver n target text args).1.Reads S := by
  have hcall : ∀ (m : Node) (method : Option MethodRef),
      (∀ ref, method = some ref → target = none → ref.isStatic = false → 0 ∈ S) →
      (Expr.call m target text args method).Reads S := by
    intro m method hmethod
    refine Expr.reads_of_children (fun slot hslot => ?_) fun c hc => ?_
    · cases target with
      | some t => cases hslot
      | none =>
        cases method with
        | none => cases hslot
        | some ref =>
          change (if ref.isStatic then none else some 0) = some slot at hslot
          split at hslot
          · cases hslot
          · next hinstance =>
            cases hslot
            exact hmethod ref rfl rfl (by simpa using hinstance)
    · rcases List.mem_append.mp hc with hc | hc
      · exact htarget c (Option.mem_toList.mp hc)
      · exact hargs c hc
  unfold selectMethod at h ⊢
  dsimp only at h ⊢
  split
  · exact hcall _ _ fun _ hnone => by cases hnone
  · next hany =>
    rw [if_neg hany] at h
    split
    · next method hmethod =>
      rw [hmethod] at h
      dsimp only at h
      refine hcall _ _ fun ref href hnone hinstance => hthis hnone ?_
      cases href
      rw [hinstance] at h
      by_contra hstatic
      rw [Bool.not_eq_false] at hstatic
      simp [hstatic] at h
    · exact hcall _ _ fun _ hnone => by cases hnone

end ExprEnv

/-! ## Expressions -/

namespace Expr

variable {S : Set Nat} {env : ExprEnv} {scope : Scope} {names : String → Prop}

/-- What an analysis leaves that has nothing to mark. -/
def Kept (S : Set Nat) (before : Scope) (e : Expr) (after : Scope) : Prop :=
  after = before ∧ e.Reads S

theorem Kept.note {e : Expr} {errors : List CompileError} (h : errors = [] → e.Reads S) :
    (Check.note e errors).Clean scope (Kept S scope) := clean_note fun he => ⟨rfl, h he⟩

/-- The names that an expression gives a value are all marked. -/
def Assigned (S : Set Nat) (e : Expr) (scope : Scope) : Prop :=
  scope.Ready S fun text => e.assigns text = true

theorem Assigned.child {e c : Expr} (h : e.Assigned S scope) (hc : c ∈ e.children) :
    c.Assigned S scope := h.mono fun _ => assigns_child hc

/-- A node that reads no slot by itself, above what an analysis has kept. -/
theorem Kept.above {out : Expr} {errors : List CompileError} (hslot : out.slotRead? = none)
    (h : ∀ c ∈ out.children, c.Reads S) : (Check.note out errors).Clean scope (Kept S scope) :=
  Kept.note fun _ => reads_of_children (fun slot hread => by rw [hslot] at hread; cases hread) h

theorem reads_pair {l r : Expr} (hl : l.Reads S) (hr : r.Reads S) : ∀ c ∈ [l, r], c.Reads S := by
  intro c hc
  rcases List.mem_cons.mp hc with rfl | hc
  · exact hl
  · exact List.mem_singleton.mp hc ▸ hr

theorem checkPair_reads {lhs rhs : Expr} {join : Expr → Expr → Check Scope Expr}
    (hlhs : (lhs.check env).Clean scope (Kept S scope))
    (hrhs : (rhs.check env).Clean scope (Kept S scope))
    (hjoin : ∀ l r, l.Reads S → r.Reads S → (join l r).Clean scope (Kept S scope)) :
    (do
      let lhs ← lhs.check env
      let rhs ← rhs.check env
      join lhs rhs : Check Scope Expr).Clean scope (Kept S scope) := by
  refine clean_bind hlhs ?_
  rintro l _ ⟨rfl, hl⟩
  refine clean_bind hrhs ?_
  rintro r _ ⟨rfl, hr⟩
  exact hjoin l r hl hr

theorem checkList_reads {args : List Expr}
    (hargs : ∀ a ∈ args, (a.check env).Clean scope (Kept S scope)) :
    (checkList env args).Clean scope fun out after => after = scope ∧ ∀ a ∈ out, a.Reads S := by
  induction args with
  | nil => exact clean_pure ⟨rfl, fun a ha => (List.not_mem_nil ha).elim⟩
  | cons first rest ih =>
    unfold checkList
    refine clean_bind (hargs first List.mem_cons_self) ?_
    rintro a _ ⟨rfl, ha⟩
    refine clean_bind (ih fun b hb => hargs b (List.mem_cons_of_mem _ hb)) ?_
    rintro out _ ⟨rfl, hout⟩
    exact clean_pure ⟨rfl, List.forall_mem_cons.mpr ⟨ha, hout⟩⟩

/-- A target with a marked name, or with operands. -/
theorem checkTarget_reads {e : Expr} (hscope : scope.Ready S names)
    (hname : ∀ text, e.simpleName? = some text → names text)
    (hcheck : (e.check env).Clean scope (Kept S scope)) :
    (checkTarget env e).Clean scope fun out after =>
      Kept S scope out after ∧ ∀ text, out.local? = some text → e.simpleName? = some text := by
  unfold checkTarget
  split
  · next text htext =>
    unfold bindTarget
    refine clean_read_bind (clean_note fun h => ⟨⟨rfl, ?_⟩, fun found hfound => ?_⟩)
    · exact ExprEnv.bindName_reads hscope (fun var hvar =>
        hscope.marked _ (Scope.mem_of_lookup? hvar) (hname text htext)) h
    · rw [htext, env.local?_bindName _ _ hfound]
  · next hnone =>
    refine clean_map ((hcheck.and_value (P := fun out => out.local? = none)
      (local?_check hnone scope)).mono ?_)
    rintro out after ⟨⟨rfl, hreads⟩, hlocal⟩
    have htarget : (asTarget e out).Reads S ∧ (asTarget e out).local? = none := by
      unfold asTarget markStatement
      split
      · exact ⟨hreads.withNode _, (local?_withNode _ out).trans hlocal⟩
      · exact ⟨hreads, hlocal⟩
    refine ⟨⟨rfl, htarget.1⟩, fun text hfound => ?_⟩
    rw [htarget.2] at hfound
    cases hfound

/-- To mark what is marked keeps the scope. -/
theorem markAssigned_kept {target : Expr} (hscope : scope.Ready S names)
    (h : ∀ text, target.local? = some text → names text) :
    (markAssigned target).Clean scope fun _ after => after = scope := by
  unfold markAssigned
  split
  · next text htext =>
    exact clean_modify (Scope.markInitialized_eq fun pair hpair hname =>
      hscope.marked pair hpair (hname ▸ h text htext))
  · exact clean_pure rfl

theorem checkReceiver_reads {target : Option Expr} (hscope : scope.Ready S names)
    (h : ∀ t, target = some t → (t.check env).Clean scope (Kept S scope)) :
    (checkReceiver env target).Clean scope fun out after => after = scope
      ∧ (out.1 = none → out.2.staticOnly = false → 0 ∈ S) ∧ ∀ t, out.1 = some t → t.Reads S := by
  cases target with
  | none => exact clean_read_bind (clean_pure ⟨rfl, fun _ => hscope.receiver, fun t ht => by cases ht⟩)
  | some target =>
    refine clean_read_bind ?_
    cases env.typeQualifier? scope target with
    | some owner =>
      exact clean_pure ⟨rfl, (fun _ hstatic => by cases hstatic), fun t ht => by cases ht⟩
    | none =>
      refine clean_bind (h target rfl) ?_
      rintro out _ ⟨rfl, hout⟩
      refine clean_pure ⟨rfl, (fun hnone => by cases hnone), fun t ht => ?_⟩
      cases ht
      exact hout

theorem judgeAssign_reads {registry : Registry} {op : AssignOp} {l r : Expr} {line : Nat}
    (hl : l.Reads S) (hr : r.Reads S) : (judgeAssign registry op l r line).1.Reads S := by
  unfold judgeAssign
  dsimp only
  repeat' split
  all_goals first
    | exact hr
    | exact reads_of_children (fun slot hread => by cases hread) (reads_pair hl hr)

/-- With all names marked that the expression gives a value, its analysis keeps the scope, and it
reads marked locals only. -/
theorem check_reads (e : Expr) (hscope : e.Assigned S scope) :
    (e.check env).Clean scope (Kept S scope) := by
  induction e using Expr.induction with
  | literal n value =>
    unfold check
    exact clean_pure ⟨rfl, reads_leaf rfl fun _ hslot => by cases hslot⟩
  | name n text binding =>
    unfold check
    exact clean_read_bind (Kept.note fun h => ExprEnv.readName_reads hscope h)
  | self n =>
    unfold check
    refine clean_read_bind (Kept.note fun h => reads_leaf rfl fun slot hslot => ?_)
    cases hslot
    refine hscope.receiver ?_
    by_contra hstatic
    simp [ExprEnv.thisErrors, hstatic] at h
  | field n target text ref ih =>
    unfold check
    refine clean_read_bind ?_
    cases env.typeQualifier? scope target with
    | some owner => exact Kept.note ExprEnv.staticField_reads
    | none =>
      refine clean_bind (ih (hscope.child (by simp [children]))) ?_
      rintro out _ ⟨rfl, hout⟩
      exact Kept.note fun _ => ExprEnv.selectField_reads hout
  | length n operand ih | unary n op operand ih | not n operand ih =>
    unfold check
    refine clean_bind (ih (hscope.child (by simp [children]))) ?_
    rintro out _ ⟨rfl, hout⟩
    exact Kept.above rfl fun c hc => List.mem_singleton.mp hc ▸ hout
  | binary n op lhs rhs ihl ihr =>
    unfold check
    refine checkPair_reads (ihl (hscope.child (by simp [children])))
      (ihr (hscope.child (by simp [children]))) fun l r hl hr => ?_
    split <;> exact Kept.above rfl (reads_pair hl hr)
  | index n lhs rhs ihl ihr | compare n op lhs rhs ihl ihr | equality n op lhs rhs ihl ihr
  | logical n op lhs rhs ihl ihr | concat n lhs rhs ihl ihr =>
    unfold check
    exact checkPair_reads (ihl (hscope.child (by simp [children])))
      (ihr (hscope.child (by simp [children]))) fun l r hl hr => Kept.above rfl (reads_pair hl hr)
  | assign n op lhs rhs ihl ihr =>
    rw [check_assign]
    have hname : ∀ text, lhs.simpleName? = some text → (assign n op lhs rhs).assigns text = true :=
      fun _ h => assigns_self h
    refine clean_bind (checkTarget_reads hscope hname (ihl (hscope.child (by simp [children])))) ?_
    rintro l _ ⟨⟨rfl, hl⟩, hlocal⟩
    split
    · refine clean_bind (ihr (hscope.child (by simp [children]))) ?_
      rintro r _ ⟨rfl, hr⟩
      refine clean_bind (markAssigned_kept hscope fun text h => hname text (hlocal text h)) ?_
      rintro _ _ rfl
      exact Kept.above rfl (reads_pair hl (judgeAssign_reads hl hr))
    · exact clean_bind (clean_report (S := fun _ _ => False) _) fun _ _ h => h.elim
  | increment n op operand ih =>
    rw [check_increment]
    refine clean_bind (checkTarget_reads hscope (fun _ h => assigns_self h)
      (ih (hscope.child (by simp [children])))) ?_
    rintro l _ ⟨⟨rfl, hl⟩, -⟩
    split
    · exact Kept.above rfl fun c hc => List.mem_singleton.mp hc ▸ hl
    · exact clean_note fun h => by cases h
  | call n target text args method ihtarget ihargs =>
    rw [check_call]
    refine clean_bind (checkReceiver_reads hscope fun t ht =>
      ihtarget t ht (hscope.child (by simp [children, ht]))) ?_
    rintro receiver _ ⟨rfl, hthis, htarget⟩
    refine clean_bind (checkList_reads fun a ha => ihargs a ha (hscope.child ?_)) ?_
    · exact List.mem_append_right _ ha
    · rintro args _ ⟨rfl, hargs⟩
      exact Kept.note fun h => ExprEnv.selectMethod_reads hthis htarget hargs h

end Expr

end ClassCompiler
