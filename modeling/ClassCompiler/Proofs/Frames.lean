import Mathlib.Data.List.Induction
import ClassCompiler.Scope

/-!
# Frames of a scope

A scope keeps one visible variable for each name and a single list of those set aside. For each name
this stands for a stack of variables, the innermost first, with depths that fall strictly outwards;
a frame that is left takes the variables of its depth off all of these stacks. So a block leaves
nothing behind but the marks of outer variables to which it gave a value.

* `Scope.stack`: the variables of a name, from the visible one outwards
* `Scope.Layered`, `Scope.layered_performAll`: what holds of a scope after any operations
* `Scope.Layered.stack_popFrame`, `Scope.Introduces.stack_eq`,
  `Scope.Layered.stack_markInitialized`: what an operation does to the stacks
* `Scope.InBlock`: the stacks inside of a block end in those around it
* `Scope.block_restores`: the scope behind a block
-/

namespace ClassCompiler

/-! ## Tables with one value for each key -/

namespace Table

variable {α β : Type} {table : Table α β}

/-- No key stands twice. -/
def Unique (table : Table α β) : Prop := (table.pairs.map (·.1)).Nodup

theorem Unique.filterValues (h : table.Unique) (keep : β → Bool) :
    (table.filterValues keep).Unique := h.sublist ((List.filter_sublist).map _)

variable [DecidableEq α]

theorem Unique.insert (h : table.Unique) (key : α) (value : β) :
    (table.insert key value).Unique := by
  unfold Unique at h ⊢
  refine List.nodup_cons.mpr ⟨fun hmem => ?_, ?_⟩
  · obtain ⟨pair, hpair, heq⟩ := List.mem_map.mp hmem
    simp [heq] at hpair
  · exact h.sublist ((List.filter_sublist).map _)

theorem Unique.modify (h : table.Unique) (key : α) (change : β → β) :
    (table.modify key change).Unique := by
  have hkeys : (table.modify key change).pairs.map (·.1) = table.pairs.map (·.1) := by
    unfold Table.modify
    rw [List.map_map]
    refine List.map_congr_left fun pair _ => ?_
    dsimp only [Function.comp]
    split <;> rfl
  unfold Unique
  rwa [hkeys]

theorem get?_filterValues (h : table.Unique) (keep : β → Bool) (key : α) :
    (table.filterValues keep).get? key = (table.get? key).filter keep := by
  obtain ⟨pairs⟩ := table
  unfold Unique at h
  unfold get? Table.filterValues
  dsimp only at h ⊢
  induction pairs with
  | nil => rfl
  | cons pair rest ih =>
    rw [List.map_cons, List.nodup_cons] at h
    have hcons : (pair :: rest).filter (fun pair => keep pair.2)
        = if keep pair.2 then pair :: rest.filter (fun pair => keep pair.2)
          else rest.filter fun pair => keep pair.2 := List.filter_cons
    by_cases hkey : pair.1 = key
    · have hrest : (rest.filter fun pair => keep pair.2).find? (fun pair => pair.1 = key)
          = none := by
        refine List.find?_eq_none.mpr fun other hother heq => h.1 ?_
        rw [hkey, ← of_decide_eq_true heq]
        exact List.mem_map_of_mem (List.mem_filter.mp hother).1
      rw [hcons, List.find?_cons_of_pos (by simpa using hkey)]
      cases hkeep : keep pair.2 with
      | true => simp [Option.filter, hkey, hkeep]
      | false => simp [Option.filter, hrest, hkeep]
    · rw [hcons, List.find?_cons_of_neg (by simpa using hkey), ← ih h.2]
      cases hkeep : keep pair.2 with
      | true => simp [hkey]
      | false => simp

end Table

/-! ## Marks -/

namespace Variable

/-- The variable without its mark. -/
def unmarked (var : Variable) : Variable := { var with isInitialized := false }

/-- The variable with one more mark, if there is one. -/
def marked (var : Variable) (mark : Bool) : Variable :=
  { var with isInitialized := var.isInitialized || mark }

@[simp] theorem unmarked_depth (var : Variable) : var.unmarked.depth = var.depth := rfl

theorem marked_false (var : Variable) : var.marked false = var := by simp [marked]

theorem marked_marked_true (var : Variable) (mark : Bool) :
    (var.marked mark).marked true = var.marked true := by simp [marked]

end Variable

namespace Scope

/-! ## Operations -/

/-- What a scope can be asked for. -/
inductive Op
  | pushFrame
  | popFrame
  | declareLocal (name : String) (ty : Ty) (line : Nat)
  | declareParam (name : String) (ty : Ty) (line : Nat)
  | markInitialized (name : String)
  | setReturned (returned : Bool)
  | enterLoop
  | noteBreak
  | exitLoop
  deriving DecidableEq, Inhabited

/-- The scope after a declaration; one that fails leaves it as it was. -/
def afterDeclaration (scope : Scope) : Except CompileError (Nat × Scope) → Scope
  | .ok (_, after) => after
  | .error _ => scope

/-- The scope after an operation. -/
def perform (scope : Scope) : Op → Scope
  | .pushFrame => scope.pushFrame
  | .popFrame => scope.popFrame
  | .declareLocal name ty line => scope.afterDeclaration (scope.declareLocal name ty line)
  | .declareParam name ty line => scope.afterDeclaration (scope.declareParam name ty line)
  | .markInitialized name => scope.markInitialized name
  | .setReturned returned => scope.setReturned returned
  | .enterLoop => scope.enterLoop
  | .noteBreak => scope.noteBreak?.getD scope
  | .exitLoop => scope.exitLoop.2

def performAll (scope : Scope) (ops : List Op) : Scope := ops.foldl perform scope

/-- The frames that are open after an operation, of those that were opened since a start. No frame
from before the start may be left. -/
def Op.framesOpen? (opened : Nat) : Op → Option Nat
  | pushFrame => some (opened + 1)
  | popFrame =>
    match opened with
    | 0 => none
    | opened + 1 => some opened
  | _ => some opened

/-- The operations leave the frames that they open, and no other. -/
def Balanced (ops : List Op) : Prop := ops.foldlM Op.framesOpen? 0 = some 0

instance (ops : List Op) : Decidable (Balanced ops) := inferInstanceAs (Decidable (_ = _))

/-! ## The variables of a name -/

/-- The variables of a name that were set aside, latest first. -/
def aside (scope : Scope) (name : String) : List Shadowed :=
  scope.shadowed.filter fun entry => entry.name = name

/-- The variables of a name, from the visible one outwards. -/
def stack (scope : Scope) (name : String) : List Variable :=
  (scope.lookup? name).toList ++ (scope.aside name).map (·.var)

/-- The frames of a scope: the variables of a name lie at depths that fall outwards, none deeper
than the scope; each but the outermost was set aside at the depth of the one inside of it, and what
was set aside later was set aside at no less depth. -/
structure Layered (scope : Scope) : Prop where
  unique : scope.visible.Unique
  falling : ∀ name, (scope.stack name).Pairwise fun inner outer => outer.depth < inner.depth
  bounded : ∀ name, ∀ var ∈ scope.stack name, var.depth ≤ scope.depth
  aside : ∀ name, (scope.aside name).map (·.depth) = ((scope.stack name).map (·.depth)).dropLast
  latest : scope.shadowed.Pairwise fun later earlier => earlier.depth ≤ later.depth

variable {scope outer before after : Scope} {name other : String} {var : Variable}

theorem stack_eq_of_eq (hvisible : after.visible = before.visible)
    (hshadowed : after.shadowed = before.shadowed) (name : String) :
    after.stack name = before.stack name := by
  unfold stack lookup? Scope.aside
  rw [hvisible, hshadowed]

theorem Layered.of_eq (h : before.Layered) (hvisible : after.visible = before.visible)
    (hshadowed : after.shadowed = before.shadowed) (hdepth : before.depth ≤ after.depth) :
    after.Layered := by
  have hstack := stack_eq_of_eq hvisible hshadowed
  refine ⟨hvisible ▸ h.unique, fun name => hstack name ▸ h.falling name, fun name var hvar => ?_,
    fun name => ?_, hshadowed ▸ h.latest⟩
  · exact Nat.le_trans (h.bounded name var (hstack name ▸ hvar)) hdepth
  · rw [hstack, ← h.aside name]
    unfold Scope.aside
    rw [hshadowed]

/-- A name without a visible variable has none that is set aside. -/
theorem Layered.stack_of_none (h : scope.Layered) (hlookup : scope.lookup? name = none) :
    scope.stack name = [] := by
  have hstack : scope.stack name = (scope.aside name).map (·.var) := by simp [stack, hlookup]
  have hlength := congrArg List.length (h.aside name)
  rw [hstack] at hlength
  simp only [List.length_map, List.length_dropLast] at hlength
  have hnil : scope.aside name = [] := List.eq_nil_of_length_eq_zero (by omega)
  rw [hstack, hnil, List.map_nil]

theorem stack_of_some (hlookup : scope.lookup? name = some var) :
    scope.stack name = var :: (scope.aside name).map (·.var) := by
  simp [stack, hlookup]

theorem Layered.head?_stack (h : scope.Layered) (name : String) :
    (scope.stack name).head? = scope.lookup? name := by
  cases hlookup : scope.lookup? name with
  | none => rw [h.stack_of_none hlookup, List.head?_nil]
  | some var => rw [stack_of_some hlookup, List.head?_cons]

/-- Nothing is set aside deeper than the scope is. -/
theorem Layered.depth_le (h : scope.Layered) :
    ∀ entry ∈ scope.shadowed, entry.depth ≤ scope.depth := by
  intro entry hentry
  have haside : entry ∈ scope.aside entry.name := List.mem_filter.mpr ⟨hentry, by simp⟩
  have hdepth : entry.depth ∈ ((scope.stack entry.name).map (·.depth)).dropLast := by
    rw [← h.aside]
    exact List.mem_map_of_mem haside
  obtain ⟨var, hvar, heq⟩ := List.mem_map.mp ((List.dropLast_sublist _).subset hdepth)
  rw [← heq]
  exact h.bounded _ var hvar

/-! ## Leaving a frame -/

/-- In a list of falling depths, those of the greatest depth stand in front. -/
theorem split_deepest {entries : List Shadowed} {depth : Nat}
    (hlatest : entries.Pairwise fun later earlier => earlier.depth ≤ later.depth)
    (hdepth : ∀ entry ∈ entries, entry.depth ≤ depth) :
    (entries.takeWhile fun entry => entry.depth = depth)
        = (entries.filter fun entry => entry.depth = depth)
      ∧ (entries.dropWhile fun entry => entry.depth = depth)
        = entries.filter fun entry => entry.depth < depth := by
  induction entries with
  | nil => exact ⟨rfl, rfl⟩
  | cons entry rest ih =>
    rw [List.pairwise_cons] at hlatest
    obtain ⟨htake, hdrop⟩ := ih hlatest.2 fun e he => hdepth e (List.mem_cons_of_mem _ he)
    by_cases heq : entry.depth = depth
    · simp [heq, htake, hdrop]
    · have hlt : ∀ e ∈ entry :: rest, e.depth < depth := by
        intro e he
        have := hdepth entry List.mem_cons_self
        rcases List.mem_cons.mp he with rfl | he
        · omega
        · have := hlatest.1 e he
          omega
      have hnone : (entry :: rest).filter (fun entry => entry.depth = depth) = [] :=
        List.filter_eq_nil_iff.mpr fun e he => by simpa using Nat.ne_of_lt (hlt e he)
      rw [hnone, List.filter_eq_self.mpr fun e he => by simpa using hlt e he]
      simp [heq]

theorem get?_restore (entries : List Shadowed) (table : Table String Variable) (name : String) :
    (entries.foldl (fun table entry => table.insert entry.name entry.var) table).get? name
      = ((entries.filter fun entry => entry.name = name).getLast?.map (·.var)).or
          (table.get? name) := by
  induction entries generalizing table with
  | nil => rfl
  | cons entry rest ih =>
    rw [List.foldl_cons, ih, Table.get?_insert]
    by_cases hname : entry.name = name
    · rw [if_pos hname.symm, List.filter_cons_of_pos (by simpa using hname), List.getLast?_cons]
      cases (rest.filter fun entry => entry.name = name).getLast? <;> rfl
    · rw [if_neg (Ne.symm hname), List.filter_cons_of_neg (by simpa using hname)]

theorem unique_restore (entries : List Shadowed) {table : Table String Variable}
    (h : table.Unique) :
    (entries.foldl (fun table entry => table.insert entry.name entry.var) table).Unique := by
  induction entries generalizing table with
  | nil => exact h
  | cons entry rest ih => exact ih (h.insert entry.name entry.var)

theorem Layered.aside_popFrame (h : scope.Layered) (name : String) :
    scope.popFrame.aside name
      = (scope.aside name).filter fun entry => entry.depth < scope.depth := by
  unfold Scope.aside popFrame
  dsimp only
  rw [(split_deepest h.latest h.depth_le).2, List.filter_filter, List.filter_filter]
  simp only [Bool.and_comm]

/-- The variable of the frame is gone; if it had set one aside, that is visible again. -/
theorem Layered.lookup?_popFrame (h : scope.Layered) (name : String) :
    scope.popFrame.lookup? name
      = (((scope.aside name).filter fun entry => entry.depth = scope.depth).getLast?.map (·.var)).or
          ((scope.lookup? name).filter fun var => var.depth < scope.depth) := by
  unfold lookup? popFrame
  dsimp only
  rw [get?_restore, Table.get?_filterValues h.unique, (split_deepest h.latest h.depth_le).1]
  unfold Scope.aside
  rw [List.filter_filter, List.filter_filter]
  simp only [Bool.and_comm]

/-- Below the visible variable, the variables of a name and the entries that hold them. -/
theorem Layered.below (h : scope.Layered) (hlookup : scope.lookup? name = some var)
    {entry : Shadowed} {rest : List Shadowed} (haside : scope.aside name = entry :: rest) :
    entry.depth = var.depth ∧ (∀ e ∈ entry :: rest, e.var.depth < var.depth)
      ∧ (∀ e ∈ rest, e.depth < var.depth) := by
  have hstack := stack_of_some hlookup
  have hdepths := h.aside name
  have hfalling := h.falling name
  rw [hstack, haside] at hdepths hfalling
  have hvars : ∀ e ∈ entry :: rest, e.var.depth < var.depth := fun e he =>
    (List.pairwise_cons.mp hfalling).1 e.var (List.mem_map_of_mem he)
  simp only [List.map_cons, List.dropLast_cons_of_ne_nil (List.cons_ne_nil _ _)] at hdepths
  obtain ⟨hhead, htail⟩ := List.cons.inj hdepths
  refine ⟨hhead, hvars, fun e he => ?_⟩
  have hmem : e.depth ∈ rest.map (·.depth) := List.mem_map_of_mem he
  rw [htail, ← List.map_cons, ← List.map_cons, List.map_map] at hmem
  obtain ⟨e', he', heq⟩ := List.mem_map.mp ((List.dropLast_sublist _).subset hmem)
  rw [← heq]
  exact hvars e' he'

/-- What leaving a frame does to one name: nothing, or its innermost variable goes. -/
theorem Layered.popFrame_cases (h : scope.Layered) (name : String) :
    scope.popFrame.aside name = scope.aside name
        ∧ scope.popFrame.lookup? name = scope.lookup? name
        ∧ (∀ var ∈ scope.stack name, var.depth < scope.depth)
      ∨ ∃ var rest, scope.stack name = var :: rest ∧ scope.popFrame.stack name = rest
        ∧ scope.popFrame.aside name = (scope.aside name).tail ∧ var.depth = scope.depth
        ∧ ∀ var ∈ rest, var.depth < scope.depth := by
  have haside := h.aside_popFrame name
  have hfound := h.lookup?_popFrame name
  cases hlookup : scope.lookup? name with
  | none =>
    have hstack := h.stack_of_none hlookup
    have hnone : scope.aside name = [] := by simpa [stack, hlookup] using hstack
    rw [hnone] at haside hfound
    rw [hlookup] at hfound
    exact .inl ⟨haside.trans hnone.symm, hfound, by simp [hstack]⟩
  | some var =>
    have hstack := stack_of_some hlookup
    have hvar : var.depth ≤ scope.depth := h.bounded name var (hstack ▸ List.mem_cons_self)
    rw [hlookup] at hfound
    cases hentries : scope.aside name with
    | nil =>
      rw [hentries] at haside hfound hstack
      by_cases hdepth : var.depth = scope.depth
      · refine .inr ⟨var, [], hstack, ?_, haside, hdepth, by simp⟩
        simp [stack, hfound, haside, Option.filter, hdepth]
      · refine .inl ⟨haside, ?_, ?_⟩
        · simp [hfound, Option.filter, Nat.lt_of_le_of_ne hvar hdepth]
        · simpa [hstack] using Nat.lt_of_le_of_ne hvar hdepth
    | cons entry rest =>
      obtain ⟨hentry, hvars, hrest⟩ := h.below hlookup hentries
      rw [hentries] at haside hfound hstack
      have hkept : rest.filter (fun entry => entry.depth < scope.depth) = rest :=
        List.filter_eq_self.mpr fun e he => by
          simpa using Nat.lt_of_lt_of_le (hrest e he) hvar
      have hgone : rest.filter (fun entry => entry.depth = scope.depth) = [] :=
        List.filter_eq_nil_iff.mpr fun e he => by
          simpa using Nat.ne_of_lt (Nat.lt_of_lt_of_le (hrest e he) hvar)
      have hbelow : ∀ v ∈ (entry :: rest).map (·.var), v.depth < scope.depth := by
        intro v hv
        obtain ⟨e, he, rfl⟩ := List.mem_map.mp hv
        exact Nat.lt_of_lt_of_le (hvars e he) hvar
      by_cases hdepth : var.depth = scope.depth
      · have hout : scope.popFrame.aside name = rest := by
          rw [haside, List.filter_cons_of_neg (by simp [hentry, hdepth]), hkept]
        refine .inr ⟨var, _, hstack, ?_, hout, hdepth, hbelow⟩
        have hback : scope.popFrame.lookup? name = some entry.var := by
          rw [hfound, List.filter_cons_of_pos (by simp [hentry, hdepth]), hgone]
          rfl
        rw [stack_of_some hback, hout, List.map_cons]
      · have hlt := Nat.lt_of_le_of_ne hvar hdepth
        refine .inl ⟨?_, ?_, ?_⟩
        · rw [haside, List.filter_cons_of_pos (by simpa [hentry] using hlt), hkept]
        · rw [hfound, List.filter_cons_of_neg (by simpa [hentry] using hdepth), hgone]
          simp [Option.filter, hlt]
        · rw [hstack]
          exact List.forall_mem_cons.mpr ⟨hlt, hbelow⟩

/-- A frame takes its variables off all stacks. -/
theorem Layered.stack_popFrame (h : scope.Layered) (name : String) :
    scope.popFrame.stack name = (scope.stack name).filter fun var => var.depth < scope.depth := by
  rcases h.popFrame_cases name with ⟨haside, hlookup, hlt⟩ | ⟨var, rest, hstack, hpop, -, hvar, hlt⟩
  · rw [List.filter_eq_self.mpr fun var hvar => by simpa using hlt var hvar]
    unfold stack
    rw [haside, hlookup]
  · rw [hstack, hpop, List.filter_cons_of_neg (by simp [hvar]),
      List.filter_eq_self.mpr fun var hvar => by simpa using hlt var hvar]

theorem Layered.popFrame (h : scope.Layered) : scope.popFrame.Layered := by
  have hstack := h.stack_popFrame
  refine ⟨unique_restore _ (h.unique.filterValues _), fun name => ?_, fun name var hvar => ?_,
    fun name => ?_, h.latest.sublist (List.dropWhile_sublist _)⟩
  · exact hstack name ▸ (h.falling name).filter _
  · rw [hstack] at hvar
    have hlt : var.depth < scope.depth := by simpa using (List.mem_filter.mp hvar).2
    exact Nat.le_sub_one_of_lt hlt
  · have haside := h.aside name
    rcases h.popFrame_cases name with ⟨hsame, hlookup, -⟩ | ⟨var, rest, hfull, hpop, htail, -, -⟩
    · unfold stack at haside ⊢
      rwa [hsame, hlookup]
    · rw [hpop, htail, List.map_tail, haside, hfull, List.map_cons]
      cases rest <;> rfl

/-! ## Declarations -/

/-- A variable joins the current frame, in front of the variable of that name from outside of it. -/
structure Introduces (name : String) (var : Variable) (before after : Scope) : Prop where
  depth : after.depth = before.depth
  visible : after.visible = before.visible.insert name var
  shadowed : after.shadowed = (before.lookup? name).toList.map (⟨before.depth, name, ·⟩)
    ++ before.shadowed
  nextSlot : after.nextSlot = min maxSlot (before.nextSlot + max 1 var.ty.slots)
  var_depth : var.depth = before.depth
  fresh : ∀ outer, before.lookup? name = some outer → outer.depth ≠ before.depth

theorem declareLocal_introduces {ty : Ty} {line slot : Nat}
    (h : before.declareLocal name ty line = .ok (slot, after)) :
    ∃ var, Introduces name var before after := by
  unfold declareLocal at h
  split at h
  · next hnone =>
    cases h
    exact ⟨_, rfl, rfl, by rw [hnone]; rfl, rfl, rfl, by simp [hnone]⟩
  · next outer houter =>
    split at h
    · cases h
    · next hdepth =>
      cases h
      refine ⟨_, rfl, rfl, by rw [houter]; rfl, rfl, rfl, fun other hother => ?_⟩
      rw [houter] at hother
      exact Option.some.inj hother ▸ hdepth

theorem declareParam_introduces {ty : Ty} {line slot : Nat}
    (h : before.declareParam name ty line = .ok (slot, after)) :
    ∃ var, Introduces name var before after := by
  unfold declareParam at h
  split at h
  · cases h
  · next hnone =>
    cases h
    have hnone : before.lookup? name = none := by simpa using hnone
    exact ⟨_, rfl, rfl, by rw [hnone]; rfl, rfl, rfl, by simp [hnone]⟩

theorem Introduces.lookup? (h : Introduces name var before after) (other : String) :
    after.lookup? other = if other = name then some var else before.lookup? other := by
  unfold Scope.lookup?
  rw [h.visible, Table.get?_insert]

theorem Introduces.aside (h : Introduces name var before after) (other : String) :
    after.aside other = if other = name
      then (before.lookup? name).toList.map (⟨before.depth, name, ·⟩) ++ before.aside name
      else before.aside other := by
  unfold Scope.aside
  rw [h.shadowed, List.filter_append]
  by_cases hname : other = name
  · subst hname
    rw [if_pos rfl, List.filter_eq_self.mpr]
    intro entry hentry
    obtain ⟨outer, -, rfl⟩ := List.mem_map.mp hentry
    exact decide_eq_true rfl
  · rw [if_neg hname, List.filter_eq_nil_iff.mpr, List.nil_append]
    intro entry hentry
    obtain ⟨outer, -, rfl⟩ := List.mem_map.mp hentry
    simpa using Ne.symm hname

/-- The new variable lies on top of its stack, all others lie as before. -/
theorem Introduces.stack_eq (h : Introduces name var before after) (other : String) :
    after.stack other = if other = name then var :: before.stack name else before.stack other := by
  unfold stack
  rw [h.lookup?, h.aside]
  split
  · simp [Function.comp_def]
  · rfl

theorem Introduces.layered (h : Introduces name var before after) (hbefore : before.Layered) :
    after.Layered := by
  have hbelow : ∀ v ∈ before.stack name, v.depth < var.depth := by
    intro v hv
    rw [h.var_depth]
    cases hlookup : before.lookup? name with
    | none => simp [hbefore.stack_of_none hlookup] at hv
    | some outer =>
      have hfresh := h.fresh outer hlookup
      have hfalling := hbefore.falling name
      have hle := hbefore.bounded name v hv
      rw [stack_of_some hlookup] at hv hfalling
      have houter := hbefore.bounded name outer (stack_of_some hlookup ▸ List.mem_cons_self)
      rcases List.mem_cons.mp hv with rfl | hv
      · omega
      · have := (List.pairwise_cons.mp hfalling).1 v hv
        omega
  refine ⟨?_, fun other => ?_, fun other v hv => ?_, fun other => ?_, ?_⟩
  · rw [h.visible]
    exact hbefore.unique.insert name var
  · rw [h.stack_eq]
    split
    · exact List.pairwise_cons.mpr ⟨hbelow, hbefore.falling name⟩
    · exact hbefore.falling other
  · rw [h.stack_eq] at hv
    rw [h.depth]
    split at hv
    · rcases List.mem_cons.mp hv with rfl | hv
      · exact Nat.le_of_eq h.var_depth
      · exact hbefore.bounded name v hv
    · exact hbefore.bounded other v hv
  · rw [h.stack_eq, h.aside]
    split
    · cases hlookup : before.lookup? name with
      | none =>
        have hstack := hbefore.stack_of_none hlookup
        have haside : before.aside name = [] := by simpa [stack, hlookup] using hstack
        rw [hstack, haside]
        rfl
      | some outer =>
        have haside := hbefore.aside name
        rw [stack_of_some hlookup] at haside ⊢
        simp [haside, h.var_depth]
    · exact hbefore.aside other
  · rw [h.shadowed]
    refine List.pairwise_append.mpr ⟨?_, hbefore.latest, fun entry hentry earlier hearlier => ?_⟩
    · cases before.lookup? name <;> simp
    · obtain ⟨outer, -, rfl⟩ := List.mem_map.mp hentry
      exact hbefore.depth_le earlier hearlier

/-! ## Marks -/

theorem lookup?_markInitialized (scope : Scope) (name other : String) :
    (scope.markInitialized name).lookup? other
      = if other = name then (scope.lookup? name).map (·.marked true) else scope.lookup? other := by
  unfold lookup? markInitialized
  rw [Table.get?_modify]
  split
  · next h =>
    rw [h]
    simp [Variable.marked]
  · rfl

/-- A mark stands on the innermost variable of the name. -/
theorem Layered.stack_markInitialized (h : scope.Layered) (name other : String) :
    (scope.markInitialized name).stack other
      = if other = name then (scope.stack name).modifyHead (·.marked true)
        else scope.stack other := by
  have hstack : (scope.markInitialized name).stack other
      = ((scope.markInitialized name).lookup? other).toList
        ++ (scope.aside other).map (·.var) := rfl
  rw [hstack, lookup?_markInitialized]
  split
  · next hname =>
    subst hname
    cases hlookup : scope.lookup? other with
    | none =>
      rw [h.stack_of_none hlookup]
      simpa [stack, hlookup] using h.stack_of_none hlookup
    | some var =>
      rw [stack_of_some hlookup]
      rfl
  · rfl

theorem map_depth_modifyHead (vars : List Variable) (mark : Bool) :
    (vars.modifyHead (·.marked mark)).map (·.depth) = vars.map (·.depth) := by
  cases vars <;> rfl

theorem Layered.markInitialized (h : scope.Layered) (name : String) :
    (scope.markInitialized name).Layered := by
  have hdepths : ∀ other, ((scope.markInitialized name).stack other).map (·.depth)
      = (scope.stack other).map (·.depth) := by
    intro other
    rw [h.stack_markInitialized]
    split
    · next heq => rw [map_depth_modifyHead, heq]
    · rfl
  refine ⟨h.unique.modify name _, fun other => ?_, fun other var hvar => ?_, fun other => ?_,
    h.latest⟩
  · have hfalling : ((scope.stack other).map (·.depth)).Pairwise (· > ·) :=
      List.pairwise_map.mpr (h.falling other)
    rw [← hdepths] at hfalling
    exact List.pairwise_map.mp hfalling
  · have hmem : var.depth ∈ (scope.stack other).map (·.depth) :=
      hdepths other ▸ List.mem_map_of_mem hvar
    obtain ⟨old, hold, heq⟩ := List.mem_map.mp hmem
    rw [← heq]
    exact h.bounded other old hold
  · rw [hdepths]
    exact h.aside other

/-! ## All operations -/

theorem layered_start (returnTy : Ty) (exceptions : List Ty) (isStatic : Bool) :
    (start returnTy exceptions isStatic).Layered :=
  ⟨List.nodup_nil, fun _ => List.Pairwise.nil, fun _ _ h => (List.not_mem_nil h).elim, fun _ => rfl,
    List.Pairwise.nil⟩

/-- A declaration introduces a variable, or changes nothing. -/
theorem perform_declareLocal (scope : Scope) (name : String) (ty : Ty) (line : Nat) :
    scope.perform (.declareLocal name ty line) = scope
      ∨ ∃ var, Introduces name var scope (scope.perform (.declareLocal name ty line)) := by
  dsimp only [perform]
  cases hok : scope.declareLocal name ty line with
  | error _ => exact .inl rfl
  | ok done => exact .inr (declareLocal_introduces hok)

theorem perform_declareParam (scope : Scope) (name : String) (ty : Ty) (line : Nat) :
    scope.perform (.declareParam name ty line) = scope
      ∨ ∃ var, Introduces name var scope (scope.perform (.declareParam name ty line)) := by
  dsimp only [perform]
  cases hok : scope.declareParam name ty line with
  | error _ => exact .inl rfl
  | ok done => exact .inr (declareParam_introduces hok)

theorem perform_noteBreak (scope : Scope) :
    (scope.perform .noteBreak).visible = scope.visible
      ∧ (scope.perform .noteBreak).shadowed = scope.shadowed
      ∧ (scope.perform .noteBreak).depth = scope.depth
      ∧ (scope.perform .noteBreak).nextSlot = scope.nextSlot := by
  unfold perform noteBreak?
  cases scope.loops <;> exact ⟨rfl, rfl, rfl, rfl⟩

theorem Layered.perform (h : scope.Layered) (op : Op) : (scope.perform op).Layered := by
  cases op with
  | pushFrame => exact h.of_eq rfl rfl (Nat.le_succ _)
  | popFrame => exact h.popFrame
  | declareLocal name ty line =>
    rcases perform_declareLocal scope name ty line with heq | ⟨var, hvar⟩
    · rwa [heq]
    · exact hvar.layered h
  | declareParam name ty line =>
    rcases perform_declareParam scope name ty line with heq | ⟨var, hvar⟩
    · rwa [heq]
    · exact hvar.layered h
  | markInitialized name => exact h.markInitialized name
  | noteBreak =>
    obtain ⟨hvisible, hshadowed, hdepth, -⟩ := perform_noteBreak scope
    exact h.of_eq hvisible hshadowed (Nat.le_of_eq hdepth.symm)
  | setReturned | enterLoop | exitLoop => exact h.of_eq rfl rfl (Nat.le_refl _)

theorem layered_performAll (h : scope.Layered) (ops : List Op) :
    (scope.performAll ops).Layered := by
  induction ops generalizing scope with
  | nil => exact h
  | cons op rest ih => exact ih (h.perform op)

/-- Slots are taken and never given back. -/
theorem nextSlot_perform (hroom : scope.nextSlot ≤ maxSlot) (op : Op) :
    scope.nextSlot ≤ (scope.perform op).nextSlot ∧ (scope.perform op).nextSlot ≤ maxSlot := by
  have hintroduces : ∀ {name : String} {var : Variable} {after : Scope},
      Introduces name var scope after → scope.nextSlot ≤ after.nextSlot
        ∧ after.nextSlot ≤ maxSlot := by
    intro name var after h
    rw [h.nextSlot]
    omega
  cases op with
  | declareLocal name ty line =>
    rcases perform_declareLocal scope name ty line with heq | ⟨var, hvar⟩
    · exact heq.symm ▸ ⟨Nat.le_refl _, hroom⟩
    · exact hintroduces hvar
  | declareParam name ty line =>
    rcases perform_declareParam scope name ty line with heq | ⟨var, hvar⟩
    · exact heq.symm ▸ ⟨Nat.le_refl _, hroom⟩
    · exact hintroduces hvar
  | noteBreak =>
    have hsame := (perform_noteBreak scope).2.2.2
    exact ⟨Nat.le_of_eq hsame.symm, Nat.le_trans (Nat.le_of_eq hsame) hroom⟩
  | pushFrame | popFrame | markInitialized | setReturned | enterLoop | exitLoop =>
    exact ⟨Nat.le_refl _, hroom⟩

theorem nextSlot_performAll (hroom : scope.nextSlot ≤ maxSlot) (ops : List Op) :
    scope.nextSlot ≤ (scope.performAll ops).nextSlot
      ∧ (scope.performAll ops).nextSlot ≤ maxSlot := by
  induction ops generalizing scope with
  | nil => exact ⟨Nat.le_refl _, hroom⟩
  | cons op rest ih =>
    obtain ⟨hle, hroom'⟩ := nextSlot_perform hroom op
    obtain ⟨hle', hroom''⟩ := ih hroom'
    exact ⟨Nat.le_trans hle hle', hroom''⟩

/-! ## Blocks -/

/-- Of the operations in a block around which `outer` was the scope, one marked the variable that
the name has in `outer`, while it was the visible one. -/
def MarksInside (outer : Scope) (name : String) (ops : List Op) : Prop :=
  ∃ before rest, before ++ .markInitialized name :: rest = ops
    ∧ ((outer.pushFrame.performAll before).lookup? name).map Variable.unmarked
      = (outer.lookup? name).map Variable.unmarked

theorem marksInside_concat {ops : List Op} {op : Op} :
    outer.MarksInside name (ops ++ [op]) ↔ outer.MarksInside name ops
      ∨ op = .markInitialized name
        ∧ ((outer.pushFrame.performAll ops).lookup? name).map Variable.unmarked
          = (outer.lookup? name).map Variable.unmarked := by
  constructor
  · rintro ⟨before, rest, heq, hvisible⟩
    rcases List.eq_nil_or_concat rest with rfl | ⟨front, last, rfl⟩
    · obtain ⟨rfl, hlast⟩ := List.append_inj' heq rfl
      exact .inr ⟨(List.cons.inj hlast).1.symm, hvisible⟩
    · rw [List.concat_eq_append, ← List.cons_append, ← List.append_assoc] at heq
      exact .inl ⟨before, front, (List.append_inj' heq rfl).1, hvisible⟩
  · rintro (⟨before, rest, rfl, hvisible⟩ | ⟨rfl, hvisible⟩)
    · exact ⟨before, rest ++ [op], by simp, hvisible⟩
    · exact ⟨ops, [], rfl, hvisible⟩

/-- Inside of a block, each stack ends in the one that was there around the block, but for the mark
on its innermost variable. -/
structure InBlock (outer : Scope) (ops : List Op) (scope : Scope) : Prop where
  layered : scope.Layered
  depth : outer.depth < scope.depth
  ends : ∀ name, ∃ (inner : List Variable) (mark : Bool),
    (mark = true ↔ outer.MarksInside name ops) ∧ (∀ var ∈ inner, outer.depth < var.depth)
      ∧ scope.stack name = inner ++ (outer.stack name).modifyHead (·.marked mark)

theorem Layered.inBlock_pushFrame (h : outer.Layered) : InBlock outer [] outer.pushFrame := by
  refine ⟨h.of_eq rfl rfl (Nat.le_succ _), Nat.lt_succ_self _,
    fun name => ⟨[], false, ?_, by simp, ?_⟩⟩
  · refine ⟨fun h => Bool.noConfusion h, ?_⟩
    rintro ⟨before, rest, heq, -⟩
    simp at heq
  · have hsame : (outer.stack name).modifyHead (·.marked false) = outer.stack name := by
      cases outer.stack name with
      | nil => rfl
      | cons var rest => rw [List.modifyHead_cons, Variable.marked_false]
    rw [hsame]
    rfl

/-- The variables from around the block lie at its outer depth at most. -/
theorem Layered.depth_le_of_marked (h : outer.Layered) {mark : Bool}
    (hvar : var ∈ (outer.stack name).modifyHead (·.marked mark)) : var.depth ≤ outer.depth := by
  have hmem : var.depth ∈ (outer.stack name).map (·.depth) :=
    map_depth_modifyHead _ mark ▸ List.mem_map_of_mem hvar
  obtain ⟨old, hold, heq⟩ := List.mem_map.mp hmem
  rw [← heq]
  exact h.bounded name old hold

section

variable {ops : List Op} {op : Op}

/-- An operation other than a mark that changes the inner part of the stacks only. -/
theorem InBlock.of_inner (h : InBlock outer ops scope) (hop : ∀ name, op ≠ .markInitialized name)
    (hdepth : outer.depth < (scope.perform op).depth)
    (hinner : ∀ name inner base, scope.stack name = inner ++ base →
      (∀ var ∈ inner, outer.depth < var.depth) → (∀ var ∈ base, var.depth ≤ outer.depth) →
      ∃ inner', (∀ var ∈ inner', outer.depth < var.depth)
        ∧ (scope.perform op).stack name = inner' ++ base)
    (houter : outer.Layered) : InBlock outer (ops ++ [op]) (scope.perform op) := by
  refine ⟨h.layered.perform op, hdepth, fun name => ?_⟩
  obtain ⟨inner, mark, hmark, hdeep, hstack⟩ := h.ends name
  obtain ⟨inner', hdeep', hstack'⟩ :=
    hinner name inner _ hstack hdeep fun var hvar => houter.depth_le_of_marked hvar
  refine ⟨inner', mark, hmark.trans ?_, hdeep', hstack'⟩
  rw [marksInside_concat]
  exact ⟨.inl, fun h => h.resolve_right fun h => hop name h.1⟩

theorem InBlock.of_same (h : InBlock outer ops scope) (houter : outer.Layered)
    (hop : ∀ name, op ≠ .markInitialized name)
    (hdepth : scope.depth ≤ (scope.perform op).depth)
    (hstack : ∀ name, (scope.perform op).stack name = scope.stack name) :
    InBlock outer (ops ++ [op]) (scope.perform op) :=
  h.of_inner hop (Nat.lt_of_lt_of_le h.depth hdepth)
    (fun name inner _ heq hdeep _ => ⟨inner, hdeep, (hstack name).trans heq⟩) houter

theorem InBlock.introduces (h : InBlock outer ops scope) (houter : outer.Layered)
    (hop : ∀ name, op ≠ .markInitialized name)
    (hnew : Introduces name var scope (scope.perform op)) :
    InBlock outer (ops ++ [op]) (scope.perform op) := by
  refine h.of_inner hop (hnew.depth ▸ h.depth) (fun other inner base heq hdeep _ => ?_) houter
  rw [hnew.stack_eq]
  split
  · next hname =>
    subst hname
    refine ⟨var :: inner, ?_, by rw [heq, List.cons_append]⟩
    exact List.forall_mem_cons.mpr ⟨hnew.var_depth ▸ h.depth, hdeep⟩
  · exact ⟨inner, hdeep, heq⟩

theorem InBlock.popFrame (h : InBlock outer ops scope) (houter : outer.Layered)
    (hdepth : outer.depth + 1 < scope.depth) :
    InBlock outer (ops ++ [.popFrame]) scope.popFrame := by
  refine h.of_inner (fun _ => Op.noConfusion) (Nat.lt_sub_of_add_lt hdepth)
    (fun name inner base heq hdeep hbase => ?_) houter
  refine ⟨inner.filter fun var => var.depth < scope.depth,
    fun var hvar => hdeep var (List.mem_filter.mp hvar).1, ?_⟩
  have hkept : base.filter (fun var => var.depth < scope.depth) = base :=
    List.filter_eq_self.mpr fun var hvar => by
      have := hbase var hvar
      simp only [decide_eq_true_eq]
      omega
  change scope.popFrame.stack name = _
  rw [h.layered.stack_popFrame, heq, List.filter_append, hkept]

/-- A mark goes to the variable from around the block just where that is the visible one. -/
theorem InBlock.markInitialized (houter : outer.Layered)
    (h : InBlock outer ops (outer.pushFrame.performAll ops)) (name : String) :
    InBlock outer (ops ++ [.markInitialized name])
      ((outer.pushFrame.performAll ops).markInitialized name) := by
  refine ⟨h.layered.markInitialized name, h.depth, fun other => ?_⟩
  obtain ⟨inner, mark, hmark, hdeep, hstack⟩ := h.ends other
  rw [h.layered.stack_markInitialized]
  by_cases hname : other = name
  · subst hname
    have hhead := h.layered.head?_stack other
    rw [hstack] at hhead
    rw [if_pos rfl, hstack]
    cases inner with
    | nil =>
      refine ⟨[], true, ⟨fun _ => marksInside_concat.mpr (.inr ⟨rfl, ?_⟩), fun _ => rfl⟩,
        by simp, ?_⟩
      · rw [← hhead, ← houter.head?_stack]
        cases outer.stack other <;> rfl
      · cases outer.stack other with
        | nil => rfl
        | cons var rest =>
          simp only [List.nil_append, List.modifyHead_cons, Variable.marked_marked_true]
    | cons var rest =>
      refine ⟨var.marked true :: rest, mark, hmark.trans ?_, ?_, rfl⟩
      · rw [marksInside_concat]
        refine ⟨.inl, fun h => h.resolve_right fun hlast => ?_⟩
        have hsame := hlast.2
        rw [← hhead, ← houter.head?_stack] at hsame
        have hvar : outer.depth < var.depth := hdeep var List.mem_cons_self
        cases houtside : outer.stack other with
        | nil => simp [houtside] at hsame
        | cons old _ =>
          have hold := houter.bounded other old (houtside ▸ List.mem_cons_self)
          rw [houtside] at hsame
          have heq : var.unmarked = old.unmarked := Option.some.inj hsame
          have hdepth : var.unmarked.depth = old.unmarked.depth := congrArg Variable.depth heq
          rw [Variable.unmarked_depth, Variable.unmarked_depth] at hdepth
          omega
      · exact List.forall_mem_cons.mpr (List.forall_mem_cons.mp hdeep)
  · rw [if_neg hname]
    refine ⟨inner, mark, hmark.trans ?_, hdeep, hstack⟩
    rw [marksInside_concat]
    exact ⟨.inl, fun h => h.resolve_right fun h => hname (Op.markInitialized.inj h.1).symm⟩

/-- A declaration leaves all frames open. -/
theorem InBlock.declared (houter : outer.Layered)
    (h : InBlock outer ops (outer.pushFrame.performAll ops)) {depth : Nat}
    (hdepth : (outer.pushFrame.performAll ops).depth = depth)
    (hop : ∀ name, op ≠ .markInitialized name)
    (hcases : (outer.pushFrame.performAll ops).perform op = outer.pushFrame.performAll ops
      ∨ ∃ var, Introduces name var (outer.pushFrame.performAll ops)
        ((outer.pushFrame.performAll ops).perform op)) :
    InBlock outer (ops ++ [op]) ((outer.pushFrame.performAll ops).perform op)
      ∧ ((outer.pushFrame.performAll ops).perform op).depth = depth := by
  rcases hcases with heq | ⟨var, hnew⟩
  · refine ⟨h.of_same houter hop ?_ fun name => ?_, ?_⟩
    · exact Nat.le_of_eq (congrArg Scope.depth heq.symm)
    · rw [heq]
    · rw [heq, hdepth]
  · exact ⟨h.introduces houter hop hnew, hnew.depth.trans hdepth⟩

/-- One more operation, with `opened` frames open behind it. -/
theorem InBlock.step (houter : outer.Layered)
    (h : InBlock outer ops (outer.pushFrame.performAll ops)) {opened opened' : Nat}
    (hdepth : (outer.pushFrame.performAll ops).depth = outer.depth + 1 + opened)
    (hopen : op.framesOpen? opened = some opened') :
    InBlock outer (ops ++ [op]) ((outer.pushFrame.performAll ops).perform op)
      ∧ ((outer.pushFrame.performAll ops).perform op).depth = outer.depth + 1 + opened' := by
  cases op with
  | pushFrame =>
    cases hopen
    exact ⟨h.of_same houter (fun _ => Op.noConfusion) (Nat.le_succ _) fun _ => rfl,
      congrArg (· + 1) hdepth⟩
  | popFrame =>
    cases opened with
    | zero => cases hopen
    | succ opened =>
      cases hopen
      refine ⟨h.popFrame houter (by omega), ?_⟩
      change (outer.pushFrame.performAll ops).depth - 1 = _
      omega
  | declareLocal name ty line =>
    cases hopen
    exact InBlock.declared houter h hdepth (fun _ => Op.noConfusion)
      (perform_declareLocal _ name ty line)
  | declareParam name ty line =>
    cases hopen
    exact InBlock.declared houter h hdepth (fun _ => Op.noConfusion)
      (perform_declareParam _ name ty line)
  | markInitialized name =>
    cases hopen
    exact ⟨h.markInitialized houter name, hdepth⟩
  | noteBreak =>
    obtain ⟨hvisible, hshadowed, hsame, -⟩ := perform_noteBreak (outer.pushFrame.performAll ops)
    cases hopen
    exact ⟨h.of_same houter (fun _ => Op.noConfusion) (Nat.le_of_eq hsame.symm)
      (stack_eq_of_eq hvisible hshadowed), hsame.trans hdepth⟩
  | setReturned | enterLoop | exitLoop =>
    cases hopen
    exact ⟨h.of_same houter (fun _ => Op.noConfusion) (Nat.le_refl _) fun _ => rfl, hdepth⟩

theorem inBlock_performAll (houter : outer.Layered) {opened : Nat}
    (hopen : ops.foldlM Op.framesOpen? 0 = some opened) :
    InBlock outer ops (outer.pushFrame.performAll ops)
      ∧ (outer.pushFrame.performAll ops).depth = outer.depth + 1 + opened := by
  induction ops using List.reverseRecOn generalizing opened with
  | nil =>
    cases hopen
    exact ⟨houter.inBlock_pushFrame, rfl⟩
  | append_singleton ops op ih =>
    rw [List.foldlM_append] at hopen
    obtain ⟨before, hbefore, hlast⟩ := Option.bind_eq_some_iff.mp hopen
    obtain ⟨hinner, hdepth⟩ := ih hbefore
    have hstep : op.framesOpen? before = some opened := by simpa using hlast
    have hconcat : outer.pushFrame.performAll (ops ++ [op])
        = (outer.pushFrame.performAll ops).perform op := by
      simp [performAll]
    rw [hconcat]
    exact hinner.step houter hdepth hstep

/-- Behind a block the stacks are what they were, but for marks. -/
theorem stack_block (houter : outer.Layered) (hbalanced : Balanced ops) (name : String) :
    ∃ mark : Bool, (mark = true ↔ outer.MarksInside name ops)
      ∧ (outer.pushFrame.performAll ops).popFrame.stack name
        = (outer.stack name).modifyHead (·.marked mark) := by
  obtain ⟨hinner, hdepth⟩ := inBlock_performAll houter hbalanced
  obtain ⟨inner, mark, hmark, hdeep, hstack⟩ := hinner.ends name
  refine ⟨mark, hmark, ?_⟩
  rw [hinner.layered.stack_popFrame, hstack, hdepth, List.filter_append,
    List.filter_eq_nil_iff.mpr fun var hvar => ?_, List.nil_append,
    List.filter_eq_self.mpr fun var hvar => ?_]
  · have := houter.depth_le_of_marked hvar
    simp only [decide_eq_true_eq]
    omega
  · have := hdeep var hvar
    simp only [decide_eq_true_eq]
    omega

/-- At every point of a block, the variables from around it lie below those from inside of it. -/
theorem suffix_inside (houter : outer.Layered) (hbalanced : Balanced ops) {front : List Op}
    (hfront : front <+: ops) (name : String) : (outer.stack name).map Variable.unmarked
      <:+ ((outer.pushFrame.performAll front).stack name).map Variable.unmarked := by
  obtain ⟨rest, rfl⟩ := hfront
  unfold Balanced at hbalanced
  rw [List.foldlM_append] at hbalanced
  obtain ⟨opened, hopen, -⟩ := Option.bind_eq_some_iff.mp hbalanced
  obtain ⟨inner, mark, -, -, hstack⟩ := (inBlock_performAll houter hopen).1.ends name
  have hbase : ((outer.stack name).modifyHead (·.marked mark)).map Variable.unmarked
      = (outer.stack name).map Variable.unmarked := by
    cases outer.stack name <;> rfl
  rw [hstack, List.map_append, hbase]
  exact List.suffix_append _ _

theorem lookup?_block (houter : outer.Layered) (hbalanced : Balanced ops) (name : String) :
    ∃ mark : Bool, (mark = true ↔ outer.MarksInside name ops)
      ∧ (outer.pushFrame.performAll ops).popFrame.lookup? name
        = (outer.lookup? name).map (·.marked mark) := by
  obtain ⟨mark, hmark, hstack⟩ := stack_block houter hbalanced name
  refine ⟨mark, hmark, ?_⟩
  have hinner := (inBlock_performAll houter hbalanced).1.layered
  rw [← hinner.popFrame.head?_stack, ← houter.head?_stack, hstack]
  cases outer.stack name <;> rfl

end

/-- A parameter, and a local without a value. -/
def outsideOps : List Op :=
  [.declareParam "x" .int 1, .declareLocal "y" .int 2]

/-- Shadows both in turn, and gives the outer local a value between. -/
def shadowingOps : List Op :=
  [.declareLocal "x" .int 3, .markInitialized "y", .pushFrame, .declareLocal "y" .boolean 4,
    .declareLocal "y" .int 5, .popFrame, .markInitialized "x"]

end Scope

end ClassCompiler
