import ClassCompiler.Proofs.Accepted
import ClassCompiler.Scope

/-!
# Scopes of an accepted body

Every variable that a scope can name, now or after a frame is left, is one of the locals of the
body. Expressions change nothing in a scope but the marks on its visible variables.

* `Scope.Holds`: a property of the variables of a scope
* `Scope.Within`: the variables of a scope are locals of the body
* `Scope.SameFrame`: two scopes that differ in their visible variables at most
* `Scope.Laid`: the locals so far lie in disjoint slots below the next one
-/

namespace ClassCompiler

/-- The slot of a variable, with its type. -/
def Variable.owned (var : Variable) : Local := ⟨var.slot, var.ty⟩

namespace Scope

/-! ## Variables -/

/-- What holds of every variable that a scope can name, now or after a frame is left. -/
structure Holds (scope : Scope) (P : Variable → Prop) : Prop where
  visible : ∀ pair ∈ scope.visible.pairs, P pair.2
  shadowed : ∀ entry ∈ scope.shadowed, P entry.var

/-- A variable with a usable type that is a local of the body. -/
def Owns (ctx : BodyCtx) (var : Variable) : Prop := var.owned ∈ ctx.locals ∧ var.ty.IsValue

structure Within (scope : Scope) (ctx : BodyCtx) : Prop extends scope.Holds (Owns ctx) where
  isStatic : scope.isStatic = ctx.isStatic
  returnTy : scope.returnTy = ctx.returnTy

/-- The scopes differ in their visible variables at most. -/
def SameFrame (before after : Scope) : Prop := { before with visible := after.visible } = after

theorem SameFrame.refl (scope : Scope) : scope.SameFrame scope := rfl

theorem SameFrame.trans {one two three : Scope} (h : one.SameFrame two)
    (h' : two.SameFrame three) : one.SameFrame three := by
  unfold SameFrame at *
  rw [← h', ← h]

variable {scope : Scope} {ctx : BodyCtx} {P : Variable → Prop}

theorem holds_start (returnTy : Ty) (exceptions : List Ty) (isStatic : Bool) :
    (start returnTy exceptions isStatic).Holds P :=
  ⟨fun _ h => (List.not_mem_nil h).elim, fun _ h => (List.not_mem_nil h).elim⟩

theorem Holds.lookup? (h : scope.Holds P) {name : String} {var : Variable}
    (hl : scope.lookup? name = some var) : P var := h.visible _ (Table.mem_of_get? hl)

theorem sameFrame_markInitialized (scope : Scope) (name : String) :
    scope.SameFrame (scope.markInitialized name) := rfl

theorem Holds.markInitialized (h : scope.Holds P)
    (hmark : ∀ var, P var → P { var with isInitialized := true }) (name : String) :
    (scope.markInitialized name).Holds P := by
  refine ⟨fun pair hpair => ?_, h.shadowed⟩
  obtain ⟨old, hold, rfl⟩ := List.mem_map.mp hpair
  have hvar := h.visible old hold
  dsimp only
  split
  · exact hmark _ hvar
  · exact hvar

theorem Within.markInitialized (h : scope.Within ctx) (name : String) :
    (scope.markInitialized name).Within ctx :=
  ⟨h.toHolds.markInitialized (fun _ hvar => hvar) name, h.isStatic, h.returnTy⟩

/-! ## Frames -/

theorem Within.pushFrame (h : scope.Within ctx) : scope.pushFrame.Within ctx :=
  ⟨⟨h.visible, h.shadowed⟩, h.isStatic, h.returnTy⟩

theorem mem_insert {table : Table String Variable} {name : String} {var : Variable}
    {pair : String × Variable} (h : pair ∈ (table.insert name var).pairs) :
    pair = (name, var) ∨ pair ∈ table.pairs := by
  rcases List.mem_cons.mp h with rfl | h
  · exact .inl rfl
  · exact .inr (List.mem_filter.mp h).1

theorem Holds.popFrame (h : scope.Holds P) : scope.popFrame.Holds P := by
  have hrestored : ∀ (entries : List Shadowed) (table : Table String Variable),
      (∀ entry ∈ entries, P entry.var) → (∀ pair ∈ table.pairs, P pair.2) →
      ∀ pair ∈ (entries.foldl (fun table entry => table.insert entry.name entry.var) table).pairs,
        P pair.2 := by
    intro entries
    induction entries with
    | nil => exact fun table _ htable => htable
    | cons entry rest ih =>
      intro table hentries htable
      refine ih _ (fun e he => hentries e (List.mem_cons_of_mem _ he)) fun pair hpair => ?_
      rcases mem_insert hpair with rfl | hpair
      · exact hentries entry List.mem_cons_self
      · exact htable pair hpair
  refine ⟨hrestored _ _ (fun entry he => ?_) (fun pair hpair => ?_), fun entry he => ?_⟩
  · exact h.shadowed entry ((List.takeWhile_sublist _).subset he)
  · exact h.visible pair (List.mem_filter.mp hpair).1
  · exact h.shadowed entry ((List.dropWhile_sublist _).subset he)

theorem Within.popFrame (h : scope.Within ctx) : scope.popFrame.Within ctx :=
  ⟨h.toHolds.popFrame, h.isStatic, h.returnTy⟩

/-! ## Declarations -/

theorem Holds.allocate (h : scope.Holds P) {name : String} {ty : Ty}
    (hnew : ∀ var : Variable, var.owned = ⟨scope.nextSlot, ty⟩ → P var) (isInitialized : Bool)
    (line : Nat) : (scope.allocate name ty isInitialized line).2.Holds P := by
  refine ⟨fun pair hpair => ?_, h.shadowed⟩
  rcases mem_insert hpair with rfl | hpair
  · exact hnew _ rfl
  · exact h.visible pair hpair

/-- A new local takes the next slot. -/
theorem declareLocal_ok {name : String} {ty : Ty} {line slot : Nat} {after : Scope}
    (h : scope.declareLocal name ty line = .ok (slot, after)) :
    slot = scope.nextSlot ∧ after.nextSlot = min maxSlot (scope.nextSlot + max 1 ty.slots)
      ∧ after.loops = scope.loops ∧ after.isStatic = scope.isStatic
      ∧ after.returnTy = scope.returnTy
      ∧ ∀ P, scope.Holds P → (∀ var : Variable, var.owned = ⟨scope.nextSlot, ty⟩ → P var) →
        after.Holds P := by
  unfold declareLocal at h
  split at h
  · cases h
    exact ⟨rfl, rfl, rfl, rfl, rfl, fun P hold hnew => hold.allocate hnew false line⟩
  · next outer houter =>
    split at h
    · cases h
    · cases h
      refine ⟨rfl, rfl, rfl, rfl, rfl, fun P hold hnew => ?_⟩
      have haside : Holds { scope with shadowed := ⟨scope.depth, name, outer⟩ :: scope.shadowed }
          P := by
        refine ⟨hold.visible, fun entry he => ?_⟩
        rcases List.mem_cons.mp he with rfl | he
        · exact hold.lookup? houter
        · exact hold.shadowed entry he
      exact haside.allocate hnew false line

theorem declareParam_ok {name : String} {ty : Ty} {line slot : Nat} {after : Scope}
    (h : scope.declareParam name ty line = .ok (slot, after)) :
    slot = scope.nextSlot ∧ after.nextSlot = min maxSlot (scope.nextSlot + max 1 ty.slots)
      ∧ after.loops = scope.loops ∧ after.isStatic = scope.isStatic
      ∧ after.returnTy = scope.returnTy
      ∧ ∀ P, scope.Holds P → (∀ var : Variable, var.owned = ⟨scope.nextSlot, ty⟩ → P var) →
        after.Holds P := by
  unfold declareParam at h
  split at h
  · cases h
  · cases h
    exact ⟨rfl, rfl, rfl, rfl, rfl, fun P hold hnew => hold.allocate hnew true line⟩

section

variable {name : String} {ty : Ty} {line slot : Nat} {after : Scope}

theorem owns_of_owned {local' : Local} (hlocal : local' ∈ ctx.locals) (hty : local'.ty.IsValue) :
    ∀ var : Variable, var.owned = local' → Owns ctx var := by
  rintro var rfl
  exact ⟨hlocal, hty⟩

theorem Within.declareLocal (h : scope.Within ctx)
    (hok : scope.declareLocal name ty line = .ok (slot, after))
    (hlocal : ⟨scope.nextSlot, ty⟩ ∈ ctx.locals) (hty : ty.IsValue) : after.Within ctx := by
  obtain ⟨-, -, -, hstatic, hreturn, hholds⟩ := declareLocal_ok hok
  exact ⟨hholds _ h.toHolds (owns_of_owned hlocal hty), hstatic.trans h.isStatic,
    hreturn.trans h.returnTy⟩

theorem Within.declareParam (h : scope.Within ctx)
    (hok : scope.declareParam name ty line = .ok (slot, after))
    (hlocal : ⟨scope.nextSlot, ty⟩ ∈ ctx.locals) (hty : ty.IsValue) : after.Within ctx := by
  obtain ⟨-, -, -, hstatic, hreturn, hholds⟩ := declareParam_ok hok
  exact ⟨hholds _ h.toHolds (owns_of_owned hlocal hty), hstatic.trans h.isStatic,
    hreturn.trans h.returnTy⟩

end

/-! ## Layout -/

/-- While slots are left, the locals so far lie one behind the other, all below the next slot. -/
def Laid (owned : List Local) (scope : Scope) : Prop :=
  scope.nextSlot < maxSlot → (∀ v ∈ owned, v.slot + v.ty.slots ≤ scope.nextSlot)
    ∧ owned.Pairwise fun v w => v.slot + v.ty.slots ≤ w.slot

theorem Laid.of_nextSlot_eq {owned : List Local} {after : Scope} (h : scope.Laid owned)
    (heq : after.nextSlot = scope.nextSlot) : after.Laid owned := by
  unfold Laid at *
  rwa [heq]

theorem Laid.allocate {owned : List Local} {after : Scope} {ty : Ty} (h : scope.Laid owned)
    (hnext : after.nextSlot = min maxSlot (scope.nextSlot + max 1 ty.slots)) :
    after.Laid (owned ++ [⟨scope.nextSlot, ty⟩]) := by
  intro hfree
  rw [hnext] at hfree ⊢
  have hroom : scope.nextSlot + max 1 ty.slots < maxSlot := by omega
  obtain ⟨hbelow, hpairwise⟩ := h (by omega)
  constructor
  · intro v hv
    rcases List.mem_append.mp hv with hv | hv
    · have := hbelow v hv
      omega
    · rw [List.mem_singleton.mp hv]
      dsimp only
      omega
  · refine List.pairwise_append.mpr ⟨hpairwise, List.pairwise_singleton _ _, fun v hv w hw => ?_⟩
    rw [List.mem_singleton.mp hw]
    exact hbelow v hv

end Scope

end ClassCompiler
