import ClassCompiler.Proofs.Closed

/-!
# The search along the supertypes

The search for the ancestors of a type is given a number of steps that depends on the size of the
registry. Steps beyond that number change nothing, so the search sees only the supertypes of what
the type inherits from: two registries that agree on these, agree on the ancestors.

* `Registry.Inherits`: a type and all that its supertypes lead to
* `Registry.visit_of_le`: a search with enough steps does not depend on their number
* `Registry.ancestors_congr`, `Registry.isAssignableFrom_congr`, `Registry.isAssignableFrom_agree`
-/

namespace ClassCompiler.Registry

/-! ## Inheritance -/

/-- The types that the supertype links lead to from a type, itself among them. -/
inductive Inherits (registry : Registry) (ty : Ty) : Ty → Prop
  | self : Inherits registry ty ty
  | link {between super : Ty} (h : Inherits registry ty between)
    (hsuper : super ∈ registry.supertypes between) : Inherits registry ty super

/-- Types that all supertype links stay among. -/
theorem Inherits.mem {registry : Registry} {ty ancestor : Ty} (h : registry.Inherits ty ancestor)
    {among : List Ty} (hty : ty ∈ among)
    (hlinks : ∀ between ∈ among, ∀ super ∈ registry.supertypes between, super ∈ among) :
    ancestor ∈ among := by
  induction h with
  | self => exact hty
  | link _ hsuper ih => exact hlinks _ ih _ hsuper

/-! ## Enough steps -/

/-- The number of links from types that a search has not seen. -/
def unseenLinks (seen : List Ty) : List (Ty × TypeEntry) → Nat
  | [] => 0
  | (ty, entry) :: rest =>
    (if ty ∈ seen then 0 else entry.supertypes.length) + unseenLinks seen rest

theorem unseenLinks_nil (pairs : List (Ty × TypeEntry)) :
    unseenLinks [] pairs = ((pairs.map (·.2)).flatMap fun entry => entry.supertypes).length := by
  induction pairs with
  | nil => rfl
  | cons pair rest ih =>
    rw [List.map_cons, List.flatMap_cons, List.length_append, ← ih]
    simp [unseenLinks]

theorem unseenLinks_cons_le (ty : Ty) (seen : List Ty) (pairs : List (Ty × TypeEntry)) :
    unseenLinks (ty :: seen) pairs ≤ unseenLinks seen pairs := by
  induction pairs with
  | nil => exact Nat.le_refl _
  | cons pair rest ih =>
    unfold unseenLinks
    by_cases hseen : pair.1 ∈ seen
    · rw [if_pos hseen, if_pos (List.mem_cons_of_mem _ hseen)]
      omega
    · rw [if_neg hseen]
      split <;> omega

/-- A type that is seen takes its links out of the count. -/
theorem unseenLinks_visit {ty : Ty} {seen : List Ty} (hseen : ty ∉ seen) (registry : Registry) :
    (registry.supertypes ty).length + unseenLinks (ty :: seen) registry.entries.pairs
      ≤ unseenLinks seen registry.entries.pairs := by
  unfold supertypes get? Table.get?
  generalize registry.entries.pairs = pairs
  induction pairs with
  | nil => exact Nat.le_refl _
  | cons pair rest ih =>
    unfold unseenLinks
    by_cases hty : pair.1 = ty
    · have hrest := unseenLinks_cons_le ty seen rest
      rw [List.find?_cons_of_pos (by simpa using hty), if_pos (by rw [hty]; exact List.mem_cons_self),
        if_neg (by rwa [hty])]
      simp only [Option.map_some, Option.getD_some]
      omega
    · have hmem : pair.1 ∈ ty :: seen ↔ pair.1 ∈ seen := by simp [hty]
      rw [List.find?_cons_of_neg (by simpa using hty)]
      simp only [hmem]
      omega

theorem visit_succ (registry : Registry) {fuel : Nat} {seen pending : List Ty}
    (h : pending.length + unseenLinks seen registry.entries.pairs ≤ fuel) :
    registry.visit (fuel + 1) seen pending = registry.visit fuel seen pending := by
  induction fuel generalizing seen pending with
  | zero =>
    have hnil : pending = [] := List.length_eq_zero_iff.mp (by omega)
    subst hnil
    rfl
  | succ fuel ih =>
    cases pending with
    | nil => rfl
    | cons ty pending =>
      rw [List.length_cons] at h
      rw [visit, visit]
      split
      · exact ih (by omega)
      · next hseen =>
        have hlinks := unseenLinks_visit (by simpa using hseen) registry
        refine ih ?_
        rw [List.length_append]
        omega

theorem visit_of_le (registry : Registry) {fuel large : Nat} {seen pending : List Ty}
    (h : pending.length + unseenLinks seen registry.entries.pairs ≤ fuel) (hle : fuel ≤ large) :
    registry.visit large seen pending = registry.visit fuel seen pending := by
  induction hle with
  | refl => rfl
  | step hle ih => rw [visit_succ registry (Nat.le_trans h hle), ih]

theorem ancestors_eq_visit (registry : Registry) (ty : Ty) {large : Nat}
    (h : registry.visitBound ≤ large) :
    registry.ancestors ty = (registry.visit large [] [ty]).reverse := by
  unfold ancestors
  rw [registry.visit_of_le ?_ h]
  unfold visitBound Table.values
  rw [unseenLinks_nil]
  exact Nat.le_refl _

/-! ## Registries that agree -/

variable {one two : Registry} {ty : Ty}

theorem visit_congr (hagree : ∀ a, one.Inherits ty a → two.supertypes a = one.supertypes a)
    (fuel : Nat) (seen : List Ty) {pending : List Ty}
    (hpending : ∀ a ∈ pending, one.Inherits ty a) :
    two.visit fuel seen pending = one.visit fuel seen pending := by
  induction fuel generalizing seen pending with
  | zero => rfl
  | succ fuel ih =>
    cases pending with
    | nil => rfl
    | cons first rest =>
      have hfirst := hpending first List.mem_cons_self
      have hrest := fun a ha => hpending a (List.mem_cons_of_mem _ ha)
      rw [visit, visit, hagree first hfirst, ih _ hrest, ih]
      intro a ha
      rcases List.mem_append.mp ha with ha | ha
      · exact hfirst.link ha
      · exact hrest a ha

theorem ancestors_congr (hagree : ∀ a, one.Inherits ty a → two.supertypes a = one.supertypes a) :
    two.ancestors ty = one.ancestors ty := by
  rw [one.ancestors_eq_visit ty (Nat.le_max_left one.visitBound two.visitBound),
    two.ancestors_eq_visit ty (Nat.le_max_right one.visitBound two.visitBound)]
  refine congrArg List.reverse (visit_congr hagree _ [] fun a ha => ?_)
  rw [List.mem_singleton.mp ha]
  exact .self

/-- Where no array is expected, assignability is a matter of the ancestors. -/
theorem isAssignableFrom_eq {registry : Registry} {target : Ty}
    (h : registry.elementType? target = none) (source : Ty) :
    registry.isAssignableFrom target source
      = if target = source ∨ target = .any ∨ source = .any then true
        else if source = .null then target.isReference
        else if target.isPrimitive || source.isPrimitive then false
        else if target = .object then true
        else (registry.ancestors source).contains target := by
  unfold isAssignableFrom isAssignableWithin
  simp only [h]

theorem isAssignableFrom_congr {target : Ty} (hone : one.elementType? target = none)
    (htwo : two.elementType? target = none)
    (hagree : ∀ a, one.Inherits ty a → two.supertypes a = one.supertypes a) :
    two.isAssignableFrom target ty = one.isAssignableFrom target ty := by
  rw [isAssignableFrom_eq hone, isAssignableFrom_eq htwo, ancestors_congr hagree]

/-! ## Arrays -/

theorem elementType?_eq_some_iff {registry : Registry} {ty element : Ty} :
    registry.elementType? ty = some element ↔ registry.kind? ty = some (.array element) := by
  unfold elementType?
  split
  · next found hfound => simp [hfound]
  · next hother =>
    refine iff_of_false (fun h => by cases h) fun h => hother element h

/-- Where not both types are arrays, no depth is needed. -/
theorem isAssignableWithin_plain {registry : Registry} {target source : Ty}
    (h : registry.elementType? target = none ∨ registry.elementType? source = none) (depth : Nat) :
    registry.isAssignableWithin depth target source
      = if target = source ∨ target = .any ∨ source = .any then true
        else if source = .null then target.isReference
        else if target.isPrimitive || source.isPrimitive then false
        else if target = .object then true
        else (registry.ancestors source).contains target := by
  unfold isAssignableWithin
  rcases h with h | h
  · simp only [h]
  · rw [h]
    cases registry.elementType? target <;> rfl

theorem isAssignableWithin_arrays {registry : Registry} {target source inner found : Ty}
    (htarget : registry.elementType? target = some inner)
    (hsource : registry.elementType? source = some found) (depth : Nat) :
    registry.isAssignableWithin (depth + 1) target source
      = if target = source ∨ target = .any ∨ source = .any then true
        else if source = .null then target.isReference
        else if target.isPrimitive || source.isPrimitive then false
        else if target = .object then true
        else inner == found || (inner.isReference && found.isReference
          && registry.isAssignableWithin depth inner found) := by
  conv => lhs; unfold isAssignableWithin
  simp only [htarget, hsource]

/-- Two registries with the same arrays and ancestors among the types that both know, assign alike. -/
theorem isAssignableFrom_agree (hone : one.Nested) (htwo : two.Nested)
    (hkind : ∀ ty, one.contains ty = true → two.contains ty = true → two.kind? ty = one.kind? ty)
    (hancestors : ∀ ty, one.contains ty = true → two.contains ty = true →
      two.ancestors ty = one.ancestors ty) {target source : Ty}
    (htarget : one.contains target = true ∧ two.contains target = true)
    (hsource : one.contains source = true ∧ two.contains source = true) :
    two.isAssignableFrom target source = one.isAssignableFrom target source := by
  obtain ⟨rank, hrank⟩ := hone
  obtain ⟨rank', hrank'⟩ := htwo
  have helement : ∀ ty, one.contains ty = true ∧ two.contains ty = true →
      two.elementType? ty = one.elementType? ty := by
    intro ty hty
    unfold elementType?
    rw [hkind ty hty.1 hty.2]
  -- the recursion goes down the target, and an array nests less deep than there are entries
  have hwithin : ∀ depth depth' target source,
      one.contains target = true ∧ two.contains target = true →
      one.contains source = true ∧ two.contains source = true →
      (one.lower rank (rank target)).length ≤ depth →
      (two.lower rank' (rank' target)).length ≤ depth' →
      two.isAssignableWithin depth' target source = one.isAssignableWithin depth target source := by
    intro depth
    induction depth with
    | zero =>
      intro depth' target source htarget hsource hdepth _
      have hplain : one.elementType? target = none := by
        refine Option.eq_none_iff_forall_ne_some.mpr fun element harray => ?_
        obtain ⟨hcontains, hlt⟩ := hrank _ _ (elementType?_eq_some_iff.mp harray)
        have := lower_lt hcontains hlt
        omega
      have hplain' : two.elementType? target = none := (helement target htarget).trans hplain
      rw [isAssignableWithin_plain (.inl hplain), isAssignableWithin_plain (.inl hplain'),
        hancestors source hsource.1 hsource.2]
    | succ depth ih =>
      intro depth' target source htarget hsource hdepth hdepth'
      by_cases hplain : one.elementType? target = none ∨ one.elementType? source = none
      · have hplain' : two.elementType? target = none ∨ two.elementType? source = none := by
          rwa [helement target htarget, helement source hsource]
        rw [isAssignableWithin_plain hplain, isAssignableWithin_plain hplain',
          hancestors source hsource.1 hsource.2]
      · rw [not_or] at hplain
        obtain ⟨inner, hinner⟩ := Option.ne_none_iff_exists'.mp hplain.1
        obtain ⟨found, hfound⟩ := Option.ne_none_iff_exists'.mp hplain.2
        have hinner' := (helement target htarget).trans hinner
        have hfound' := (helement source hsource).trans hfound
        obtain ⟨hcontains, hlt⟩ := hrank _ _ (elementType?_eq_some_iff.mp hinner)
        obtain ⟨hcontains', hlt'⟩ := hrank' _ _ (elementType?_eq_some_iff.mp hinner')
        have hlower := lower_lt hcontains hlt
        have hlower' := lower_lt hcontains' hlt'
        obtain ⟨depth', rfl⟩ : ∃ less, depth' = less + 1 := ⟨depth' - 1, by omega⟩
        have hknown : one.contains found = true ∧ two.contains found = true :=
          ⟨(hrank _ _ (elementType?_eq_some_iff.mp hfound)).1,
            (hrank' _ _ (elementType?_eq_some_iff.mp hfound')).1⟩
        have hrec := ih depth' inner found ⟨hcontains, hcontains'⟩ hknown (by omega) (by omega)
        rw [isAssignableWithin_arrays hinner hfound, isAssignableWithin_arrays hinner' hfound', hrec]
  exact hwithin _ _ target source htarget hsource
    (Nat.le_succ_of_le (List.length_filter_le _ _)) (Nat.le_succ_of_le (List.length_filter_le _ _))

end ClassCompiler.Registry
