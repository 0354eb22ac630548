import ClassCompiler.Proofs.Registry

/-!
# Closed registries

Everything that a registry refers to is registered: what an alias means, the element of an array, a
supertype. No array is made of itself, so the depth to which arrays nest is less than the number of
entries, and the name that is shown for an array is complete.

* `Registry.Nested`, `Registry.Closed`
* `Registry.displayName_congr`: registries that agree show a type alike
* `Registry.Closed.register`, `Registry.Closed.resolve`, `Registry.closed_builtin`
-/

namespace ClassCompiler

/-! ## Nested arrays -/

namespace Registry

/-- The elements of arrays are registered, and no array is made of itself. -/
def Nested (registry : Registry) : Prop :=
  ∃ rank : Ty → Nat, ∀ ty element, registry.kind? ty = some (.array element) →
    registry.contains element = true ∧ rank element < rank ty

theorem contains_iff {registry : Registry} {ty : Ty} :
    registry.contains ty = true ↔ ∃ entry, registry.get? ty = some entry :=
  Option.isSome_iff_exists

/-- The entries below a rank; an array nests no deeper than their number. -/
def lower (registry : Registry) (rank : Ty → Nat) (bound : Nat) : List (Ty × TypeEntry) :=
  registry.entries.pairs.filter fun pair => rank pair.1 < bound

theorem lower_lt {registry : Registry} {rank : Ty → Nat} {element : Ty} {bound : Nat}
    (hcontains : registry.contains element = true) (hrank : rank element < bound) :
    (registry.lower rank (rank element)).length < (registry.lower rank bound).length := by
  obtain ⟨entry, hentry⟩ := contains_iff.mp hcontains
  have hsub : registry.lower rank (rank element)
      = (registry.lower rank bound).filter fun pair => rank pair.1 < rank element := by
    unfold lower
    rw [List.filter_filter]
    refine List.filter_congr fun pair _ => ?_
    by_cases hlow : rank pair.1 < rank element
    · simp [hlow, Nat.lt_trans hlow hrank]
    · simp [hlow]
  rw [hsub]
  refine List.length_filter_lt_length_iff_exists.mpr
    ⟨(element, entry), List.mem_filter.mpr ⟨Table.mem_of_get? hentry, ?_⟩, ?_⟩
  · simpa using hrank
  · simp

theorem displayNameWithin_array {registry : Registry} {ty element : Ty} {entry : TypeEntry}
    (hentry : registry.get? ty = some entry) (hkind : entry.kind = .array element) (depth : Nat) :
    registry.displayNameWithin (depth + 1) ty
      = (ty.prim?.map Prim.keyword).getD (registry.displayNameWithin depth element ++ "[]") := by
  obtain ⟨name, kind, superclass, interfaces⟩ := entry
  cases hkind
  conv_lhs => unfold displayNameWithin
  rw [hentry]
  cases ty.prim? <;> rfl

/-- What is not an array needs no depth. -/
theorem displayNameWithin_plain {one two : Registry} {ty : Ty} {entry entry' : TypeEntry}
    (hone : one.get? ty = some entry) (htwo : two.get? ty = some entry')
    (hname : entry'.internalName = entry.internalName) (hkind : entry'.kind = entry.kind)
    (harray : ∀ element, entry.kind ≠ .array element) (depth depth' : Nat) :
    two.displayNameWithin depth' ty = one.displayNameWithin depth ty := by
  obtain ⟨name, kind, superclass, interfaces⟩ := entry
  obtain ⟨name', kind', superclass', interfaces'⟩ := entry'
  cases hname
  cases hkind
  unfold displayNameWithin
  rw [hone, htwo]
  cases kind with
  | array element => exact absurd rfl (harray element)
  | _ => rfl

/-- Two registries that agree on the types that both know show them alike, each at any depth that is
enough for its arrays. -/
theorem displayNameWithin_congr {one two : Registry} {rank rank' : Ty → Nat}
    (hone : ∀ ty element, one.kind? ty = some (.array element) →
      one.contains element = true ∧ rank element < rank ty)
    (htwo : ∀ ty element, two.kind? ty = some (.array element) →
      two.contains element = true ∧ rank' element < rank' ty)
    (hagree : ∀ ty entry entry', one.get? ty = some entry → two.get? ty = some entry' →
      entry'.internalName = entry.internalName ∧ entry'.kind = entry.kind)
    {depth depth' : Nat} {ty : Ty} (hty : one.contains ty = true) (hty' : two.contains ty = true)
    (hdepth : (one.lower rank (rank ty)).length ≤ depth)
    (hdepth' : (two.lower rank' (rank' ty)).length ≤ depth') :
    two.displayNameWithin depth' ty = one.displayNameWithin depth ty := by
  induction depth generalizing depth' ty with
  | zero =>
    obtain ⟨entry, hentry⟩ := contains_iff.mp hty
    obtain ⟨entry', hentry'⟩ := contains_iff.mp hty'
    obtain ⟨hname, hkind⟩ := hagree ty entry entry' hentry hentry'
    refine displayNameWithin_plain hentry hentry' hname hkind (fun element harray => ?_) _ _
    obtain ⟨hcontains, hlt⟩ := hone ty element (by unfold kind?; rw [hentry, ← harray]; rfl)
    have := lower_lt hcontains hlt
    omega
  | succ depth ih =>
    obtain ⟨entry, hentry⟩ := contains_iff.mp hty
    obtain ⟨entry', hentry'⟩ := contains_iff.mp hty'
    obtain ⟨hname, hkind⟩ := hagree ty entry entry' hentry hentry'
    by_cases harray : ∃ element, entry.kind = .array element
    · obtain ⟨element, harray⟩ := harray
      obtain ⟨hcontains, hlt⟩ := hone ty element (by unfold kind?; rw [hentry, ← harray]; rfl)
      obtain ⟨hcontains', hlt'⟩ :=
        htwo ty element (by unfold kind?; rw [hentry', ← harray, ← hkind]; rfl)
      have hlower := lower_lt hcontains hlt
      have hlower' := lower_lt hcontains' hlt'
      obtain ⟨depth', rfl⟩ : ∃ less, depth' = less + 1 := ⟨depth' - 1, by omega⟩
      rw [displayNameWithin_array hentry harray, displayNameWithin_array hentry'
        (hkind.trans harray), ih hcontains hcontains' (by omega) (by omega)]
    · exact displayNameWithin_plain hentry hentry' hname hkind
        (fun element h => harray ⟨element, h⟩) _ _

theorem displayName_congr {one two : Registry} (hone : one.Nested) (htwo : two.Nested)
    (hagree : ∀ ty entry entry', one.get? ty = some entry → two.get? ty = some entry' →
      entry'.internalName = entry.internalName ∧ entry'.kind = entry.kind)
    {ty : Ty} (hty : one.contains ty = true) (hty' : two.contains ty = true) :
    two.displayName ty = one.displayName ty := by
  obtain ⟨rank, hrank⟩ := hone
  obtain ⟨rank', hrank'⟩ := htwo
  exact displayNameWithin_congr hrank hrank' hagree hty hty' (List.length_filter_le _ _)
    (List.length_filter_le _ _)

/-- An array is shown by its element, with a pair of brackets behind it. -/
theorem Nested.displayName_array {registry : Registry} (h : registry.Nested) {ty element : Ty}
    (hprim : ty.prim? = none) (hkind : registry.kind? ty = some (.array element)) :
    registry.displayName ty = registry.displayName element ++ "[]" := by
  obtain ⟨rank, hrank⟩ := h
  obtain ⟨entry, hentry, harray⟩ := Option.map_eq_some_iff.mp hkind
  obtain ⟨hcontains, hlt⟩ := hrank ty element hkind
  have hlower := lower_lt hcontains hlt
  have hbound : (registry.lower rank (rank ty)).length ≤ registry.entries.size :=
    List.length_filter_le _ _
  obtain ⟨depth, hdepth⟩ : ∃ depth, registry.entries.size = depth + 1 :=
    ⟨registry.entries.size - 1, by omega⟩
  have hsame : registry.displayNameWithin depth element = registry.displayName element := by
    refine displayNameWithin_congr hrank hrank (fun other one two hone htwo => ?_) hcontains
      hcontains (List.length_filter_le _ _) (by omega)
    cases hone.symm.trans htwo
    exact ⟨rfl, rfl⟩
  calc registry.displayName ty
      = registry.displayNameWithin (depth + 1) ty := by
        unfold displayName
        rw [hdepth]
    _ = registry.displayNameWithin depth element ++ "[]" := by
        rw [displayNameWithin_array hentry harray, hprim]
        rfl
    _ = registry.displayName element ++ "[]" := by rw [hsame]

/-- The entry of the array over a type. -/
def arrayEntry (registry : Registry) (element : Ty) : TypeEntry where
  internalName := "[" ++ registry.descriptor element
  kind := .array element
  superclass := some .object

/-- Either the array is there, or its entry is all that changes. -/
theorem arrayOf_cases (registry : Registry) (element : Ty) :
    (registry.arrayOf element).2 = registry
      ∨ registry.contains (registry.arrayOf element).1 = false
        ∧ (registry.arrayOf element).2.aliases = registry.aliases
        ∧ ∀ ty, (registry.arrayOf element).2.get? ty = if ty = (registry.arrayOf element).1
          then some (registry.arrayEntry element) else registry.get? ty := by
  unfold arrayOf
  dsimp only
  split
  · exact .inl rfl
  · next hc =>
    exact .inr ⟨Bool.not_eq_true _ ▸ hc, rfl, fun ty => Table.get?_insert registry.entries _ ty _⟩

variable {registry : Registry}

theorem get?_register (registry : Registry) (entry : TypeEntry) (ty : Ty) :
    (registry.register entry).get? ty
      = if ty = Ty.named entry.internalName then some entry else registry.get? ty :=
  Table.get?_insert registry.entries _ _ _

theorem contains_register (registry : Registry) (entry : TypeEntry) {ty : Ty}
    (h : registry.contains ty = true) : (registry.register entry).contains ty = true := by
  unfold contains
  rw [get?_register]
  split
  · rfl
  · exact h

/-- A class is registered: what is an array afterwards was one before. -/
theorem kind?_of_register {entry : TypeEntry} (hkind : ∀ element, entry.kind ≠ .array element)
    {ty element : Ty} (h : (registry.register entry).kind? ty = some (.array element)) :
    registry.kind? ty = some (.array element) := by
  unfold kind? at h ⊢
  rw [get?_register] at h
  split at h
  · exact absurd (Option.some.inj h) (hkind element)
  · exact h

theorem Nested.register (h : registry.Nested) {entry : TypeEntry}
    (hkind : ∀ element, entry.kind ≠ .array element) : (registry.register entry).Nested := by
  obtain ⟨rank, hrank⟩ := h
  refine ⟨rank, fun ty element harray => ?_⟩
  obtain ⟨hknown, hlt⟩ := hrank ty element (kind?_of_register hkind harray)
  exact ⟨contains_register registry entry hknown, hlt⟩

theorem Nested.arrayOf (h : registry.Nested) {element : Ty}
    (hc : registry.contains element = true) : (registry.arrayOf element).2.Nested := by
  obtain hsame | ⟨hfresh, -, hget⟩ := registry.arrayOf_cases element
  · rwa [hsame]
  obtain ⟨rank, hrank⟩ := h
  generalize (registry.arrayOf element).1 = array at hfresh hget
  have hkind : ∀ ty, (registry.arrayOf element).2.kind? ty
      = if ty = array then some (.array element) else registry.kind? ty := by
    intro ty
    unfold kind?
    rw [hget]
    split <;> rfl
  have hne : ∀ ty, registry.contains ty = true → ty ≠ array := by
    rintro ty hty rfl
    rw [hty] at hfresh
    cases hfresh
  -- the new array ranks above its element, and nothing was made of it yet
  refine ⟨fun ty => if ty = array then rank element + 1 else rank ty, fun ty inner hty => ?_⟩
  rw [hkind] at hty
  split at hty
  · next heq =>
    cases hty
    refine ⟨(registry.below_arrayOf element).contains hc, ?_⟩
    dsimp only
    rw [if_pos heq, if_neg (hne element hc)]
    exact Nat.lt_succ_self _
  · next hother =>
    obtain ⟨hcontains, hlt⟩ := hrank ty inner hty
    refine ⟨(registry.below_arrayOf element).contains hcontains, ?_⟩
    dsimp only
    rwa [if_neg hother, if_neg (hne inner hcontains)]

theorem kind?_setSupertypes (registry : Registry) (ty other : Ty) (superclass : Option Ty)
    (interfaces : List Ty) :
    (registry.setSupertypes ty superclass interfaces).kind? other = registry.kind? other := by
  unfold kind?
  rw [get?_setSupertypes]
  split
  · rw [Option.map_map]
    rfl
  · rfl

theorem Nested.setSupertypes (h : registry.Nested) (ty : Ty) (superclass : Option Ty)
    (interfaces : List Ty) : (registry.setSupertypes ty superclass interfaces).Nested := by
  obtain ⟨rank, hrank⟩ := h
  refine ⟨rank, fun array element hkind => ?_⟩
  rw [kind?_setSupertypes] at hkind
  obtain ⟨hcontains, hlt⟩ := hrank array element hkind
  exact ⟨(below_setSupertypes registry ty superclass interfaces).contains hcontains, hlt⟩

/-! ## Closed registries -/

/-- Everything that a registry refers to is registered. -/
structure Closed (registry : Registry) : Prop where
  aliases : ∀ name ty, registry.aliases.get? name = some ty → registry.contains ty = true
  supertypes : ∀ ty, ∀ super ∈ registry.supertypes ty, registry.contains super = true
  nested : registry.Nested
  roots : ∀ ty ∈ [Ty.any, .object, .throwable], registry.contains ty = true
  throwable : registry.elementType? .throwable = none

theorem Closed.lookup? (h : registry.Closed) {name : String} {ty : Ty}
    (hname : registry.lookup? name = some ty) : registry.contains ty = true := by
  unfold Registry.lookup? at hname
  split at hname
  · next halias =>
    cases hname
    exact h.aliases name ty halias
  · split at hname
    · exact (lookupQualified?_eq_some_iff.mp hname).2
    · cases hname

theorem elementType?_eq_none_iff {ty : Ty} :
    registry.elementType? ty = none
      ↔ ∀ element, registry.kind? ty ≠ some (.array element) := by
  unfold elementType?
  split
  · next element helement => simp [helement]
  · next hother => exact iff_of_true rfl hother

namespace Closed

theorem addAlias (h : registry.Closed) {ty : Ty} (hty : registry.contains ty = true)
    (name : String) : (registry.addAlias name ty).Closed := by
  refine ⟨fun other found hfound => ?_, h.supertypes, h.nested, h.roots, h.throwable⟩
  unfold Registry.addAlias at hfound
  rw [Table.get?_insert] at hfound
  split at hfound
  · cases hfound
    exact hty
  · exact h.aliases other found hfound

/-- A class that extends `Object`, in place of what was there under its handle. -/
theorem register (h : registry.Closed) {entry : TypeEntry}
    (hkind : ∀ element, entry.kind ≠ .array element) (hsupers : entry.supertypes = [.object]) :
    (registry.register entry).Closed := by
  refine ⟨fun name ty hname => contains_register registry entry (h.aliases name ty hname),
    fun ty super hsuper => contains_register registry entry ?_, h.nested.register hkind,
    fun ty hty => contains_register registry entry (h.roots ty hty), ?_⟩
  · unfold Registry.supertypes at hsuper
    rw [get?_register] at hsuper
    split at hsuper
    · have hobject : super = .object := by simpa [hsupers] using hsuper
      rw [hobject]
      exact h.roots .object (by simp)
    · exact h.supertypes ty super hsuper
  · rw [elementType?_eq_none_iff]
    exact fun element harray => elementType?_eq_none_iff.mp h.throwable element
      (kind?_of_register hkind harray)

theorem setSupertypes (h : registry.Closed) (ty : Ty) {superclass : Option Ty}
    {interfaces : List Ty}
    (hknown : ∀ super ∈ superclass.toList ++ interfaces, registry.contains super = true) :
    (registry.setSupertypes ty superclass interfaces).Closed := by
  have hbelow := below_setSupertypes registry ty superclass interfaces
  refine ⟨fun name other hname => hbelow.contains (h.aliases name other hname),
    fun other super hsuper => hbelow.contains ?_, h.nested.setSupertypes ty superclass interfaces,
    fun other hother => hbelow.contains (h.roots other hother), ?_⟩
  · unfold Registry.supertypes at hsuper
    rw [get?_setSupertypes] at hsuper
    split at hsuper
    · cases hget : registry.get? other with
      | none =>
        rw [hget] at hsuper
        cases hsuper
      | some entry =>
        rw [hget] at hsuper
        exact hknown super hsuper
    · exact h.supertypes other super hsuper
  · rw [elementType?_eq_none_iff]
    intro element
    rw [kind?_setSupertypes]
    exact elementType?_eq_none_iff.mp h.throwable element

theorem arrayOf (h : registry.Closed) {element : Ty} (hc : registry.contains element = true) :
    (registry.arrayOf element).2.Closed := by
  have hbelow := below_arrayOf registry element
  have hnested := h.nested.arrayOf hc
  obtain hsame | ⟨hfresh, haliases, hget⟩ := registry.arrayOf_cases element
  · rwa [hsame]
  refine ⟨fun name ty hname => hbelow.contains (h.aliases name ty (haliases ▸ hname)),
    fun ty super hsuper => hbelow.contains ?_, hnested,
    fun ty hty => hbelow.contains (h.roots ty hty), ?_⟩
  · unfold Registry.supertypes at hsuper
    rw [hget] at hsuper
    split at hsuper
    · have hobject : super = .object := List.mem_singleton.mp hsuper
      rw [hobject]
      exact h.roots .object (by simp)
    · exact h.supertypes ty super hsuper
  · rw [elementType?_eq_none_iff]
    intro element hkind
    refine elementType?_eq_none_iff.mp h.throwable element ?_
    unfold Registry.kind? at hkind ⊢
    rwa [hget, if_neg] at hkind
    intro heq
    rw [← heq, h.roots .throwable (by simp)] at hfresh
    cases hfresh

theorem arrayOfDims (h : registry.Closed) {base : Ty} (hc : registry.contains base = true)
    (dims : Nat) : (registry.arrayOfDims base dims).2.Closed := by
  induction dims with
  | zero => exact h
  | succ dims ih => exact ih.arrayOf (contains_arrayOfDims hc dims)

/-- What a name means is registered afterwards. -/
theorem resolve (h : registry.Closed) {name : TypeName} {ty : Ty} {later : Registry}
    (hname : registry.resolve name = .ok (ty, later)) :
    later.Closed ∧ later.contains ty = true := by
  obtain ⟨base, hbase, -, harray⟩ := resolve_eq_ok_iff.mp hname
  have hc := h.lookup? hbase
  have hclosed := h.arrayOfDims hc name.dims
  have hcontains := contains_arrayOfDims hc name.dims
  rw [harray] at hclosed hcontains
  exact ⟨hclosed, hcontains⟩

end Closed

theorem closed_builtin : builtin.Closed := by
  have haliases : ∀ pair ∈ builtin.aliases.pairs, builtin.contains pair.2 = true := by
    decide +kernel
  have hsupers : ∀ pair ∈ builtin.entries.pairs, ∀ super ∈ pair.2.supertypes,
      builtin.contains super = true := by decide +kernel
  have hkinds : ∀ pair ∈ builtin.entries.pairs,
      pair.2.kind ∈ [.primitive, .null, .any, .plainClass] := by decide +kernel
  refine ⟨fun name ty h => haliases _ (Table.mem_of_get? h), fun ty super hsuper => ?_,
    ⟨fun _ => 0, fun ty element hkind => ?_⟩, by decide +kernel, by decide +kernel⟩
  · unfold Registry.supertypes at hsuper
    cases hget : builtin.get? ty with
    | none =>
      rw [hget] at hsuper
      cases hsuper
    | some entry =>
      rw [hget] at hsuper
      exact hsupers _ (Table.mem_of_get? hget) super hsuper
  · obtain ⟨entry, hget, hentry⟩ := Option.map_eq_some_iff.mp hkind
    have := hkinds _ (Table.mem_of_get? hget)
    simp [hentry] at this

/-- A registry that no unit has been compiled with, or any other with the types of the language. -/
structure Founded (registry : Registry) : Prop where
  closed : registry.Closed
  fixed : ∀ ty ∈ Prim.all.map Ty.prim ++ [.null, .string], registry.contains ty = true

theorem founded_builtin : builtin.Founded := ⟨closed_builtin, by decide +kernel⟩

end Registry

end ClassCompiler
