import ClassCompiler.Proofs.Ancestry
import ClassCompiler.Proofs.Closed

/-!
# What stubs add to a registry

From the moment when all classes of a unit are declared, stubbing changes the registry in two ways
only: it adds arrays over types that are there, and it sets the supertypes of the classes of the
unit. Two registries that a common one has grown into in this way may know different arrays and
different supertypes, but where both have an answer, it is the same.

* `Setting.Admits`: the registries that stubbing may come by
* `Setting.Admits.agree`, `Setting.Admits.resolve`
-/

namespace ClassCompiler

namespace Registry

/-- The entries of the arrays over a type, up to a number of dimensions. -/
def arraysOver (registry : Registry) (base : Ty) : Nat → List TypeEntry
  | 0 => []
  | dims + 1 =>
    let (inner, known) := registry.arrayOfDims base dims
    known.arrayEntry inner :: registry.arraysOver base dims

/-- The entries of the arrays that a type name may add. -/
def arraysOf (registry : Registry) (name : TypeName) : List TypeEntry :=
  (registry.lookup? name.name).toList.flatMap fun base => registry.arraysOver base name.dims

end Registry

/-! ## Additions -/

/-- The registry in which all classes of a unit are declared, the arrays that may be added to it,
and the classes whose supertypes may be set. -/
structure Setting where
  base : Registry
  arrays : List TypeEntry
  classes : List Ty

namespace Setting

/-- Handles tell the arrays of a setting apart, and nothing points outside of the base. -/
structure Regular (setting : Setting) : Prop where
  closed : setting.base.Closed
  apart : ∀ one ∈ setting.arrays, ∀ two ∈ setting.arrays,
    Ty.named one.internalName = Ty.named two.internalName → one = two
  supertypes : ∀ array ∈ setting.arrays, array.supertypes = [.object]
  classes : ∀ ty ∈ setting.classes, setting.base.contains ty = true

/-- The registries that the base may have grown into. -/
structure Admits (setting : Setting) (registry : Registry) : Prop where
  aliases : ∀ name, registry.aliases.get? name = setting.base.aliases.get? name
  kept : ∀ ty entry, setting.base.get? ty = some entry → ∃ later, registry.get? ty = some later
    ∧ later.internalName = entry.internalName ∧ later.kind = entry.kind
    ∧ (ty ∉ setting.classes → later = entry)
  added : ∀ ty entry, registry.get? ty = some entry → setting.base.contains ty = true
    ∨ entry ∈ setting.arrays ∧ ty = Ty.named entry.internalName
  nested : registry.Nested

/-- The arrays of the name are in the setting, and none has the name's own handle. -/
structure Allows (setting : Setting) (name : TypeName) : Prop where
  arrays : ∀ array ∈ setting.base.arraysOf name, array ∈ setting.arrays
  apart : ∀ array ∈ setting.arrays,
    Ty.named (Registry.internalForm name.name) ≠ Ty.named array.internalName

theorem Regular.admits_base {setting : Setting} (h : setting.Regular) :
    setting.Admits setting.base :=
  ⟨fun _ => rfl, fun _ entry he => ⟨entry, he, rfl, rfl, fun _ => rfl⟩,
    fun _ entry he => .inl (Registry.contains_iff.mpr ⟨entry, he⟩), h.closed.nested⟩

namespace Admits

variable {setting : Setting} {registry one two : Registry} {ty : Ty}

theorem contains (h : setting.Admits registry) (hty : setting.base.contains ty = true) :
    registry.contains ty = true := by
  obtain ⟨entry, hentry⟩ := Registry.contains_iff.mp hty
  obtain ⟨later, hlater, -⟩ := h.kept ty entry hentry
  exact Registry.contains_iff.mpr ⟨later, hlater⟩

theorem agree (hsetting : setting.Regular) (hone : setting.Admits one) (htwo : setting.Admits two)
    {entry entry' : TypeEntry} (hentry : one.get? ty = some entry)
    (hentry' : two.get? ty = some entry') :
    entry'.internalName = entry.internalName ∧ entry'.kind = entry.kind
      ∧ (ty ∉ setting.classes → entry' = entry) := by
  by_cases hbase : setting.base.contains ty = true
  · obtain ⟨start, hstart⟩ := Registry.contains_iff.mp hbase
    obtain ⟨later, hlater, hname, hkind, heq⟩ := hone.kept ty start hstart
    obtain ⟨later', hlater', hname', hkind', heq'⟩ := htwo.kept ty start hstart
    cases hlater.symm.trans hentry
    cases hlater'.symm.trans hentry'
    exact ⟨hname'.trans hname.symm, hkind'.trans hkind.symm, fun hty => (heq' hty).trans (heq hty).symm⟩
  · obtain hbad | ⟨hmem, hty⟩ := hone.added ty entry hentry
    · exact absurd hbad hbase
    obtain hbad | ⟨hmem', hty'⟩ := htwo.added ty entry' hentry'
    · exact absurd hbad hbase
    have heq := hsetting.apart entry' hmem' entry hmem (hty'.symm.trans hty)
    exact ⟨congrArg _ heq, congrArg _ heq, fun _ => heq⟩

section

variable (hsetting : setting.Regular) (hone : setting.Admits one) (htwo : setting.Admits two)
  (hty : one.contains ty = true) (hty' : two.contains ty = true)

include hsetting hone htwo hty hty'

theorem descriptor : two.descriptor ty = one.descriptor ty := by
  obtain ⟨entry, hentry⟩ := Registry.contains_iff.mp hty
  obtain ⟨entry', hentry'⟩ := Registry.contains_iff.mp hty'
  obtain ⟨hname, hkind, -⟩ := agree hsetting hone htwo hentry hentry'
  exact Registry.descriptor_congr hentry hentry' hname hkind

theorem internalName : two.internalName ty = one.internalName ty := by
  obtain ⟨entry, hentry⟩ := Registry.contains_iff.mp hty
  obtain ⟨entry', hentry'⟩ := Registry.contains_iff.mp hty'
  unfold Registry.internalName
  rw [hentry, hentry']
  exact (agree hsetting hone htwo hentry hentry').1

theorem kind? : two.kind? ty = one.kind? ty := by
  obtain ⟨entry, hentry⟩ := Registry.contains_iff.mp hty
  obtain ⟨entry', hentry'⟩ := Registry.contains_iff.mp hty'
  unfold Registry.kind?
  rw [hentry, hentry']
  exact congrArg some (agree hsetting hone htwo hentry hentry').2.1

theorem displayName : two.displayName ty = one.displayName ty :=
  Registry.displayName_congr hone.nested htwo.nested (fun _ _ _ he he' =>
    ⟨(agree hsetting hone htwo he he').1, (agree hsetting hone htwo he he').2.1⟩) hty hty'

end

/-! ## Growing on -/

theorem setSupertypes (h : setting.Admits registry) (hclass : ty ∈ setting.classes)
    (hsetting : setting.Regular) (superclass : Option Ty) (interfaces : List Ty) :
    setting.Admits (registry.setSupertypes ty superclass interfaces) := by
  refine ⟨h.aliases, fun other entry hentry => ?_, fun other entry hentry => ?_,
    h.nested.setSupertypes ty superclass interfaces⟩
  · obtain ⟨later, hlater, hname, hkind, heq⟩ := h.kept other entry hentry
    rw [Registry.get?_setSupertypes, hlater]
    split
    · next hother =>
      exact ⟨_, rfl, hname, hkind, fun hbad => absurd (hother ▸ hclass) hbad⟩
    · exact ⟨later, rfl, hname, hkind, heq⟩
  · rw [Registry.get?_setSupertypes] at hentry
    split at hentry
    · next hother =>
      subst hother
      exact .inl (hsetting.classes other hclass)
    · exact h.added other entry hentry

theorem arrayOf (h : setting.Admits registry) {element : Ty}
    (hc : registry.contains element = true) (hentry : registry.arrayEntry element ∈ setting.arrays) :
    setting.Admits (registry.arrayOf element).2 := by
  have hnested := h.nested.arrayOf hc
  have hty := registry.arrayOf_fst element
  obtain hsame | ⟨hfresh, haliases, hget⟩ := registry.arrayOf_cases element
  · rwa [hsame]
  refine ⟨fun name => ?_, fun other entry he => ?_, fun other entry he => ?_, hnested⟩
  · rw [haliases]
    exact h.aliases name
  · obtain ⟨later, hlater, hlike⟩ := h.kept other entry he
    rw [hget, if_neg]
    · exact ⟨later, hlater, hlike⟩
    · rintro rfl
      rw [Registry.contains_iff.mpr ⟨later, hlater⟩] at hfresh
      cases hfresh
  · rw [hget] at he
    split at he
    · next hother =>
      cases he
      exact .inr ⟨hentry, hother.trans hty⟩
    · exact h.added other entry he

/-- Whatever else is known, the arrays over a base type have the same handles. -/
theorem arrayOfDims (hsetting : setting.Regular) (h : setting.Admits registry) {base : Ty}
    (hbase : setting.base.contains base = true) {dims : Nat}
    (harrays : ∀ array ∈ setting.base.arraysOver base dims, array ∈ setting.arrays) :
    (registry.arrayOfDims base dims).1 = (setting.base.arrayOfDims base dims).1
      ∧ setting.Admits (registry.arrayOfDims base dims).2 := by
  induction dims generalizing registry with
  | zero => exact ⟨rfl, h⟩
  | succ dims ih =>
    have hinner := fun array harray => harrays array (List.mem_cons_of_mem _ harray)
    obtain ⟨heq, hadmits⟩ := ih h hinner
    obtain ⟨-, hstart⟩ := ih hsetting.admits_base hinner
    have hcontains := Registry.contains_arrayOfDims (h.contains hbase) dims
    have hcontains' := Registry.contains_arrayOfDims hbase dims
    rw [heq] at hcontains
    have hdescriptor := descriptor hsetting hstart hadmits hcontains' hcontains
    have hentry : (registry.arrayOfDims base dims).2.arrayEntry
        (setting.base.arrayOfDims base dims).1 ∈ setting.arrays := by
      refine harrays _ (List.mem_cons.mpr (.inl ?_))
      unfold Registry.arrayEntry
      rw [hdescriptor]
    show ((registry.arrayOfDims base dims).2.arrayOf (registry.arrayOfDims base dims).1).1
        = ((setting.base.arrayOfDims base dims).2.arrayOf (setting.base.arrayOfDims base dims).1).1
      ∧ setting.Admits
        ((registry.arrayOfDims base dims).2.arrayOf (registry.arrayOfDims base dims).1).2
    rw [heq, Registry.arrayOf_fst, Registry.arrayOf_fst, hdescriptor]
    exact ⟨rfl, hadmits.arrayOf hcontains hentry⟩

/-- A name that is no array's means what it means in the base. -/
theorem lookup? (h : setting.Admits registry) {name : String}
    (hname : ∀ array ∈ setting.arrays,
      Ty.named (Registry.internalForm name) ≠ Ty.named array.internalName) :
    registry.lookup? name = setting.base.lookup? name := by
  have hcontains : registry.contains (Ty.named (Registry.internalForm name))
      = setting.base.contains (Ty.named (Registry.internalForm name)) := by
    rw [Bool.eq_iff_iff]
    refine ⟨fun hc => ?_, h.contains⟩
    obtain ⟨entry, hentry⟩ := Registry.contains_iff.mp hc
    obtain hbase | ⟨hmem, hty⟩ := h.added _ entry hentry
    · exact hbase
    · exact absurd hty (hname entry hmem)
  unfold Registry.lookup? Registry.lookupQualified?
  dsimp only
  rw [h.aliases, hcontains]

/-- A type name means in every admitted registry what it means in the base. -/
theorem resolve (hsetting : setting.Regular) (h : setting.Admits registry) {name : TypeName}
    (hname : setting.Allows name) :
    (∃ error, setting.base.resolve name = .error error ∧ registry.resolve name = .error error)
      ∨ ∃ ty known later, setting.base.resolve name = .ok (ty, known)
        ∧ registry.resolve name = .ok (ty, later)
        ∧ setting.Admits later ∧ later.contains ty = true := by
  unfold Registry.resolve
  rw [h.lookup? hname.apart]
  cases hbase : setting.base.lookup? name.name with
  | none => exact .inl ⟨_, rfl, rfl⟩
  | some base =>
    dsimp only
    split
    · exact .inl ⟨_, rfl, rfl⟩
    · have hcontains := hsetting.closed.lookup? hbase
      have harrays : ∀ array ∈ setting.base.arraysOver base name.dims, array ∈ setting.arrays := by
        intro array harray
        refine hname.arrays array ?_
        unfold Registry.arraysOf
        rw [hbase]
        simpa using harray
      obtain ⟨heq, hadmits⟩ := arrayOfDims hsetting h hcontains harrays
      refine .inr ⟨_, _, (registry.arrayOfDims base name.dims).2, rfl, ?_, hadmits, ?_⟩
      · exact congrArg Except.ok (Prod.ext heq rfl)
      · rw [← heq]
        exact Registry.contains_arrayOfDims (h.contains hcontains) name.dims

/-! ## Ancestors -/

theorem elementType?_throwable (hsetting : setting.Regular) (h : setting.Admits registry) :
    registry.elementType? .throwable = none := by
  have hbase := hsetting.closed.roots .throwable (by simp)
  have hnone := hsetting.closed.throwable
  unfold Registry.elementType? at hnone ⊢
  rwa [kind? hsetting hsetting.admits_base h hbase (h.contains hbase)]

/-- The search for ancestors does not leave the types that both registries know. -/
theorem contains_of_inherits (hsetting : setting.Regular) (hone : setting.Admits one)
    (htwo : setting.Admits two) (hty : one.contains ty = true) (hty' : two.contains ty = true)
    (hclasses : ∀ ancestor, one.Inherits ty ancestor → ancestor ∉ setting.classes) {ancestor : Ty}
    (h : one.Inherits ty ancestor) :
    one.contains ancestor = true ∧ two.contains ancestor = true := by
  induction h with
  | self => exact ⟨hty, hty'⟩
  | link hbetween hsuper ih =>
    next between super =>
    suffices hbase : setting.base.contains super = true from
      ⟨hone.contains hbase, htwo.contains hbase⟩
    obtain ⟨entry, hentry⟩ := Registry.contains_iff.mp ih.1
    unfold Registry.supertypes at hsuper
    rw [hentry] at hsuper
    obtain hbase | ⟨hmem, -⟩ := hone.added between entry hentry
    · obtain ⟨start, hstart⟩ := Registry.contains_iff.mp hbase
      have heq := (agree hsetting hsetting.admits_base hone hstart hentry).2.2
        (hclasses between hbetween)
      refine hsetting.closed.supertypes between super ?_
      unfold Registry.supertypes
      rwa [hstart, ← heq]
    · have hsupers : entry.supertypes = [.object] := hsetting.supertypes entry hmem
      have hobject : super = .object := by simpa [hsupers] using hsuper
      rw [hobject]
      exact hsetting.closed.roots .object (by simp)

theorem isAssignableFrom_throwable (hsetting : setting.Regular) (hone : setting.Admits one)
    (htwo : setting.Admits two) (hty : one.contains ty = true) (hty' : two.contains ty = true)
    (hclasses : ∀ ancestor, one.Inherits ty ancestor → ancestor ∉ setting.classes) :
    two.isAssignableFrom .throwable ty = one.isAssignableFrom .throwable ty := by
  refine Registry.isAssignableFrom_congr (hone.elementType?_throwable hsetting)
    (htwo.elementType?_throwable hsetting) fun ancestor hancestor => ?_
  obtain ⟨hcontains, hcontains'⟩ :=
    contains_of_inherits hsetting hone htwo hty hty' hclasses hancestor
  obtain ⟨entry, hentry⟩ := Registry.contains_iff.mp hcontains
  obtain ⟨entry', hentry'⟩ := Registry.contains_iff.mp hcontains'
  unfold Registry.supertypes
  rw [hentry, hentry',
    (agree hsetting hone htwo hentry hentry').2.2 (hclasses ancestor hancestor)]

end Admits

end Setting

end ClassCompiler
