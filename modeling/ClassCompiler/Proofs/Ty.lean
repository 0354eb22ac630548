import Mathlib.Data.List.Nodup
import ClassCompiler.Rules.Assignment
import ClassCompiler.Rules.Branching
import ClassCompiler.Body.Typing

/-!
# Fixed types and kinds

The fixed types are hashes of different texts, and no two of them agree. From this a handle denotes
at most one primitive, `null` and the builtin classes are references, and the rules of operators
can be read by the primitive that a handle denotes.

* `Ty.prim?_eq_some_iff`: the primitive that a handle denotes
* `Ty.IsValue`: the types that a variable can have
* `Ty.Stores`: the outcome of every accepted assignment, and the kinds on both sides of it
-/

namespace ClassCompiler

/-- The kind of a primitive; `void` has no values. -/
def Prim.kind : Prim → Kind
  | long => .long
  | float => .float
  | double => .double
  | void => .reference
  | _ => .int

namespace Ty

/-! ## Fixed types -/

theorem mem_all (p : Prim) : p ∈ Prim.all := by
  cases p <;> decide

/-- The types with names of their own have different handles. -/
theorem nodup_fixed : (Prim.all.map prim ++ [any, null, string, object]).Nodup := by
  decide +kernel

theorem prim_injective {p q : Prim} (h : prim p = prim q) : p = q :=
  List.inj_on_of_nodup_map (List.nodup_append.mp nodup_fixed).1 (mem_all p) (mem_all q) h

theorem prim_ne_fixed (p : Prim) {ty : Ty} (h : ty ∈ [any, null, string, object]) :
    prim p ≠ ty :=
  (List.nodup_append.mp nodup_fixed).2.2 _ (List.mem_map_of_mem (mem_all p)) ty h

@[simp] theorem prim?_prim (p : Prim) : (prim p).prim? = some p := by
  unfold prim?
  rw [List.find?_eq_some_iff_append]
  obtain ⟨before, after, hall⟩ := List.append_of_mem (mem_all p)
  refine ⟨by simp, before, after, hall, fun q hq => ?_⟩
  have hne : q ≠ p := by
    rintro rfl
    have hnodup : Prim.all.Nodup := by decide
    rw [hall] at hnodup
    exact (List.nodup_append.mp hnodup).2.2 q hq q List.mem_cons_self rfl
  have hty : prim q ≠ prim p := fun h => hne (prim_injective h)
  rw [Bool.not_eq_true', beq_eq_false_iff_ne]
  exact hty

theorem prim?_eq_some_iff {ty : Ty} {p : Prim} : ty.prim? = some p ↔ ty = prim p := by
  constructor
  · intro h
    have heq := List.find?_some h
    exact (beq_iff_eq.mp heq).symm
  · rintro rfl
    exact prim?_prim p

theorem prim?_eq_none_iff {ty : Ty} : ty.prim? = none ↔ ∀ p, ty ≠ prim p := by
  constructor
  · rintro h p rfl
    rw [prim?_prim] at h
    cases h
  · intro h
    cases hp : ty.prim? with
    | none => rfl
    | some p => exact absurd (prim?_eq_some_iff.mp hp) (h p)

theorem isPrimitive_eq_false_iff {ty : Ty} : ty.isPrimitive = false ↔ ty.prim? = none := by
  unfold isPrimitive
  cases ty.prim? <;> simp

@[simp] theorem isPrimitive_prim (p : Prim) : (prim p).isPrimitive = true := by
  simp [isPrimitive]

theorem prim?_fixed {ty : Ty} (h : ty ∈ [any, null, string, object]) : ty.prim? = none :=
  prim?_eq_none_iff.mpr fun p heq => prim_ne_fixed p h heq.symm

theorem prim_ne_any (p : Prim) : prim p ≠ any := prim_ne_fixed p (by simp)

theorem fixed_ne_any {ty : Ty} (h : ty ∈ [null, string, object]) : ty ≠ any := by
  have hnodup := (List.nodup_append.mp nodup_fixed).2.1
  exact fun heq => (List.nodup_cons.mp hnodup).1 (heq ▸ h)

theorem string_ne_any : string ≠ any := fixed_ne_any (by simp)

/-! ## References -/

theorem isReference_iff {ty : Ty} : ty.isReference = true ↔ ty.prim? = none ∧ ty ≠ any := by
  unfold isReference
  rw [Bool.and_eq_true, Bool.not_eq_true', isPrimitive_eq_false_iff, bne_iff_ne]

theorem isReference_fixed {ty : Ty} (h : ty ∈ [null, string, object]) : ty.isReference = true :=
  isReference_iff.mpr ⟨prim?_fixed (List.mem_cons_of_mem _ h), fixed_ne_any h⟩

theorem isReference_null : null.isReference = true := isReference_fixed (by simp)

theorem isReference_string : string.isReference = true := isReference_fixed (by simp)

theorem isReference_prim (p : Prim) : (prim p).isReference = false := by
  simp [isReference]

@[simp] theorem kind_prim (p : Prim) : (prim p).kind = p.kind := by
  unfold kind
  rw [prim?_prim]
  cases p <;> rfl

theorem kind_boolean : boolean.kind = .int := kind_prim .boolean

theorem kind_of_isReference {ty : Ty} (h : ty.isReference = true) : ty.kind = .reference := by
  unfold kind
  rw [(isReference_iff.mp h).1]

theorem ne_any_of_isReference {ty : Ty} (h : ty.isReference = true) : ty ≠ any :=
  (isReference_iff.mp h).2

theorem ne_void_of_isReference {ty : Ty} (h : ty.isReference = true) : ty ≠ void := by
  rintro rfl
  rw [show void = prim .void from rfl, isReference_prim] at h
  cases h

/-! ## Types of values -/

/-- The types that a variable, a field, a parameter or an array element can have. -/
def IsValue (ty : Ty) : Prop := ty ≠ any ∧ ty ≠ void

theorem isValue_prim {p : Prim} (h : p ≠ .void) : (prim p).IsValue :=
  ⟨prim_ne_any p, fun heq => h (prim_injective heq)⟩

theorem isValue_boolean : boolean.IsValue := isValue_prim (p := .boolean) (by decide)

theorem isValue_of_isReference {ty : Ty} (h : ty.isReference = true) : ty.IsValue :=
  ⟨ne_any_of_isReference h, ne_void_of_isReference h⟩

/-- A type is a primitive, a reference, or the recovery type. -/
theorem cases (ty : Ty) : (∃ p, ty = prim p) ∨ ty.isReference = true ∨ ty = any := by
  cases hp : ty.prim? with
  | some p => exact .inl ⟨p, prim?_eq_some_iff.mp hp⟩
  | none =>
    by_cases hany : ty = any
    · exact .inr (.inr hany)
    · exact .inr (.inl (isReference_iff.mpr ⟨hp, hany⟩))

theorem isWide_iff_kind {ty : Ty} : ty.isWide = true ↔ ty.kind = .long ∨ ty.kind = .double := by
  unfold isWide kind
  cases ty.prim? with
  | none => simp
  | some p => cases p <;> simp [Prim.isWide]

theorem words_of_isWide {ty : Ty} (h : ty.isWide = true) : ty.kind.words = 2 := by
  rcases isWide_iff_kind.mp h with hk | hk <;> rw [hk] <;> rfl

theorem words_of_not_isWide {ty : Ty} (h : ¬ty.isWide = true) : ty.kind.words = 1 := by
  rw [isWide_iff_kind] at h
  cases hk : ty.kind <;> simp_all [Kind.words]

theorem slots_of_ne_void {ty : Ty} (h : ty ≠ void) : ty.slots = ty.kind.words := by
  unfold slots
  rw [if_neg h]
  split
  · next hwide => exact (words_of_isWide hwide).symm
  · next hwide => exact (words_of_not_isWide hwide).symm

/-! ## Expectations -/

theorem matchesExpected_iff {actual expected : Ty} (ha : actual ≠ any) (he : expected ≠ any) :
    actual.matchesExpected expected = true
      ↔ actual = expected ∨ (actual = null ∧ expected.isReference = true) := by
  simp [matchesExpected, ha, he]

theorem matchesExpected_prim {actual : Ty} {p : Prim} (ha : actual ≠ any)
    (h : actual.matchesExpected (prim p) = true) : actual = prim p := by
  rcases (matchesExpected_iff ha (prim_ne_any p)).mp h with h | ⟨-, h⟩
  · exact h
  · rw [isReference_prim] at h
    cases h

theorem mem_of_matchesOneOf {ty : Ty} {types : List Ty} (hany : ty ≠ any)
    (h : ty.matchesOneOf types = true) : ty ∈ types := by
  simpa [matchesOneOf, hany] using h

end Ty

theorem Literal.ty_isValue (value : Literal) : value.ty.IsValue := by
  cases value with
  | string _ => exact Ty.isValue_of_isReference Ty.isReference_string
  | null => exact Ty.isValue_of_isReference Ty.isReference_null
  | int _ => exact Ty.isValue_prim (p := .int) (by decide)
  | long _ => exact Ty.isValue_prim (p := .long) (by decide)
  | float _ => exact Ty.isValue_prim (p := .float) (by decide)
  | double _ => exact Ty.isValue_prim (p := .double) (by decide)
  | bool _ => exact Ty.isValue_boolean
  | char _ => exact Ty.isValue_prim (p := .char) (by decide)

/-! ## Assignability -/

/-- May a value be stored in a place, its type taken as it is? Both have the same type, or both are
references. -/
def Ty.Stores (place value : Ty) : Prop :=
  value = place ∨ (place.isReference = true ∧ value.isReference = true)

theorem Ty.Stores.kind_eq {place value : Ty} (h : place.Stores value) : value.kind = place.kind := by
  rcases h with rfl | ⟨hp, hv⟩
  · rfl
  · rw [Ty.kind_of_isReference hp, Ty.kind_of_isReference hv]

theorem Ty.Stores.isValue {place value : Ty} (h : place.Stores value) (hp : place.IsValue) :
    value.IsValue := by
  rcases h with rfl | ⟨-, hv⟩
  · exact hp
  · exact Ty.isValue_of_isReference hv

theorem Ty.stores_of_matchesExpected {place value : Ty} (hp : place ≠ .any) (hv : value ≠ .any)
    (h : value.matchesExpected place = true) : place.Stores value := by
  rcases (Ty.matchesExpected_iff hv hp).mp h with rfl | ⟨rfl, hr⟩
  · exact .inl rfl
  · exact .inr ⟨hr, Ty.isReference_null⟩

theorem Ty.stores_of_assignable {registry : Registry} {place value : Ty} (hp : place ≠ .any)
    (hv : value ≠ .any) (h : registry.isAssignableFrom place value = true) :
    place.Stores value := by
  unfold Registry.isAssignableFrom at h
  generalize registry.entries.size + 1 = depth at h
  unfold Registry.isAssignableWithin at h
  split at h
  · next heq =>
    rcases heq with rfl | rfl | rfl
    · exact .inl rfl
    · exact absurd rfl hp
    · exact absurd rfl hv
  · split at h
    · next hnull =>
      subst hnull
      exact .inr ⟨h, Ty.isReference_null⟩
    · split at h
      · cases h
      · next hprim =>
        rw [Bool.not_eq_true, Bool.or_eq_false_iff] at hprim
        refine .inr ⟨?_, ?_⟩
        · exact Ty.isReference_iff.mpr ⟨Ty.isPrimitive_eq_false_iff.mp hprim.1, hp⟩
        · exact Ty.isReference_iff.mpr ⟨Ty.isPrimitive_eq_false_iff.mp hprim.2, hv⟩

theorem Ty.stores_of_checkPlain {registry : Registry} {place value ty : Ty} (hp : place ≠ .any)
    (hv : value ≠ .any) (h : checkPlain registry place value = .ok ty) :
    place.Stores value ∧ ty = place := by
  unfold checkPlain at h
  split at h
  · next hok =>
    cases h
    refine ⟨?_, rfl⟩
    rcases Bool.or_eq_true _ _ ▸ hok with hm | hr
    · exact Ty.stores_of_matchesExpected hp hv hm
    · simp only [Bool.and_eq_true] at hr
      exact .inr hr.1
  · cases h

end ClassCompiler
