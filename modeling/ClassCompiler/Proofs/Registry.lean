import ClassCompiler.Proofs.Ty
import ClassCompiler.Registry.Resolution

/-!
# Sound registries

What holds of every registry that a compiler can have: the primitives stay as they were built in, no
name means the recovery type, no array has it as its elements, and every type is written by a
well-formed descriptor. Sound registries grow: types are added, and those that are there keep their
names and kinds.

Handles are hashes, so all of this depends on names that do not collide. What is needed is said
where it is needed: a new class or array must not get a reserved handle.

* `Registry.Sound`, `Registry.Below`
* `Registry.Apart`: no array type has a reserved handle
* `Registry.Sound.register`, `Registry.Sound.arrayOf`, `Registry.Sound.resolve`: soundness is kept
* `Registry.sound_builtin`
* `Registry.resolve_below`: a type name keeps its meaning in a larger registry
-/

namespace ClassCompiler

theorem Table.mem_of_get? {α β : Type} [DecidableEq α] {table : Table α β} {key : α} {value : β}
    (h : table.get? key = some value) : (key, value) ∈ table.pairs := by
  obtain ⟨pair, hpair, rfl⟩ := Option.map_eq_some_iff.mp h
  have hkey : pair.1 = key := by simpa using List.find?_some hpair
  rw [← hkey]
  exact List.mem_of_find?_eq_some hpair

/-! ## Descriptors -/

/-- The descriptors of fields with the kinds of their values. -/
inductive FieldDescriptor : Kind → String → Prop
  | prim (p : Prim) (h : p ≠ .void) : FieldDescriptor (Ty.prim p).kind p.letter
  | object (name : String) (h : ';' ∉ name.toList) :
    FieldDescriptor .reference ("L" ++ name ++ ";")
  | array {kind : Kind} {element : String} (h : FieldDescriptor kind element) :
    FieldDescriptor .reference ("[" ++ element)

/-! ## Reserved handles -/

/-- The handles that no class and no array may have. -/
def Ty.isReserved (ty : Ty) : Bool := ty.isPrimitive || ty == any || ty == null

theorem Ty.isReference_of_not_isReserved {ty : Ty} (h : ty.isReserved = false) :
    ty.isReference = true := by
  unfold isReserved at h
  simp only [Bool.or_eq_false_iff, beq_eq_false_iff_ne] at h
  exact isReference_iff.mpr ⟨isPrimitive_eq_false_iff.mp h.1.1, h.1.2⟩

theorem Ty.isReserved_prim (p : Prim) : (prim p).isReserved = true := by
  simp [isReserved]

theorem Ty.isReserved_any : any.isReserved = true := by
  simp [isReserved]

namespace Registry

theorem lookupQualified?_eq_some_iff {registry : Registry} {name : String} {ty : Ty} :
    registry.lookupQualified? name = some ty
      ↔ ty = Ty.named (internalForm name) ∧ registry.contains ty = true := by
  unfold lookupQualified?
  simp only []
  split
  · next hc =>
    constructor
    · intro h
      cases h
      exact ⟨rfl, hc⟩
    · rintro ⟨rfl, -⟩
      rfl
  · next hc =>
    constructor
    · intro h
      cases h
    · rintro ⟨rfl, h⟩
      exact absurd h hc

/-- The descriptor of a type rests on its own entry alone. -/
theorem descriptor_congr {one two : Registry} {ty : Ty} {entry entry' : TypeEntry}
    (hentry : one.get? ty = some entry) (hentry' : two.get? ty = some entry')
    (hname : entry'.internalName = entry.internalName) (hkind : entry'.kind = entry.kind) :
    two.descriptor ty = one.descriptor ty := by
  obtain ⟨name, kind, _, _⟩ := entry
  obtain ⟨name', kind', _, _⟩ := entry'
  cases hname
  cases hkind
  unfold descriptor
  rw [hentry, hentry']
  cases kind <;> rfl

/-! ## Soundness -/

/-- What an entry may say. -/
def EntrySound (entry : TypeEntry) : Prop :=
  match entry.kind with
  | .array element => element.IsValue ∧ FieldDescriptor .reference entry.internalName
  | .plainClass | .interface => ';' ∉ entry.internalName.toList
  | _ => True

structure Sound (registry : Registry) : Prop where
  prim : ∀ p, registry.kind? (.prim p) = some .primitive
  prim_supertypes : ∀ p, registry.supertypes (.prim p) = []
  any : registry.kind? .any = some .any
  aliases : ∀ name ty, registry.aliases.get? name = some ty → ty ≠ .any ∧ registry.contains ty
  entries : ∀ ty entry, registry.get? ty = some entry → EntrySound entry

/-- The second registry knows all that the first one knows, under the same names. -/
structure Below (small large : Registry) : Prop where
  aliases : large.aliases = small.aliases
  entries : ∀ ty entry, small.get? ty = some entry → ∃ later, large.get? ty = some later
    ∧ later.internalName = entry.internalName ∧ later.kind = entry.kind

/-- No array over a type of the registry has a reserved handle. -/
def Apart (registry : Registry) : Prop :=
  ∀ ty, registry.contains ty → (Ty.named ("[" ++ registry.descriptor ty)).isReserved = false

namespace Below

theorem refl (registry : Registry) : registry.Below registry :=
  ⟨rfl, fun _ entry h => ⟨entry, h, rfl, rfl⟩⟩

theorem trans {one two three : Registry} (h : one.Below two) (h' : two.Below three) :
    one.Below three := by
  refine ⟨h'.aliases.trans h.aliases, fun ty entry he => ?_⟩
  obtain ⟨second, hsecond, hname, hkind⟩ := h.entries ty entry he
  obtain ⟨third, hthird, hname', hkind'⟩ := h'.entries ty second hsecond
  exact ⟨third, hthird, hname'.trans hname, hkind'.trans hkind⟩

variable {small large : Registry}

theorem contains (h : small.Below large) {ty : Ty} (hc : small.contains ty = true) :
    large.contains ty = true := by
  obtain ⟨entry, he⟩ := Option.isSome_iff_exists.mp hc
  obtain ⟨later, hlater, -, -⟩ := h.entries ty entry he
  exact Option.isSome_iff_exists.mpr ⟨later, hlater⟩

theorem kind? (h : small.Below large) {ty : Ty} {kind : TypeKind}
    (hk : small.kind? ty = some kind) : large.kind? ty = some kind := by
  obtain ⟨entry, he, rfl⟩ := Option.map_eq_some_iff.mp hk
  obtain ⟨later, hlater, -, hkind⟩ := h.entries ty entry he
  exact Option.map_eq_some_iff.mpr ⟨later, hlater, hkind⟩

theorem descriptor (h : small.Below large) {ty : Ty} (hc : small.contains ty = true) :
    large.descriptor ty = small.descriptor ty := by
  obtain ⟨entry, he⟩ := Option.isSome_iff_exists.mp hc
  obtain ⟨later, hlater, hname, hkind⟩ := h.entries ty entry he
  exact descriptor_congr he hlater hname hkind

theorem internalName (h : small.Below large) {ty : Ty} (hc : small.contains ty = true) :
    large.internalName ty = small.internalName ty := by
  obtain ⟨entry, he⟩ := Option.isSome_iff_exists.mp hc
  obtain ⟨later, hlater, hname, -⟩ := h.entries ty entry he
  unfold Registry.internalName
  rw [he, hlater]
  exact hname

theorem apart (h : small.Below large) (ha : large.Apart) : small.Apart := by
  intro ty hc
  have := ha ty (h.contains hc)
  rwa [h.descriptor hc] at this

theorem lookup? (h : small.Below large) {name : String} {ty : Ty}
    (hl : small.lookup? name = some ty) : large.lookup? name = some ty := by
  unfold Registry.lookup? at hl ⊢
  rw [h.aliases]
  split at hl
  · exact hl
  · split at hl
    · next hdot =>
      obtain ⟨hty, hc⟩ := lookupQualified?_eq_some_iff.mp hl
      rw [if_pos hdot]
      exact lookupQualified?_eq_some_iff.mpr ⟨hty, h.contains hc⟩
    · cases hl

end Below

namespace Sound

variable {registry : Registry}

/-- Arrays are references, and their elements are values. -/
theorem elementType? (h : registry.Sound) {ty element : Ty}
    (he : registry.elementType? ty = some element) :
    ty.isReference = true ∧ element.IsValue := by
  unfold Registry.elementType? at he
  split at he
  · next kind hk =>
    cases he
    constructor
    · rcases ty.cases with ⟨p, rfl⟩ | href | rfl
      · rw [h.prim p] at hk
        cases hk
      · exact href
      · rw [h.any] at hk
        cases hk
    · obtain ⟨entry, hentry, hkind⟩ := Option.map_eq_some_iff.mp hk
      have := h.entries ty entry hentry
      unfold EntrySound at this
      rw [hkind] at this
      exact this.1
  · cases he

theorem fieldDescriptor (h : registry.Sound) {ty : Ty} (hty : ty.IsValue) :
    FieldDescriptor ty.kind (registry.descriptor ty) := by
  have hobject : FieldDescriptor .reference "Ljava/lang/Object;" :=
    FieldDescriptor.object "java/lang/Object" (by decide)
  unfold Registry.descriptor
  split
  · next p hp =>
    have hprim := Ty.prim?_eq_some_iff.mp hp
    subst hprim
    exact FieldDescriptor.prim p fun hv => hty.2 (by rw [hv]; rfl)
  · next hp =>
    rw [Ty.kind_of_isReference (Ty.isReference_iff.mpr ⟨hp, hty.1⟩)]
    split
    · next he => exact (h.entries ty _ he).2
    · next he => exact FieldDescriptor.object _ (h.entries ty _ he)
    · next he => exact FieldDescriptor.object _ (h.entries ty _ he)
    · exact hobject

theorem lookup? (h : registry.Sound) {name : String} {ty : Ty}
    (hname : Ty.named (internalForm name) ≠ .any)
    (hl : registry.lookup? name = some ty) : ty ≠ .any ∧ registry.contains ty = true := by
  unfold Registry.lookup? at hl
  split at hl
  · next he =>
    cases hl
    exact h.aliases name ty he
  · split at hl
    · obtain ⟨rfl, hc⟩ := lookupQualified?_eq_some_iff.mp hl
      exact ⟨hname, hc⟩
    · cases hl

/-! ## Changes -/

theorem addAlias (h : registry.Sound) {name : String} {ty : Ty} (hty : ty ≠ .any)
    (hc : registry.contains ty = true) : (registry.addAlias name ty).Sound := by
  refine ⟨h.prim, h.prim_supertypes, h.any, fun other found hfound => ?_, h.entries⟩
  unfold Registry.addAlias at hfound
  rw [Table.get?_insert] at hfound
  split at hfound
  · cases hfound
    exact ⟨hty, hc⟩
  · exact h.aliases other found hfound

/-- An entry at a handle that is not reserved. -/
theorem insert (h : registry.Sound) {ty : Ty} {entry : TypeEntry}
    (hty : ty.isReserved = false) (hentry : EntrySound entry) :
    Sound { registry with entries := registry.entries.insert ty entry } := by
  have hne : ∀ other : Ty, other.isReserved = true → other ≠ ty := by
    rintro other ho rfl
    rw [hty] at ho
    cases ho
  have hget : ∀ other : Ty, other.isReserved = true →
      ({ registry with entries := registry.entries.insert ty entry } : Registry).get? other
        = registry.get? other := fun other ho =>
    Table.get?_insert_of_ne registry.entries entry (hne other ho)
  refine ⟨fun p => ?_, fun p => ?_, ?_, fun name found hfound => ?_, fun other found hfound => ?_⟩
  · unfold Registry.kind?
    rw [hget _ (Ty.isReserved_prim p)]
    exact h.prim p
  · unfold Registry.supertypes
    rw [hget _ (Ty.isReserved_prim p)]
    exact h.prim_supertypes p
  · unfold Registry.kind?
    rw [hget _ Ty.isReserved_any]
    exact h.any
  · obtain ⟨hany, hc⟩ := h.aliases name found hfound
    refine ⟨hany, ?_⟩
    unfold Registry.contains Registry.get? at hc ⊢
    rw [Table.get?_insert]
    split
    · rfl
    · exact hc
  · unfold Registry.get? at hfound
    rw [Table.get?_insert] at hfound
    split at hfound
    · cases hfound
      exact hentry
    · exact h.entries other found hfound

theorem register (h : registry.Sound) {entry : TypeEntry}
    (hty : (Ty.named entry.internalName).isReserved = false) (hentry : EntrySound entry) :
    (registry.register entry).Sound := h.insert hty hentry

end Sound

theorem get?_setSupertypes (registry : Registry) (ty other : Ty) (superclass : Option Ty)
    (interfaces : List Ty) :
    (registry.setSupertypes ty superclass interfaces).get? other
      = if other = ty then
          (registry.get? other).map fun entry => { entry with superclass, interfaces }
        else registry.get? other :=
  Table.get?_modify registry.entries ty other _

theorem below_setSupertypes (registry : Registry) (ty : Ty) (superclass : Option Ty)
    (interfaces : List Ty) : registry.Below (registry.setSupertypes ty superclass interfaces) := by
  refine ⟨rfl, fun other entry he => ?_⟩
  rw [get?_setSupertypes, he]
  split
  · exact ⟨_, rfl, rfl, rfl⟩
  · exact ⟨entry, rfl, rfl, rfl⟩

theorem Sound.setSupertypes {registry : Registry} (h : registry.Sound) {ty : Ty}
    (hty : ty.isReference = true) (superclass : Option Ty) (interfaces : List Ty) :
    (registry.setSupertypes ty superclass interfaces).Sound := by
  have hbelow := below_setSupertypes registry ty superclass interfaces
  refine ⟨fun p => hbelow.kind? (h.prim p), fun p => ?_, hbelow.kind? h.any,
    fun name found hfound => ?_, fun other found hfound => ?_⟩
  · unfold Registry.supertypes
    rw [get?_setSupertypes, if_neg]
    · exact h.prim_supertypes p
    · rintro rfl
      rw [Ty.isReference_prim] at hty
      cases hty
  · obtain ⟨hany, hc⟩ := h.aliases name found hfound
    exact ⟨hany, hbelow.contains hc⟩
  · rw [get?_setSupertypes] at hfound
    split at hfound
    · obtain ⟨entry, he, rfl⟩ := Option.map_eq_some_iff.mp hfound
      exact h.entries other entry he
    · exact h.entries other found hfound

/-! ## Arrays -/

theorem contains_arrayOf (registry : Registry) (element : Ty) :
    (registry.arrayOf element).2.contains (registry.arrayOf element).1 = true := by
  unfold arrayOf
  simp only []
  split
  · next hc => exact hc
  · unfold contains get?
    rw [Table.get?_insert_self]
    rfl

theorem arrayOf_fst (registry : Registry) (element : Ty) :
    (registry.arrayOf element).1 = Ty.named ("[" ++ registry.descriptor element) := by
  unfold arrayOf
  simp only []
  split <;> rfl

theorem below_arrayOf (registry : Registry) (element : Ty) :
    registry.Below (registry.arrayOf element).2 := by
  unfold arrayOf
  simp only []
  split
  · exact Below.refl registry
  · next hc =>
    refine ⟨rfl, fun ty entry he => ⟨entry, ?_, rfl, rfl⟩⟩
    unfold get? at he ⊢
    rw [Table.get?_insert_of_ne _ _ ?_]
    · exact he
    · rintro rfl
      exact hc (Option.isSome_iff_exists.mpr ⟨entry, he⟩)

theorem Sound.arrayOf {registry : Registry} (h : registry.Sound) (hapart : registry.Apart)
    {element : Ty} (hvalue : element.IsValue) (hc : registry.contains element = true) :
    (registry.arrayOf element).2.Sound ∧ (registry.arrayOf element).1.isReference = true := by
  have hty := hapart element hc
  unfold Registry.arrayOf
  simp only []
  split
  · exact ⟨h, Ty.isReference_of_not_isReserved hty⟩
  · refine ⟨h.insert hty ?_, Ty.isReference_of_not_isReserved hty⟩
    exact ⟨hvalue, FieldDescriptor.array (h.fieldDescriptor hvalue)⟩

theorem below_arrayOfDims (registry : Registry) (base : Ty) (dims : Nat) :
    registry.Below (registry.arrayOfDims base dims).2 := by
  induction dims with
  | zero => exact Below.refl registry
  | succ dims ih => exact ih.trans (below_arrayOf _ _)

theorem contains_arrayOfDims {registry : Registry} {base : Ty}
    (hc : registry.contains base = true) (dims : Nat) :
    (registry.arrayOfDims base dims).2.contains (registry.arrayOfDims base dims).1 = true := by
  cases dims with
  | zero => exact hc
  | succ dims => exact contains_arrayOf _ _

/-- Arrays over a value are values, in a registry that is still sound. -/
theorem Sound.arrayOfDims {registry : Registry} (h : registry.Sound) {base : Ty}
    (hc : registry.contains base = true) (dims : Nat)
    (hapart : (registry.arrayOfDims base dims).2.Apart) (hany : base ≠ .any)
    (hvoid : 0 < dims → base ≠ .void) :
    (registry.arrayOfDims base dims).2.Sound ∧ (registry.arrayOfDims base dims).1 ≠ .any
      ∧ (0 < dims → (registry.arrayOfDims base dims).1.isReference = true) := by
  induction dims with
  | zero => exact ⟨h, hany, fun h0 => absurd h0 (Nat.lt_irrefl 0)⟩
  | succ dims ih =>
    have hinnerApart := (below_arrayOf _ _).apart hapart
    obtain ⟨hsound, hne, href⟩ := ih hinnerApart fun _ => hvoid (Nat.succ_pos dims)
    have hvalue : (registry.arrayOfDims base dims).1.IsValue := by
      cases dims with
      | zero => exact ⟨hany, hvoid (Nat.succ_pos 0)⟩
      | succ dims => exact Ty.isValue_of_isReference (href (Nat.succ_pos dims))
    obtain ⟨hsound', href'⟩ :=
      hsound.arrayOf hinnerApart hvalue (contains_arrayOfDims hc dims)
    exact ⟨hsound', Ty.ne_any_of_isReference href', fun _ => href'⟩

/-- The handle of an array does not depend on what else is known. -/
theorem arrayOfDims_below {small large : Registry} {base : Ty}
    (hc : small.contains base = true) {dims : Nat}
    (h : (small.arrayOfDims base dims).2.Below large) :
    (large.arrayOfDims base dims).1 = (small.arrayOfDims base dims).1 := by
  induction dims with
  | zero => rfl
  | succ dims ih =>
    have hinner : (small.arrayOfDims base dims).2.Below large := (below_arrayOf _ _).trans h
    have hdesc := (hinner.trans (below_arrayOfDims large base dims)).descriptor
      (contains_arrayOfDims hc dims)
    show ((large.arrayOfDims base dims).2.arrayOf (large.arrayOfDims base dims).1).1
      = ((small.arrayOfDims base dims).2.arrayOf (small.arrayOfDims base dims).1).1
    rw [arrayOf_fst, arrayOf_fst, ih hinner, hdesc]

end Registry

/-! ## Type names -/

/-- The name does not mean the recovery type when it is taken as a qualified name. -/
def TypeName.Ordinary (name : TypeName) : Prop :=
  Ty.named (Registry.internalForm name.name) ≠ .any

namespace Registry

variable {registry resolved large : Registry} {name : TypeName} {ty : Ty}

theorem resolve_eq_ok_iff :
    registry.resolve name = .ok (ty, resolved) ↔ ∃ base, registry.lookup? name.name = some base
      ∧ (0 < name.dims → base ≠ .void) ∧ registry.arrayOfDims base name.dims = (ty, resolved) := by
  unfold resolve
  cases registry.lookup? name.name with
  | none => simp
  | some base =>
    by_cases hvoid : 0 < name.dims ∧ base = .void
    · simp [hvoid]
    · have hbase : 0 < name.dims → base ≠ .void := fun h0 hb => hvoid ⟨h0, hb⟩
      simp only [if_neg hvoid, Except.ok.injEq, Option.some.injEq, exists_eq_left']
      exact ⟨fun h => ⟨hbase, h⟩, fun h => h.2⟩

theorem resolveValue_eq_ok_iff :
    registry.resolveValue name = .ok (ty, resolved)
      ↔ registry.resolve name = .ok (ty, resolved) ∧ ty ≠ .void := by
  unfold resolveValue
  cases registry.resolve name with
  | error e => simp
  | ok found =>
    obtain ⟨found, known⟩ := found
    by_cases hvoid : found = .void
    · simp only [if_pos hvoid, reduceCtorEq, Except.ok.injEq, Prod.mk.injEq, false_iff]
      rintro ⟨⟨rfl, -⟩, hne⟩
      exact hne hvoid
    · simp only [if_neg hvoid, Except.ok.injEq, Prod.mk.injEq]
      constructor
      · rintro ⟨rfl, rfl⟩
        exact ⟨⟨rfl, rfl⟩, hvoid⟩
      · exact fun h => h.1

theorem below_resolve (h : registry.resolve name = .ok (ty, resolved)) :
    registry.Below resolved := by
  obtain ⟨base, -, -, harray⟩ := resolve_eq_ok_iff.mp h
  have := below_arrayOfDims registry base name.dims
  rwa [harray] at this

theorem Sound.resolve (hs : registry.Sound) (hname : name.Ordinary)
    (h : registry.resolve name = .ok (ty, resolved)) (hapart : resolved.Apart) :
    resolved.Sound ∧ ty ≠ .any := by
  obtain ⟨base, hbase, hvoid, harray⟩ := resolve_eq_ok_iff.mp h
  obtain ⟨hany, hc⟩ := hs.lookup? hname hbase
  have hdims := hs.arrayOfDims hc name.dims (by rwa [harray]) hany hvoid
  rw [harray] at hdims
  exact ⟨hdims.1, hdims.2.1⟩

/-- A type name keeps its meaning in a larger registry. -/
theorem resolve_below (hs : registry.Sound) (hname : name.Ordinary)
    (h : registry.resolve name = .ok (ty, resolved)) (hlarge : resolved.Below large) :
    ∃ later, large.resolve name = .ok (ty, later) := by
  obtain ⟨base, hbase, hvoid, harray⟩ := resolve_eq_ok_iff.mp h
  obtain ⟨-, hc⟩ := hs.lookup? hname hbase
  have hbelow := (below_resolve h).trans hlarge
  have hsame : (large.arrayOfDims base name.dims).1 = ty := by
    rw [arrayOfDims_below hc (by rwa [harray]), harray]
  refine ⟨(large.arrayOfDims base name.dims).2, resolve_eq_ok_iff.mpr ⟨base, ?_, hvoid, ?_⟩⟩
  · exact hbelow.lookup? hbase
  · rw [← hsame]

theorem below_resolveOrAny (registry : Registry) (valueOnly : Bool) (name : TypeName) :
    registry.Below (registry.resolveOrAny valueOnly name).2.1 := by
  unfold resolveOrAny
  split
  · next ty resolved h =>
    split at h
    · exact below_resolve (resolveValue_eq_ok_iff.mp h).1
    · exact below_resolve h
  · exact Below.refl registry

/-- Without an error, the type is the one that the name resolves to. -/
theorem resolve_of_resolveOrAny {valueOnly : Bool}
    (h : (registry.resolveOrAny valueOnly name).2.2 = []) :
    registry.resolve name
        = .ok ((registry.resolveOrAny valueOnly name).1, (registry.resolveOrAny valueOnly name).2.1)
      ∧ (valueOnly = true → (registry.resolveOrAny valueOnly name).1 ≠ .void) := by
  unfold resolveOrAny at h ⊢
  split at h
  · next ty resolved hr =>
    simp only []
    split at hr
    · obtain ⟨hresolve, hne⟩ := resolveValue_eq_ok_iff.mp hr
      exact ⟨hresolve, fun _ => hne⟩
    · next hvalue => exact ⟨hr, fun h => absurd h hvalue⟩
  · cases h

/-! ## The builtin registry -/

theorem sound_builtin : builtin.Sound := by
  have hprims : ∀ p ∈ Prim.all, builtin.kind? (.prim p) = some .primitive
      ∧ builtin.supertypes (.prim p) = [] := by decide +kernel
  have haliases : ∀ pair ∈ builtin.aliases.pairs,
      pair.2 ≠ .any ∧ builtin.contains pair.2 = true := by decide +kernel
  have hentries : ∀ pair ∈ builtin.entries.pairs, ';' ∉ pair.2.internalName.toList
      ∧ pair.2.kind ∈ [.primitive, .null, .any, .plainClass] := by decide +kernel
  refine ⟨fun p => (hprims p (Ty.mem_all p)).1, fun p => (hprims p (Ty.mem_all p)).2, by decide +kernel,
    fun name ty h => haliases _ (Table.mem_of_get? h), fun ty entry h => ?_⟩
  obtain ⟨hname, hkind⟩ := hentries _ (Table.mem_of_get? h)
  unfold EntrySound
  simp only [List.mem_cons, List.not_mem_nil, or_false] at hkind
  rcases hkind with hkind | hkind | hkind | hkind <;> simp only [hkind]
  exact hname

end Registry

end ClassCompiler
