import ClassCompiler.Proofs.Inheritance
import ClassCompiler.Proofs.Ty

/-!
# Assignability is a subtype relation

Assignability has rules of its own for `null`, the primitives, `Object` and arrays, and follows the
supertype links for the rest. In a registry whose supertypes are classes and interfaces, the test
ends and answers by these rules. Primitives match only themselves, whatever the links say, and two
arrays are compared by their elements alone; so the relation is transitive where the links do not
contradict the rules.

* `Registry.Assigns`: the rules as a relation
* `Registry.Decides`: how the test comes to its answer, with no bound on its steps
* `Registry.assignability`: the test decides the rules, and the rules give a preorder
-/

namespace ClassCompiler.Registry

/-! ## Registries that are built up -/

/-- A class or an interface. -/
def IsClass (registry : Registry) (ty : Ty) : Prop :=
  registry.kind? ty = some .plainClass ∨ registry.kind? ty = some .interface

/-- Supertypes are classes and interfaces. -/
def LinksClasses (registry : Registry) : Prop :=
  ∀ ty, ∀ super ∈ registry.supertypes ty, registry.IsClass super

/-- The registries that come from the builtin one by registering classes and interfaces, by giving
types their supertypes, and by making arrays of registered types. -/
inductive Built : Registry → Prop
  | builtin : Built builtin
  | register {registry : Registry} (h : Built registry) (entry : TypeEntry)
    (hkind : entry.kind = .plainClass ∨ entry.kind = .interface) : Built (registry.register entry)
  | setSupertypes {registry : Registry} (h : Built registry) (ty : Ty) (superclass : Option Ty)
    (interfaces : List Ty) : Built (registry.setSupertypes ty superclass interfaces)
  | arrayOf {registry : Registry} (h : Built registry) {element : Ty}
    (hknown : registry.contains element = true) : Built (registry.arrayOf element).2

variable {registry : Registry} {target source : Ty}

/-- Nothing that is builtin becomes an array. -/
structure Layered (registry : Registry) : Prop where
  nested : registry.Nested
  builtin : ∀ ty, Registry.builtin.contains ty = true →
    registry.contains ty = true ∧ registry.elementType? ty = none

namespace Layered

theorem register (h : registry.Layered) {entry : TypeEntry}
    (hkind : ∀ element, entry.kind ≠ .array element) : (registry.register entry).Layered := by
  refine ⟨h.nested.register hkind, fun ty hty => ?_⟩
  obtain ⟨hknown, hplain⟩ := h.builtin ty hty
  refine ⟨contains_register registry entry hknown, elementType?_eq_none_iff.mpr ?_⟩
  intro element harray
  exact elementType?_eq_none_iff.mp hplain element (kind?_of_register hkind harray)

theorem setSupertypes (h : registry.Layered) (ty : Ty) (superclass : Option Ty)
    (interfaces : List Ty) : (registry.setSupertypes ty superclass interfaces).Layered := by
  refine ⟨h.nested.setSupertypes ty superclass interfaces, fun other hother => ?_⟩
  obtain ⟨hknown, hplain⟩ := h.builtin other hother
  refine ⟨(below_setSupertypes registry ty superclass interfaces).contains hknown, ?_⟩
  rw [elementType?_eq_none_iff] at hplain ⊢
  simpa only [kind?_setSupertypes] using hplain

theorem arrayOf (h : registry.Layered) {element : Ty} (hknown : registry.contains element = true) :
    (registry.arrayOf element).2.Layered := by
  refine ⟨h.nested.arrayOf hknown, fun ty hty => ?_⟩
  obtain ⟨hty, hplain⟩ := h.builtin ty hty
  refine ⟨(below_arrayOf registry element).contains hty, ?_⟩
  obtain hsame | ⟨hfresh, -, hget⟩ := registry.arrayOf_cases element
  · rwa [hsame]
  · have hne : ty ≠ (registry.arrayOf element).1 := by
      rintro rfl
      rw [hty] at hfresh
      cases hfresh
    have hkind : (registry.arrayOf element).2.kind? ty = registry.kind? ty := by
      unfold kind?
      rw [hget, if_neg hne]
    rw [elementType?_eq_none_iff] at hplain ⊢
    rwa [hkind]

end Layered

theorem Built.layered (h : registry.Built) : registry.Layered := by
  induction h with
  | builtin =>
    refine ⟨closed_builtin.nested, fun ty hty => ⟨hty, ?_⟩⟩
    have hplain : ∀ pair ∈ Registry.builtin.entries.pairs,
        pair.2.kind ∈ [.primitive, .null, .any, .plainClass] := by decide +kernel
    obtain ⟨entry, hentry⟩ := contains_iff.mp hty
    refine elementType?_eq_none_iff.mpr fun element harray => ?_
    unfold kind? at harray
    rw [hentry] at harray
    have := hplain _ (Table.mem_of_get? hentry)
    simp_all
  | register h entry hkind ih =>
    refine ih.register fun element harray => ?_
    rw [harray] at hkind
    simp at hkind
  | setSupertypes h ty superclass interfaces ih => exact ih.setSupertypes ty superclass interfaces
  | arrayOf h hknown ih => exact ih.arrayOf hknown

namespace Layered

theorem elementType?_prim (h : registry.Layered) (p : Prim) :
    registry.elementType? (.prim p) = none := by
  have hbuiltin : ∀ p ∈ Prim.all, Registry.builtin.contains (.prim p) = true := by decide +kernel
  exact (h.builtin _ (hbuiltin p (Ty.mem_all p))).2

theorem elementType?_fixed (h : registry.Layered) {ty : Ty} (hty : ty ∈ [.null, .object]) :
    registry.elementType? ty = none := by
  have hbuiltin : ∀ ty ∈ [Ty.null, .object], Registry.builtin.contains ty = true := by
    decide +kernel
  exact (h.builtin _ (hbuiltin ty hty)).2

/-- Arrays are no primitives. -/
theorem isPrimitive_of_array (h : registry.Layered) {ty element : Ty}
    (harray : registry.elementType? ty = some element) : ty.isPrimitive = false := by
  rw [Ty.isPrimitive_eq_false_iff, Ty.prim?_eq_none_iff]
  rintro p rfl
  rw [h.elementType?_prim p] at harray
  cases harray

end Layered

theorem IsClass.elementType? {ty : Ty} (h : registry.IsClass ty) :
    registry.elementType? ty = none := by
  rw [elementType?_eq_none_iff]
  rcases h with h | h <;> simp [h]

/-- A type that is inherited from by another one is no array. -/
theorem LinksClasses.eq_of_array (h : registry.LinksClasses) {element : Ty}
    (hpath : registry.Inherits source target)
    (harray : registry.elementType? target = some element) : target = source := by
  rcases hpath.eq_or_super with heq | ⟨between, hsuper⟩
  · exact heq
  · rw [(h between target hsuper).elementType?] at harray
    cases harray

/-! ## The rules -/

/-- A value of the second type may be stored where the first is expected. -/
inductive Assigns (registry : Registry) : Ty → Ty → Prop
  | same (ty : Ty) : Assigns registry ty ty
  | null {target : Ty} (htarget : target.isPrimitive = false) : Assigns registry target .null
  | object {source : Ty} (hsource : source.isPrimitive = false) : Assigns registry .object source
  | equalElements {target source element : Ty}
    (htarget : registry.elementType? target = some element)
    (hsource : registry.elementType? source = some element) : Assigns registry target source
  | elements {target source inner found : Ty} (htarget : registry.elementType? target = some inner)
    (hsource : registry.elementType? source = some found) (hinner : inner.isReference = true)
    (hfound : found.isReference = true) (h : Assigns registry inner found) :
    Assigns registry target source
  | inherited {target source : Ty} (htarget : target.isPrimitive = false)
    (hsource : source.isPrimitive = false) (h : registry.Inherits source target) :
    Assigns registry target source

/-- No rule leads from a primitive to a reference or back. -/
theorem Assigns.isPrimitive_eq (h : registry.Assigns target source) (hlayered : registry.Layered) :
    target.isPrimitive = source.isPrimitive := by
  have hnull : Ty.null.isPrimitive = false :=
    Ty.isPrimitive_eq_false_iff.mpr (Ty.prim?_fixed (by simp))
  have hobject : Ty.object.isPrimitive = false :=
    Ty.isPrimitive_eq_false_iff.mpr (Ty.prim?_fixed (by simp))
  cases h with
  | same => rfl
  | null htarget => rw [htarget, hnull]
  | object hsource => rw [hsource, hobject]
  | equalElements htarget hsource | elements htarget hsource =>
    rw [hlayered.isPrimitive_of_array htarget, hlayered.isPrimitive_of_array hsource]
  | inherited htarget hsource => rw [htarget, hsource]

/-- Primitives match only themselves. -/
theorem Assigns.eq_of_isPrimitive (h : registry.Assigns target source) (hlayered : registry.Layered)
    (hprim : target.isPrimitive = true ∨ source.isPrimitive = true) : target = source := by
  have hboth : target.isPrimitive = true ∧ source.isPrimitive = true := by
    have := h.isPrimitive_eq hlayered
    simp_all
  cases h with
  | same => rfl
  | null htarget => rw [htarget] at hboth; cases hboth.1
  | object hsource => rw [hsource] at hboth; cases hboth.2
  | equalElements htarget hsource | elements htarget hsource =>
    rw [hlayered.isPrimitive_of_array htarget] at hboth
    cases hboth.1
  | inherited htarget hsource => rw [htarget] at hboth; cases hboth.1

/-! ## The search -/

/-- The search for a type along the supertype links, with no bound on its steps: the types that were
visited, those that are pending, the last one first, and the answer. -/
inductive Seeks (registry : Registry) (target : Ty) : List Ty → List Ty → Bool → Prop
  | exhausted {seen : List Ty} : Seeks registry target seen [] false
  | found {seen pending : List Ty} : Seeks registry target seen (target :: pending) true
  | again {seen pending : List Ty} {ty : Ty} {answer : Bool} (hne : ty ≠ target) (hseen : ty ∈ seen)
    (h : Seeks registry target seen pending answer) :
    Seeks registry target seen (ty :: pending) answer
  | visit {seen pending : List Ty} {ty : Ty} {answer : Bool} (hne : ty ≠ target) (hseen : ty ∉ seen)
    (h : Seeks registry target (ty :: seen) ((registry.supertypes ty).reverse ++ pending) answer) :
    Seeks registry target seen (ty :: pending) answer

/-- The search ends: each type is visited once, and only a visit makes types pending. -/
theorem exists_seeks (registry : Registry) (target : Ty) (seen pending : List Ty) :
    ∃ answer, registry.Seeks target seen pending answer := by
  generalize hbound : pending.length + unseenLinks seen registry.entries.pairs = bound
  induction bound using Nat.strongRecOn generalizing seen pending with
  | ind bound ih =>
    cases pending with
    | nil => exact ⟨false, .exhausted⟩
    | cons ty pending =>
      rw [List.length_cons] at hbound
      by_cases hfound : ty = target
      · subst hfound
        exact ⟨true, .found⟩
      by_cases hseen : ty ∈ seen
      · obtain ⟨answer, hrest⟩ := ih _ (by omega) seen pending rfl
        exact ⟨answer, .again hfound hseen hrest⟩
      · have hcount := unseenLinks_visit hseen registry
        obtain ⟨answer, hrest⟩ := ih _ (by simp; omega) (ty :: seen)
          ((registry.supertypes ty).reverse ++ pending) rfl
        exact ⟨answer, .visit hfound hseen hrest⟩

/-- The answer is right when nothing that was visited is the type sought or leads elsewhere. -/
theorem Seeks.answer_iff {seen pending : List Ty} {answer : Bool}
    (h : registry.Seeks target seen pending answer)
    (hstart : source ∈ seen ∨ source ∈ pending)
    (hpending : ∀ a ∈ pending, registry.Inherits source a)
    (hseen : ∀ a ∈ seen, a ≠ target ∧ registry.Inherits source a)
    (hlinks : ∀ a ∈ seen, ∀ super ∈ registry.supertypes a, super ∈ seen ∨ super ∈ pending) :
    answer = true ↔ registry.Inherits source target := by
  induction h with
  | @exhausted seen =>
    refine iff_of_false (by simp) fun hpath => ?_
    have hclosed : ∀ a ∈ seen, ∀ super ∈ registry.supertypes a, super ∈ seen := by
      simpa using hlinks
    have hmem : target ∈ seen := hpath.mem (by simpa using hstart) hclosed
    exact (hseen target hmem).1 rfl
  | found => exact iff_of_true rfl (hpending _ List.mem_cons_self)
  | @again seen pending ty answer hne hmem _ ih =>
    have hkept : ∀ a, a ∈ seen ∨ a ∈ ty :: pending → a ∈ seen ∨ a ∈ pending := by
      rintro a (ha | ha)
      · exact .inl ha
      · rcases List.mem_cons.mp ha with rfl | ha
        · exact .inl hmem
        · exact .inr ha
    exact ih (hkept _ hstart) (fun a ha => hpending a (List.mem_cons_of_mem _ ha)) hseen
      fun a ha super hsuper => hkept _ (hlinks a ha super hsuper)
  | @visit seen pending ty answer hne hmem _ ih =>
    have hty := hpending ty List.mem_cons_self
    have hkept : ∀ a, a ∈ seen ∨ a ∈ ty :: pending →
        a ∈ ty :: seen ∨ a ∈ (registry.supertypes ty).reverse ++ pending := by
      intro a
      simp only [List.mem_cons, List.mem_append]
      tauto
    refine ih (hkept _ hstart) (fun a ha => ?_) (fun a ha => ?_) fun a ha super hsuper => ?_
    · rcases List.mem_append.mp ha with ha | ha
      · exact hty.link (List.mem_reverse.mp ha)
      · exact hpending a (List.mem_cons_of_mem _ ha)
    · rcases List.mem_cons.mp ha with rfl | ha
      · exact ⟨hne, hty⟩
      · exact hseen a ha
    · rcases List.mem_cons.mp ha with rfl | ha
      · exact .inr (List.mem_append_left _ (List.mem_reverse.mpr hsuper))
      · exact hkept _ (hlinks a ha super hsuper)

theorem seeks_ancestors (registry : Registry) (target source : Ty) :
    registry.Seeks target [] [source] ((registry.ancestors source).contains target) := by
  obtain ⟨answer, hseeks⟩ := registry.exists_seeks target [] [source]
  have hanswer : answer = true ↔ registry.Inherits source target := by
    refine hseeks.answer_iff (.inr List.mem_cons_self) (fun a ha => ?_) (by simp) (by simp)
    rw [List.mem_singleton.mp ha]
    exact .self
  have heq : (registry.ancestors source).contains target = answer := by
    rw [Bool.eq_iff_iff, hanswer, List.contains_iff_mem, mem_ancestors]
  rwa [heq]

/-! ## The test -/

/-- Two types that the rules for identity, `null`, primitives and `Object` leave open. -/
structure Unsettled (target source : Ty) : Prop where
  ne : target ≠ source
  known : target ≠ .any ∧ source ≠ .any
  null : source ≠ .null
  references : target.isPrimitive = false ∧ source.isPrimitive = false
  object : target ≠ .object

/-- How the test comes to its answer on types other than `any`. -/
inductive Decides (registry : Registry) : Ty → Ty → Bool → Prop
  | same (ty : Ty) : Decides registry ty ty true
  | null {target : Ty} (hne : target ≠ .null) : Decides registry target .null target.isReference
  | primitive {target source : Ty} (hne : target ≠ source) (hnull : source ≠ .null)
    (hprim : target.isPrimitive = true ∨ source.isPrimitive = true) :
    Decides registry target source false
  | object {source : Ty} (hne : Ty.object ≠ source) (hnull : source ≠ .null)
    (hsource : source.isPrimitive = false) : Decides registry Ty.object source true
  | equalElements {target source element : Ty} (h : Unsettled target source)
    (htarget : registry.elementType? target = some element)
    (hsource : registry.elementType? source = some element) : Decides registry target source true
  | primitiveElements {target source inner found : Ty} (h : Unsettled target source)
    (htarget : registry.elementType? target = some inner)
    (hsource : registry.elementType? source = some found) (hne : inner ≠ found)
    (hprim : inner.isReference = false ∨ found.isReference = false) :
    Decides registry target source false
  | elements {target source inner found : Ty} {answer : Bool} (h : Unsettled target source)
    (htarget : registry.elementType? target = some inner)
    (hsource : registry.elementType? source = some found) (hne : inner ≠ found)
    (hinner : inner.isReference = true) (hfound : found.isReference = true)
    (hrec : Decides registry inner found answer) : Decides registry target source answer
  | links {target source : Ty} {answer : Bool} (h : Unsettled target source)
    (hplain : registry.elementType? target = none ∨ registry.elementType? source = none)
    (hseeks : registry.Seeks target [] [source] answer) : Decides registry target source answer

/-- The test answers as it should: it comes to that answer, and the rules agree. -/
def Answers (registry : Registry) (target source : Ty) (answer : Bool) : Prop :=
  registry.Decides target source answer ∧ (answer = true ↔ registry.Assigns target source)

/-- The rules before the arrays are the same at every depth. -/
theorem Layered.answers_of_rest (h : registry.Layered) (htarget : target ≠ .any)
    (hsource : source ≠ .any) {rest : Bool}
    (hrest : Unsettled target source → registry.Answers target source rest) :
    registry.Answers target source
      (if target = source ∨ target = .any ∨ source = .any then true
        else if source = .null then target.isReference
        else if target.isPrimitive || source.isPrimitive then false
        else if target = .object then true
        else rest) := by
  by_cases hsame : target = source
  · subst hsame
    rw [if_pos (.inl rfl)]
    exact ⟨.same target, iff_of_true rfl (.same target)⟩
  rw [if_neg (by simp [hsame, htarget, hsource])]
  by_cases hnull : source = .null
  · subst hnull
    rw [if_pos rfl]
    refine ⟨.null hsame, ?_⟩
    rw [Ty.isReference_iff, ← Ty.isPrimitive_eq_false_iff]
    constructor
    · exact fun href => .null href.1
    · intro hassigns
      refine ⟨?_, htarget⟩
      rw [hassigns.isPrimitive_eq h, Ty.isPrimitive_eq_false_iff]
      exact Ty.prim?_fixed (by simp)
  rw [if_neg hnull]
  by_cases hprim : target.isPrimitive = true ∨ source.isPrimitive = true
  · rw [if_pos (by simpa using hprim)]
    refine ⟨.primitive hsame hnull hprim, iff_of_false (by simp) fun hassigns => ?_⟩
    exact hsame (hassigns.eq_of_isPrimitive h hprim)
  rw [if_neg (by simpa using hprim)]
  obtain ⟨hplain, hplain'⟩ : target.isPrimitive = false ∧ source.isPrimitive = false := by
    simpa using hprim
  by_cases hobject : target = .object
  · subst hobject
    rw [if_pos rfl]
    exact ⟨.object hsame hnull hplain', iff_of_true rfl (.object hplain')⟩
  · rw [if_neg hobject]
    exact hrest ⟨hsame, ⟨htarget, hsource⟩, hnull, ⟨hplain, hplain'⟩, hobject⟩

/-- Where not both types are arrays, only the links are left. -/
theorem Unsettled.answers_links (h : Unsettled target source)
    (hplain : registry.elementType? target = none ∨ registry.elementType? source = none) :
    registry.Answers target source ((registry.ancestors source).contains target) := by
  refine ⟨.links h hplain (registry.seeks_ancestors target source), ?_⟩
  rw [List.contains_iff_mem, mem_ancestors]
  constructor
  · exact fun hpath => .inherited h.references.1 h.references.2 hpath
  · intro hassigns
    cases hassigns with
    | same => exact absurd rfl h.ne
    | null => exact absurd rfl h.null
    | object => exact absurd rfl h.object
    | equalElements htarget hsource | elements htarget hsource =>
      rw [htarget, hsource] at hplain
      simp at hplain
    | inherited _ _ hpath => exact hpath

/-- Where both types are arrays, only their elements are left. -/
theorem Unsettled.answers_elements (h : Unsettled target source) (hlinks : registry.LinksClasses)
    {inner found : Ty} (htarget : registry.elementType? target = some inner)
    (hsource : registry.elementType? source = some found) {rest : Bool}
    (hrest : inner.isReference = true → found.isReference = true →
      registry.Answers inner found rest) :
    registry.Answers target source
      (inner == found || (inner.isReference && found.isReference && rest)) := by
  have hassigns : registry.Assigns target source ↔ inner = found
      ∨ inner.isReference = true ∧ found.isReference = true ∧ registry.Assigns inner found := by
    constructor
    · intro hassigns
      cases hassigns with
      | same => exact absurd rfl h.ne
      | null => exact absurd rfl h.null
      | object => exact absurd rfl h.object
      | equalElements ht hs => simp_all
      | elements ht hs hi hf hrec =>
        rw [htarget] at ht
        rw [hsource] at hs
        cases ht
        cases hs
        exact .inr ⟨hi, hf, hrec⟩
      | inherited _ _ hpath => exact absurd (hlinks.eq_of_array hpath htarget) h.ne
    · rintro (rfl | ⟨hi, hf, hrec⟩)
      · exact .equalElements htarget hsource
      · exact .elements htarget hsource hi hf hrec
  by_cases heq : inner = found
  · subst heq
    simp only [beq_self_eq_true, Bool.true_or]
    exact ⟨.equalElements h htarget hsource, by simp [hassigns]⟩
  have hbeq : (inner == found) = false := by simpa using heq
  by_cases hrefs : inner.isReference = true ∧ found.isReference = true
  · obtain ⟨hdecides, hiff⟩ := hrest hrefs.1 hrefs.2
    simp only [hbeq, hrefs, Bool.and_self, Bool.true_and, Bool.false_or]
    refine ⟨.elements h htarget hsource heq hrefs.1 hrefs.2 hdecides, ?_⟩
    rw [hassigns, hiff]
    simp [heq, hrefs]
  · have hfalse : (inner.isReference && found.isReference) = false := by simpa using hrefs
    simp only [hbeq, hfalse, Bool.false_and, Bool.or_false]
    refine ⟨.primitiveElements h htarget hsource heq ?_, iff_of_false (by simp) ?_⟩
    · simpa only [Bool.and_eq_false_iff] using hfalse
    · rw [hassigns]
      rintro (heq' | ⟨hi, hf, -⟩)
      · exact heq heq'
      · exact hrefs ⟨hi, hf⟩

/-- Arrays nest no deeper than there are entries, so the depth that the test is given is enough. -/
theorem Layered.answers (h : registry.Layered) (hlinks : registry.LinksClasses)
    (htarget : target ≠ .any) (hsource : source ≠ .any) :
    registry.Answers target source (registry.isAssignableFrom target source) := by
  obtain ⟨rank, hrank⟩ := h.nested
  have hwithin : ∀ depth target source, target ≠ .any → source ≠ .any →
      (registry.lower rank (rank target)).length ≤ depth →
      registry.Answers target source (registry.isAssignableWithin depth target source) := by
    intro depth
    induction depth with
    | zero =>
      intro target source htarget hsource hdepth
      have hplain : registry.elementType? target = none := by
        refine Option.eq_none_iff_forall_ne_some.mpr fun element harray => ?_
        obtain ⟨hcontains, hlt⟩ := hrank _ _ (elementType?_eq_some_iff.mp harray)
        have := lower_lt hcontains hlt
        omega
      rw [isAssignableWithin_plain (.inl hplain)]
      exact h.answers_of_rest htarget hsource fun hopen => hopen.answers_links (.inl hplain)
    | succ depth ih =>
      intro target source htarget hsource hdepth
      by_cases hplain : registry.elementType? target = none ∨ registry.elementType? source = none
      · rw [isAssignableWithin_plain hplain]
        exact h.answers_of_rest htarget hsource fun hopen => hopen.answers_links hplain
      · rw [not_or] at hplain
        obtain ⟨inner, hinner⟩ := Option.ne_none_iff_exists'.mp hplain.1
        obtain ⟨found, hfound⟩ := Option.ne_none_iff_exists'.mp hplain.2
        obtain ⟨hcontains, hlt⟩ := hrank _ _ (elementType?_eq_some_iff.mp hinner)
        have hlower := lower_lt hcontains hlt
        rw [isAssignableWithin_arrays hinner hfound]
        refine h.answers_of_rest htarget hsource fun hopen =>
          hopen.answers_elements hlinks hinner hfound fun hi hf => ?_
        exact ih inner found (Ty.ne_any_of_isReference hi) (Ty.ne_any_of_isReference hf) (by omega)
  exact hwithin _ target source htarget hsource (Nat.le_succ_of_le (List.length_filter_le _ _))

/-! ## The preorder -/

/-- The links agree with the rules for `Object`, `null` and arrays: `Object` has no supertype,
`null` has no subtype, and an array has no supertype but `Object`. -/
structure Plain (registry : Registry) : Prop where
  object : registry.supertypes .object = []
  null : ∀ ty, .null ∉ registry.supertypes ty
  arrays : ∀ ty, registry.isArray ty = true → ∀ super ∈ registry.supertypes ty, super = .object

namespace Plain

theorem eq_object (h : registry.Plain) {ancestor : Ty}
    (hpath : registry.Inherits .object ancestor) : ancestor = .object := by
  rcases hpath.head with heq | ⟨super, hsuper, -⟩
  · exact heq
  · rw [h.object] at hsuper
    exact absurd hsuper List.not_mem_nil

theorem eq_or_object_of_array (h : registry.Plain) {ty element ancestor : Ty}
    (harray : registry.elementType? ty = some element) (hpath : registry.Inherits ty ancestor) :
    ancestor = ty ∨ ancestor = .object := by
  rcases hpath.head with heq | ⟨super, hsuper, hrest⟩
  · exact .inl heq
  · have hobject : super = .object := h.arrays ty (by simp [isArray, harray]) super hsuper
    subst hobject
    exact .inr (h.eq_object hrest)

theorem assigns_object (h : registry.Plain) (hlayered : registry.Layered)
    (hassigns : registry.Assigns target .object) : target = .object := by
  have hplain : registry.elementType? .object = none := hlayered.elementType?_fixed (by simp)
  generalize hsource : Ty.object = source at *
  cases hassigns with
  | same => rfl
  | object => exact hsource
  | null => exact absurd hsource (by decide +kernel)
  | equalElements _ harray | elements _ harray => rw [hplain] at harray; cases harray
  | inherited _ _ hpath => subst hsource; exact h.eq_object hpath

/-- An array is accepted by `Object`, and by arrays whose elements accept its own. -/
theorem assigns_array (h : registry.Plain) (hlayered : registry.Layered) {found : Ty}
    (harray : registry.elementType? source = some found)
    (hassigns : registry.Assigns target source) :
    target = .object ∨ ∃ inner, registry.elementType? target = some inner
      ∧ (inner = found ∨ inner.isReference = true ∧ found.isReference = true
        ∧ registry.Assigns inner found) := by
  cases hassigns with
  | same => exact .inr ⟨found, harray, .inl rfl⟩
  | null =>
    have hnull : registry.elementType? .null = none := hlayered.elementType?_fixed (by simp)
    rw [hnull] at harray
    cases harray
  | object => exact .inl rfl
  | equalElements htarget hsource =>
    rw [harray] at hsource
    cases hsource
    exact .inr ⟨found, htarget, .inl rfl⟩
  | @elements _ _ inner _ htarget hsource hinner hfound hrec =>
    rw [harray] at hsource
    cases hsource
    exact .inr ⟨inner, htarget, .inr ⟨hinner, hfound, hrec⟩⟩
  | inherited _ _ hpath =>
    rcases h.eq_or_object_of_array harray hpath with rfl | hobject
    · exact .inr ⟨found, harray, .inl rfl⟩
    · exact .inl hobject

theorem trans (h : registry.Plain) (hlayered : registry.Layered) (hlinks : registry.LinksClasses)
    {between : Ty} (hupper : registry.Assigns target between)
    (hlower : registry.Assigns between source) : registry.Assigns target source := by
  induction hlower generalizing target with
  | same => exact hupper
  | null hbetween =>
    apply Assigns.null
    rw [hupper.isPrimitive_eq hlayered, hbetween]
  | object hsource =>
    obtain rfl := h.assigns_object hlayered hupper
    exact .object hsource
  | equalElements hbetween hsource =>
    have hprim := hlayered.isPrimitive_of_array hsource
    obtain rfl | ⟨inner, htarget, rfl | ⟨hinner, hfound, hrec⟩⟩ :=
      h.assigns_array hlayered hbetween hupper
    · exact .object hprim
    · exact .equalElements htarget hsource
    · exact .elements htarget hsource hinner hfound hrec
  | elements hbetween hsource hinner hfound hrec ih =>
    have hprim := hlayered.isPrimitive_of_array hsource
    obtain rfl | ⟨outer, htarget, rfl | ⟨houter, _, hupper⟩⟩ :=
      h.assigns_array hlayered hbetween hupper
    · exact .object hprim
    · exact .elements htarget hsource hinner hfound hrec
    · exact .elements htarget hsource houter hfound (ih hupper)
  | @inherited between source hbetween hsource hpath =>
    cases hupper with
    | same => exact .inherited hbetween hsource hpath
    | null htarget =>
      rcases hpath.eq_or_super with rfl | ⟨ty, hsuper⟩
      · exact .null htarget
      · exact absurd hsuper (h.null ty)
    | object => exact .object hsource
    | equalElements htarget harray =>
      obtain rfl := hlinks.eq_of_array hpath harray
      exact .equalElements htarget harray
    | elements htarget harray hinner hfound hrec =>
      obtain rfl := hlinks.eq_of_array hpath harray
      exact .elements htarget harray hinner hfound hrec
    | inherited htarget _ hupper => exact .inherited htarget hsource (hpath.trans hupper)

end Plain

/-- The test ends and answers by the rules, and where the links are plain it is a preorder. -/
theorem assignability (h : registry.Built) (hlinks : registry.LinksClasses) :
    (∀ target source, target ≠ .any → source ≠ .any →
      registry.Decides target source (registry.isAssignableFrom target source)
        ∧ (registry.isAssignableFrom target source = true ↔ registry.Assigns target source))
    ∧ (registry.Plain →
      (∀ ty, ty ≠ .any → registry.isAssignableFrom ty ty = true)
      ∧ ∀ target between source, target ≠ .any → between ≠ .any → source ≠ .any →
        registry.isAssignableFrom target between = true →
        registry.isAssignableFrom between source = true →
        registry.isAssignableFrom target source = true) := by
  have hlayered := h.layered
  have hiff : ∀ target source, target ≠ .any → source ≠ .any →
      (registry.isAssignableFrom target source = true ↔ registry.Assigns target source) :=
    fun target source htarget hsource => (hlayered.answers hlinks htarget hsource).2
  refine ⟨fun target source htarget hsource => hlayered.answers hlinks htarget hsource,
    fun hplain => ⟨fun ty hty => ?_, ?_⟩⟩
  · rw [hiff ty ty hty hty]
    exact .same ty
  · intro target between source htarget hbetween hsource hupper hlower
    rw [hiff _ _ htarget hbetween] at hupper
    rw [hiff _ _ hbetween hsource] at hlower
    rw [hiff _ _ htarget hsource]
    exact hplain.trans hlayered hlinks hupper hlower

/-! ## Links against the rules -/

instance (registry : Registry) (ty : Ty) : Decidable (registry.IsClass ty) :=
  inferInstanceAs (Decidable (_ ∨ _))

/-- Two classes that extend each other, and the arrays of both. -/
def mutualClasses : Registry :=
  let one := builtin.register { internalName := "One", kind := .plainClass }
  let two := one.register { internalName := "Two", kind := .plainClass }
  let linked := (two.setSupertypes (.named "One") (some (.named "Two")) []).setSupertypes
    (.named "Two") (some (.named "One")) []
  ((linked.arrayOf (.named "One")).2.arrayOf (.named "Two")).2

theorem built_mutualClasses : mutualClasses.Built := by
  have hclasses := Built.register (.register .builtin { internalName := "One", kind := .plainClass }
    (.inl rfl)) { internalName := "Two", kind := .plainClass } (.inl rfl)
  refine .arrayOf (.arrayOf (.setSupertypes (.setSupertypes hclasses _ _ _) _ _ _) ?_) ?_
  · decide +kernel
  · decide +kernel

theorem assignability_mutualClasses :
    mutualClasses.Built ∧ mutualClasses.LinksClasses ∧ mutualClasses.Plain
      ∧ mutualClasses.Assigns (.named "[LOne;") (.named "[LTwo;")
      ∧ ¬mutualClasses.Assigns .string (.named "[LTwo;")
      ∧ mutualClasses.isAssignableFrom .object (.named "Two") = true := by
  have hentries : ∀ pair ∈ mutualClasses.entries.pairs, ∀ super ∈ pair.2.supertypes,
      mutualClasses.IsClass super ∧ super ≠ .null
        ∧ (mutualClasses.isArray pair.1 = true → super = .object) := by decide +kernel
  have hall := forall_supertypes mutualClasses
    (fun ty super => mutualClasses.IsClass super ∧ super ≠ .null
      ∧ (mutualClasses.isArray ty = true → super = .object)) hentries
  have hlinks : mutualClasses.LinksClasses := fun ty super hsuper => (hall ty super hsuper).1
  have hplain : mutualClasses.Plain := by
    refine ⟨by decide +kernel, fun ty hnull => ?_, fun ty harray super hsuper => ?_⟩
    · exact (hall ty .null hnull).2.1 rfl
    · exact (hall ty super hsuper).2.2 harray
  have hknown : ∀ ty ∈ [Ty.string, .named "One", .named "Two", .named "[LOne;", .named "[LTwo;"],
      ty ≠ .any := by decide +kernel
  obtain ⟨hdecides, hpreorder⟩ := assignability built_mutualClasses hlinks
  refine ⟨built_mutualClasses, hlinks, hplain, ?_, ?_, ?_⟩
  · apply (hdecides _ _ (hknown _ (by simp)) (hknown _ (by simp))).2.mp
    decide +kernel
  · rw [← (hdecides _ _ (hknown _ (by simp)) (hknown _ (by simp))).2]
    decide +kernel
  · have hsteps : mutualClasses.isAssignableFrom .object (.named "One") = true
        ∧ mutualClasses.isAssignableFrom (.named "One") (.named "Two") = true := by decide +kernel
    exact (hpreorder hplain).2 _ _ _ (Ty.fixed_ne_any (by simp)) (hknown _ (by simp))
      (hknown _ (by simp)) hsteps.1 hsteps.2

/-- A primitive with a superclass. -/
def primitiveSubclass : Registry := builtin.setSupertypes .int (some .string) []

/-- The arrays of `Object` implement an interface, and the arrays of `String` do not. -/
def taggedArrays : Registry :=
  let tag := builtin.register { internalName := "Tag", kind := .interface }
  let arrays := ((tag.arrayOf .object).2.arrayOf .string).2
  arrays.setSupertypes (.named "[Ljava/lang/Object;") (some .object) [.named "Tag"]

/-- A class in the place of `null`, and a subclass of it. -/
def nullSubclass : Registry :=
  (builtin.register { internalName := "<null>", kind := .plainClass }).register
    { internalName := "One", kind := .plainClass, superclass := some .null }

/-- Links are not followed from a primitive; and where an array has an interface, or `null` a
subclass, the answers are not transitive. -/
theorem links_against_rules :
    (primitiveSubclass.Built ∧ primitiveSubclass.LinksClasses
      ∧ primitiveSubclass.Inherits .int .string
      ∧ primitiveSubclass.isAssignableFrom .string .int = false)
    ∧ (taggedArrays.Built ∧ taggedArrays.LinksClasses ∧ taggedArrays.supertypes .object = []
      ∧ taggedArrays.isAssignableFrom (.named "Tag") (.named "[Ljava/lang/Object;") = true
      ∧ taggedArrays.isAssignableFrom (.named "[Ljava/lang/Object;")
        (.named "[Ljava/lang/String;") = true
      ∧ taggedArrays.isAssignableFrom (.named "Tag") (.named "[Ljava/lang/String;") = false)
    ∧ (nullSubclass.Built ∧ nullSubclass.LinksClasses ∧ nullSubclass.supertypes .object = []
      ∧ nullSubclass.isAssignableFrom .string .null = true
      ∧ nullSubclass.isAssignableFrom .null (.named "One") = true
      ∧ nullSubclass.isAssignableFrom .string (.named "One") = false) := by
  have hlinks : ∀ registry ∈ [primitiveSubclass, taggedArrays, nullSubclass],
      ∀ pair ∈ registry.entries.pairs, ∀ super ∈ pair.2.supertypes, registry.IsClass super := by
    decide +kernel
  have hlinked : ∀ registry ∈ [primitiveSubclass, taggedArrays, nullSubclass],
      registry.LinksClasses := fun registry h => forall_supertypes registry _ (hlinks registry h)
  refine ⟨⟨.setSupertypes .builtin _ _ _, hlinked _ (by simp), .link .self ?_, ?_⟩,
    ⟨.setSupertypes (.arrayOf (.arrayOf (.register .builtin _ (.inr rfl)) ?_) ?_) _ _ _,
      hlinked _ (by simp), ?_⟩,
    ⟨.register (.register .builtin _ (.inl rfl)) _ (.inl rfl), hlinked _ (by simp), ?_⟩⟩
  all_goals decide +kernel

end ClassCompiler.Registry
