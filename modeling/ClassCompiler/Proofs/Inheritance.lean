import ClassCompiler.Proofs.Ancestry

/-!
# What the search along the supertypes finds

The search finds a type and everything that it inherits from, and nothing else. It comes to a type
behind the one whose link led there, so what comes late in its order is inherited along a path of
what came before.

* `Registry.mem_ancestors`: the ancestors are what is inherited from
* `Registry.Bypasses`: inherited along a path that leaves a type out
* `Registry.bypasses_of_ancestors`: the order of the search
* `Registry.Regular`: a registry in which every class has one superclass
-/

namespace ClassCompiler.Registry

variable {registry : Registry} {ty : Ty}

/-! ## Paths -/

theorem Inherits.trans {between ancestor : Ty} (h : registry.Inherits ty between)
    (h' : registry.Inherits between ancestor) : registry.Inherits ty ancestor := by
  induction h' with
  | self => exact h
  | link _ hsuper ih => exact ih.link hsuper

/-- A path is empty or starts with a link. -/
theorem Inherits.head {ancestor : Ty} (h : registry.Inherits ty ancestor) :
    ancestor = ty ∨ ∃ super ∈ registry.supertypes ty, registry.Inherits super ancestor := by
  induction h with
  | self => exact .inl rfl
  | @link between super h hsuper ih =>
    rcases ih with rfl | ⟨first, hfirst, hpath⟩
    · exact .inr ⟨super, hsuper, .self⟩
    · exact .inr ⟨first, hfirst, hpath.link hsuper⟩

/-- A type that is inherited from is the type itself or a supertype of some type. -/
theorem Inherits.eq_or_super {ancestor : Ty} (h : registry.Inherits ty ancestor) :
    ancestor = ty ∨ ∃ between, ancestor ∈ registry.supertypes between := by
  cases h with
  | self => exact .inl rfl
  | link _ hsuper => exact .inr ⟨_, hsuper⟩

/-- The types that the supertype links lead to without a certain one on the way. -/
inductive Bypasses (registry : Registry) (avoided ty : Ty) : Ty → Prop
  | self (h : ty ≠ avoided) : Bypasses registry avoided ty ty
  | link {between super : Ty} (h : Bypasses registry avoided ty between)
    (hsuper : super ∈ registry.supertypes between) (hne : super ≠ avoided) :
    Bypasses registry avoided ty super

theorem Bypasses.inherits {avoided ancestor : Ty} (h : registry.Bypasses avoided ty ancestor) :
    registry.Inherits ty ancestor := by
  induction h with
  | self => exact .self
  | link _ hsuper _ ih => exact ih.link hsuper

theorem Bypasses.ne {avoided ancestor : Ty} (h : registry.Bypasses avoided ty ancestor) :
    ancestor ≠ avoided := by
  cases h with
  | self h => exact h
  | link _ _ hne => exact hne

/-- What holds of the links of every entry holds of all links. -/
theorem forall_supertypes (registry : Registry) (holds : Ty → Ty → Prop)
    (h : ∀ pair ∈ registry.entries.pairs, ∀ super ∈ pair.2.supertypes, holds pair.1 super) :
    ∀ ty, ∀ super ∈ registry.supertypes ty, holds ty super := by
  intro ty super hsuper
  unfold supertypes at hsuper
  cases hentry : registry.get? ty with
  | none =>
    rw [hentry] at hsuper
    exact absurd hsuper List.not_mem_nil
  | some entry =>
    rw [hentry] at hsuper
    exact h (ty, entry) (Table.mem_of_get? hentry) super hsuper

/-- A number that falls along every link falls along every path. -/
theorem Inherits.eq_or_rank_lt {rank : Ty → Nat}
    (hrank : ∀ ty, ∀ super ∈ registry.supertypes ty, rank super < rank ty) {ancestor : Ty}
    (h : registry.Inherits ty ancestor) : ty = ancestor ∨ rank ancestor < rank ty := by
  induction h with
  | self => exact .inl rfl
  | @link between super _ hsuper ih =>
    have hlt := hrank between super hsuper
    rcases ih with rfl | hbelow
    · exact .inr hlt
    · exact .inr (by omega)

/-! ## What is found -/

theorem visit_sound {fuel : Nat} {seen pending : List Ty}
    (hseen : ∀ a ∈ seen, registry.Inherits ty a)
    (hpending : ∀ a ∈ pending, registry.Inherits ty a) :
    ∀ a ∈ registry.visit fuel seen pending, registry.Inherits ty a := by
  induction fuel generalizing seen pending with
  | zero => exact hseen
  | succ fuel ih =>
    cases pending with
    | nil => exact hseen
    | cons first rest =>
      obtain ⟨hfirst, hrest⟩ := List.forall_mem_cons.mp hpending
      rw [visit]
      split
      · exact ih hseen hrest
      · refine ih (List.forall_mem_cons.mpr ⟨hfirst, hseen⟩) fun a ha => ?_
        rcases List.mem_append.mp ha with ha | ha
        · exact hfirst.link ha
        · exact hrest a ha

/-- A search with enough steps keeps what it has, takes up what is pending, and follows every
link. -/
theorem visit_complete {fuel : Nat} {seen pending : List Ty}
    (hfuel : pending.length + unseenLinks seen registry.entries.pairs ≤ fuel)
    (hlinks : ∀ a ∈ seen, ∀ super ∈ registry.supertypes a, super ∈ seen ∨ super ∈ pending) :
    (∀ a, a ∈ seen ∨ a ∈ pending → a ∈ registry.visit fuel seen pending)
      ∧ ∀ a ∈ registry.visit fuel seen pending, ∀ super ∈ registry.supertypes a,
        super ∈ registry.visit fuel seen pending := by
  induction fuel generalizing seen pending with
  | zero =>
    have hnil : pending = [] := List.length_eq_zero_iff.mp (by omega)
    subst hnil
    simpa [visit] using hlinks
  | succ fuel ih =>
    cases pending with
    | nil => simpa [visit] using hlinks
    | cons first rest =>
      rw [List.length_cons] at hfuel
      rw [visit]
      split
      · next hfirst =>
        have hmem : first ∈ seen := by simpa using hfirst
        have hlength : rest.length + unseenLinks seen registry.entries.pairs ≤ fuel := by omega
        obtain ⟨hkept, hclosed⟩ := ih hlength fun a ha super hs => by
          rcases hlinks a ha super hs with h | h
          · exact .inl h
          · rcases List.mem_cons.mp h with rfl | h
            · exact .inl hmem
            · exact .inr h
        refine ⟨fun a ha => hkept a ?_, hclosed⟩
        rcases ha with ha | ha
        · exact .inl ha
        · rcases List.mem_cons.mp ha with rfl | ha
          · exact .inl hmem
          · exact .inr ha
      · next hfirst =>
        have hcount := unseenLinks_visit (by simpa using hfirst) registry
        have hlength : (registry.supertypes first ++ rest).length
            + unseenLinks (first :: seen) registry.entries.pairs ≤ fuel := by
          rw [List.length_append]
          omega
        obtain ⟨hkept, hclosed⟩ := ih hlength fun a ha super hs => by
          rcases List.mem_cons.mp ha with rfl | ha
          · exact .inr (List.mem_append_left _ hs)
          · rcases hlinks a ha super hs with h | h
            · exact .inl (List.mem_cons_of_mem _ h)
            · rcases List.mem_cons.mp h with rfl | h
              · exact .inl List.mem_cons_self
              · exact .inr (List.mem_append_right _ h)
        refine ⟨fun a ha => hkept a ?_, hclosed⟩
        rcases ha with ha | ha
        · exact .inl (List.mem_cons_of_mem _ ha)
        · rcases List.mem_cons.mp ha with rfl | ha
          · exact .inl List.mem_cons_self
          · exact .inr (List.mem_append_right _ ha)

/-- The search finds what the type inherits from. -/
theorem mem_ancestors {ancestor : Ty} :
    ancestor ∈ registry.ancestors ty ↔ registry.Inherits ty ancestor := by
  unfold ancestors
  rw [List.mem_reverse]
  constructor
  · refine visit_sound (fun a ha => (List.not_mem_nil ha).elim) (fun a ha => ?_) ancestor
    rw [List.mem_singleton.mp ha]
    exact .self
  · intro h
    have hfuel : [ty].length + unseenLinks [] registry.entries.pairs ≤ registry.visitBound := by
      unfold visitBound Table.values
      rw [unseenLinks_nil]
      exact Nat.le_refl _
    obtain ⟨hkept, hclosed⟩ := visit_complete hfuel fun a ha => (List.not_mem_nil ha).elim
    exact h.mem (hkept ty (.inr List.mem_cons_self)) hclosed

/-! ## The order of the search -/

/-- Every type of the list, latest first, is the first one of the search or a supertype of an
earlier one. -/
def Linked (registry : Registry) (ty : Ty) : List Ty → Prop
  | [] => True
  | latest :: earlier => (latest = ty ∨ ∃ a ∈ earlier, latest ∈ registry.supertypes a)
      ∧ registry.Linked ty earlier

theorem linked_visit {fuel : Nat} {seen pending : List Ty} (hseen : registry.Linked ty seen)
    (hpending : ∀ a ∈ pending, a = ty ∨ ∃ b ∈ seen, a ∈ registry.supertypes b) :
    registry.Linked ty (registry.visit fuel seen pending) := by
  induction fuel generalizing seen pending with
  | zero => exact hseen
  | succ fuel ih =>
    cases pending with
    | nil => exact hseen
    | cons first rest =>
      obtain ⟨hfirst, hrest⟩ := List.forall_mem_cons.mp hpending
      rw [visit]
      split
      · exact ih hseen hrest
      · refine ih ⟨hfirst, hseen⟩ fun a ha => ?_
        rcases List.mem_append.mp ha with ha | ha
        · exact .inr ⟨first, List.mem_cons_self, ha⟩
        · rcases hrest a ha with h | ⟨b, hb, h⟩
          · exact .inl h
          · exact .inr ⟨b, List.mem_cons_of_mem _ hb, h⟩

theorem Linked.suffix {later earlier : List Ty} (h : registry.Linked ty (later ++ earlier)) :
    registry.Linked ty earlier := by
  induction later with
  | nil => exact h
  | cons _ later ih => exact ih h.2

/-- What was seen before a type is enough to come to it. -/
theorem Linked.bypasses {seen : List Ty} (h : registry.Linked ty seen) {avoided : Ty}
    (havoided : avoided ∉ seen) : ∀ a ∈ seen, registry.Bypasses avoided ty a := by
  induction seen with
  | nil => exact fun a ha => (List.not_mem_nil ha).elim
  | cons latest earlier ih =>
    rw [List.mem_cons, not_or] at havoided
    have hearlier := ih h.2 havoided.2
    refine List.forall_mem_cons.mpr ⟨?_, hearlier⟩
    have hne : latest ≠ avoided := Ne.symm havoided.1
    rcases h.1 with rfl | ⟨b, hb, hsuper⟩
    · exact .self hne
    · exact (hearlier b hb).link hsuper hne

/-- A type that does not come before an ancestor in the search is left out on some path to it. -/
theorem bypasses_of_ancestors {before after : List Ty} {ancestor avoided : Ty}
    (h : registry.ancestors ty = before ++ ancestor :: after) (hne : avoided ≠ ancestor)
    (havoided : avoided ∉ before) : registry.Bypasses avoided ty ancestor := by
  have hlinked : registry.Linked ty (registry.visit registry.visitBound [] [ty]) :=
    linked_visit trivial fun a ha => .inl (List.mem_singleton.mp ha)
  have hvisit : registry.visit registry.visitBound [] [ty]
      = after.reverse ++ ancestor :: before.reverse := by
    unfold ancestors at h
    rw [← List.reverse_reverse (registry.visit _ _ _), h]
    simp
  rw [hvisit] at hlinked
  refine hlinked.suffix.bypasses ?_ ancestor List.mem_cons_self
  rw [List.mem_cons, List.mem_reverse, not_or]
  exact ⟨hne, havoided⟩

/-! ## One superclass -/

/-- The hierarchy has no cycle, what a type implements are interfaces, and interfaces have no
superclass but `Object`, which has none. -/
structure Regular (registry : Registry) : Prop where
  acyclic : ∀ one two, registry.Inherits one two → registry.Inherits two one → one = two
  interfaces : ∀ ty entry, registry.get? ty = some entry → ∀ super ∈ entry.interfaces,
    registry.isInterface super = true
  superclass : ∀ ty super, registry.isInterface ty = true → registry.superclass? ty = some super →
    super = .object
  object : registry.supertypes .object = []

/-- A class other than `Object`. -/
def IsProperClass (registry : Registry) (ty : Ty) : Prop :=
  registry.isInterface ty = false ∧ ty ≠ .object

theorem mem_supertypes {super : Ty} : super ∈ registry.supertypes ty
    ↔ ∃ entry, registry.get? ty = some entry
      ∧ (entry.superclass = some super ∨ super ∈ entry.interfaces) := by
  unfold supertypes TypeEntry.supertypes
  cases registry.get? ty with
  | none => simp
  | some entry => simp

/-- The entries show that a registry is regular: there are fewer ancestors behind every link. -/
theorem regular_of_entries
    (h : ∀ pair ∈ registry.entries.pairs,
      (∀ super ∈ pair.2.supertypes,
        (registry.ancestors super).length < (registry.ancestors pair.1).length)
      ∧ (∀ super ∈ pair.2.interfaces, registry.isInterface super = true)
      ∧ (registry.isInterface pair.1 = true → ∀ super ∈ pair.2.superclass, super = .object))
    (hobject : registry.supertypes .object = []) : registry.Regular := by
  have hrank : ∀ ty, ∀ super ∈ registry.supertypes ty,
      (registry.ancestors super).length < (registry.ancestors ty).length :=
    forall_supertypes registry _ fun pair hpair => (h pair hpair).1
  refine ⟨fun one two hone htwo => ?_, fun ty entry hentry super hsuper => ?_,
    fun ty super hinterface hsuper => ?_, hobject⟩
  · have hup := hone.eq_or_rank_lt hrank
    have hdown := htwo.eq_or_rank_lt hrank
    by_contra hne
    have hne' : two ≠ one := Ne.symm hne
    simp only [hne, hne', false_or] at hup hdown
    omega
  · exact (h (ty, entry) (Table.mem_of_get? hentry)).2.1 super hsuper
  · unfold superclass? at hsuper
    obtain ⟨entry, hentry, hextends⟩ := Option.bind_eq_some_iff.mp hsuper
    exact (h (ty, entry) (Table.mem_of_get? hentry)).2.2 hinterface super (by simp [hextends])

namespace Regular

/-- A class is inherited from by its subclasses alone, and as their superclass. -/
theorem superclass_of_link (h : registry.Regular) {super : Ty}
    (hsuper : super ∈ registry.supertypes ty) (hclass : registry.IsProperClass super) :
    registry.superclass? ty = some super ∧ registry.IsProperClass ty := by
  obtain ⟨entry, hentry, hlink | hlink⟩ := mem_supertypes.mp hsuper
  · have hextends : registry.superclass? ty = some super := by
      unfold superclass?
      rw [hentry]
      exact hlink
    refine ⟨hextends, ?_, ?_⟩
    · by_contra hinterface
      exact hclass.2 (h.superclass ty super (by simpa using hinterface) hextends)
    · rintro rfl
      rw [h.object] at hsuper
      exact List.not_mem_nil hsuper
  · have hinterface := h.interfaces ty entry hentry super hlink
    rw [hclass.1] at hinterface
    cases hinterface

theorem isProperClass_of_inherits (h : registry.Regular) {super : Ty}
    (hpath : registry.Inherits ty super) (hclass : registry.IsProperClass super) :
    registry.IsProperClass ty := by
  induction hpath with
  | self => exact hclass
  | link _ hsuper ih => exact ih (h.superclass_of_link hsuper hclass).2

/-- Classes lie on one chain, so none of them can be left out on the way to a class further up. -/
theorem not_bypasses (h : registry.Regular) {between ancestor : Ty}
    (hclass : registry.IsProperClass ancestor) (hbetween : registry.Inherits ty between) (hancestor : registry.Inherits between ancestor)
    (hne : between ≠ ancestor) : ¬registry.Bypasses between ty ancestor := by
  intro hpath
  have hclass' := h.isProperClass_of_inherits hancestor hclass
  -- what the path has come to still inherits from the type that it leaves out
  have hbelow : ∀ a, registry.Bypasses between ty a → registry.IsProperClass a →
      registry.Inherits a between := by
    intro a ha
    induction ha with
    | self => exact fun _ => hbetween
    | @link a super ha hsuper _ ih =>
      intro hproper
      obtain ⟨hextends, hproper'⟩ := h.superclass_of_link hsuper hproper
      obtain heq | ⟨first, hfirst, hrest⟩ := (ih hproper').head
      · exact absurd heq.symm ha.ne
      · have hproper'' := h.isProperClass_of_inherits hrest hclass'
        obtain ⟨hextends', -⟩ := h.superclass_of_link hfirst hproper''
        rw [hextends] at hextends'
        cases hextends'
        exact hrest
  exact hne (h.acyclic _ _ hancestor (hbelow ancestor hpath hclass))

end Regular

end ClassCompiler.Registry
