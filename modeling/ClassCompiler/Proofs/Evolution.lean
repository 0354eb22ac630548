import ClassCompiler.Proofs.Extension

/-!
# Registries changed at will

Apart from compilations, a registry has five operations: a class is registered, supertypes are
replaced, an alias is added, a class is imported, and an array type is made. They may come in any
order. All that descriptors, arrays and display names depend on is the internal name and the kind of
each entry, so one equation says what each operation does to these two.

* `Registry.Change`, `Registry.Evolves`: operations, and runs of them that obey a rule
* `Registry.shown?_change`: what one operation does
* `Registry.Written`: every entry is found under its own name
* `Registry.Written.eq_of_descriptor_eq`: a descriptor stands for one type
-/

namespace ClassCompiler

/-- The letter of a primitive starts no other text of a type, and ends no list of them. -/
theorem Prim.exists_letter (p : Prim) :
    ∃ c, p.letter.toList = [c] ∧ c ≠ 'L' ∧ c ≠ '[' ∧ c ≠ ')' := by
  cases p <;> exact ⟨_, rfl, by decide, by decide, by decide⟩

theorem Prim.letter_injective {p q : Prim} (h : p.letter = q.letter) : p = q := by
  cases p <;> cases q <;> first | rfl | exact absurd h (by decide)

namespace Registry

/-! ## What an entry shows -/

/-- The internal name and the kind of a type. -/
def shown? (registry : Registry) (ty : Ty) : Option (String × TypeKind) :=
  (registry.get? ty).map fun entry => (entry.internalName, entry.kind)

variable {registry s t u : Registry} {ty element : Ty} {name text : String} {kind : TypeKind}

theorem kind?_eq_shown (registry : Registry) (ty : Ty) :
    registry.kind? ty = (registry.shown? ty).map Prod.snd := by
  unfold kind? shown?
  rw [Option.map_map]
  rfl

theorem contains_eq_shown (registry : Registry) (ty : Ty) :
    registry.contains ty = (registry.shown? ty).isSome := by
  unfold contains shown?
  rw [Option.isSome_map]

theorem elementType?_eq_some_iff_shown :
    registry.elementType? ty = some element
      ↔ ∃ name, registry.shown? ty = some (name, .array element) := by
  rw [elementType?_eq_some_iff, kind?_eq_shown]
  simp

theorem descriptor_prim (registry : Registry) (p : Prim) :
    registry.descriptor (.prim p) = p.letter := by
  unfold descriptor
  rw [Ty.prim?_prim]

theorem descriptor_array (hprim : ty.prim? = none)
    (hshown : registry.shown? ty = some (name, .array element)) :
    registry.descriptor ty = name := by
  obtain ⟨⟨_, _, superclass, interfaces⟩, hentry, heq⟩ := Option.map_eq_some_iff.mp hshown
  cases heq
  unfold descriptor
  rw [hprim, hentry]

theorem descriptor_class (hprim : ty.prim? = none)
    (hshown : registry.shown? ty = some (name, kind))
    (hkind : kind = .plainClass ∨ kind = .interface) :
    registry.descriptor ty = "L" ++ name ++ ";" := by
  obtain ⟨⟨_, _, superclass, interfaces⟩, hentry, heq⟩ := Option.map_eq_some_iff.mp hshown
  cases heq
  unfold descriptor
  rw [hprim, hentry]
  rcases hkind with rfl | rfl <;> rfl

/-- The descriptor of what is not a primitive, a class or an array. -/
theorem descriptor_other (hprim : ty.prim? = none)
    (hshown : ∀ name kind, registry.shown? ty = some (name, kind) →
      kind = .primitive ∨ kind = .null ∨ kind = .any) :
    registry.descriptor ty = "Ljava/lang/Object;" := by
  unfold descriptor
  rw [hprim]
  cases hentry : registry.get? ty with
  | none => rfl
  | some entry =>
    obtain ⟨name, kind, superclass, interfaces⟩ := entry
    have hkind := hshown name kind (by
      unfold shown?
      rw [hentry]
      rfl)
    rcases hkind with rfl | rfl | rfl <;> rfl

theorem descriptor_congr_shown (h : t.shown? ty = s.shown? ty) :
    t.descriptor ty = s.descriptor ty := by
  cases hprim : ty.prim? with
  | some p =>
    rw [Ty.prim?_eq_some_iff.mp hprim, descriptor_prim, descriptor_prim]
  | none =>
    cases hs : s.shown? ty with
    | none =>
      rw [hs] at h
      rw [descriptor_other hprim (by simp [h]), descriptor_other hprim (by simp [hs])]
    | some pair =>
      obtain ⟨name, kind⟩ := pair
      rw [hs] at h
      cases kind with
      | array element => rw [descriptor_array hprim h, descriptor_array hprim hs]
      | plainClass => rw [descriptor_class hprim h (by simp), descriptor_class hprim hs (by simp)]
      | interface => rw [descriptor_class hprim h (by simp), descriptor_class hprim hs (by simp)]
      | primitive | null | any =>
        rw [descriptor_other hprim (by simp [h]), descriptor_other hprim (by simp [hs])]

/-! ## Operations -/

/-- An operation on a registry. -/
inductive Change
  | register (entry : TypeEntry)
  | setSupertypes (ty : Ty) (superclass : Option Ty) (interfaces : List Ty)
  | addAlias (name : String) (ty : Ty)
  | importClass (name : String)
  | arrayOf (element : Ty)

/-- The registry after an operation. -/
def change (registry : Registry) : Change → Registry
  | .register entry => registry.register entry
  | .setSupertypes ty superclass interfaces => registry.setSupertypes ty superclass interfaces
  | .addAlias name ty => registry.addAlias name ty
  | .importClass name => ((registry.importClass? name).map Prod.snd).getD registry
  | .arrayOf element => (registry.arrayOf element).2

/-- The second registry comes from the first one by operations, each of which obeys a rule in the
registry that it meets. -/
inductive Evolves (rule : Registry → Change → Prop) (s : Registry) : Registry → Prop
  | refl : Evolves rule s s
  | step {t : Registry} (h : Evolves rule s t) (change : Change) (hrule : rule t change) :
    Evolves rule s (t.change change)

/-- What each operation keeps holds after all of them. -/
theorem Evolves.preserves {rule : Registry → Change → Prop} {P : Registry → Prop}
    (h : Evolves rule s t) (hs : P s)
    (hchange : ∀ registry change, P registry → rule registry change → P (registry.change change)) :
    P t := by
  induction h with
  | refl => exact hs
  | step _ change hrule ih => exact hchange _ change ih hrule

theorem entries_importClass (registry : Registry) (name : String) :
    (registry.change (.importClass name)).entries = registry.entries := by
  unfold change importClass?
  dsimp only
  cases registry.lookupQualified? name <;> rfl

/-- What each operation does to names and kinds: a class takes its place, an array is entered if it
is new, and nothing else changes them. -/
theorem shown?_change (s : Registry) (ty : Ty) (change : Change) :
    (s.change change).shown? ty = match change with
      | .register entry =>
        if ty = Ty.named entry.internalName then some (entry.internalName, entry.kind)
        else s.shown? ty
      | .arrayOf element =>
        if ty = (s.arrayOf element).1 ∧ s.contains ty = false then
          some ("[" ++ s.descriptor element, .array element)
        else s.shown? ty
      | _ => s.shown? ty := by
  cases change with
  | register entry =>
    dsimp only
    unfold Registry.change shown?
    dsimp only
    rw [get?_register]
    split <;> rfl
  | setSupertypes target superclass interfaces =>
    dsimp only
    unfold Registry.change shown?
    dsimp only
    rw [get?_setSupertypes]
    split
    · rw [Option.map_map]
      rfl
    · rfl
  | addAlias name target => rfl
  | importClass name =>
    dsimp only
    unfold shown? get?
    rw [entries_importClass]
  | arrayOf element =>
    dsimp only
    unfold Registry.change
    dsimp only
    obtain hsame | ⟨hfresh, -, hget⟩ := s.arrayOf_cases element
    · have hknown := contains_arrayOf s element
      rw [hsame] at hknown ⊢
      rw [if_neg]
      rintro ⟨rfl, hnone⟩
      rw [hknown] at hnone
      cases hnone
    · unfold shown?
      rw [hget]
      by_cases hty : ty = (s.arrayOf element).1
      · rw [if_pos hty, if_pos ⟨hty, hty ▸ hfresh⟩]
        rfl
      · rw [if_neg hty, if_neg fun hboth => hty hboth.1]

/-- What an entry shows after an operation, it showed before, or it is the class or the array of the
operation. -/
theorem shown?_change_cases {change : Change}
    (h : (s.change change).shown? ty = some (name, kind)) :
    s.shown? ty = some (name, kind)
      ∨ (∃ entry, change = .register entry ∧ ty = Ty.named name ∧ name = entry.internalName
        ∧ kind = entry.kind)
      ∨ ∃ element, change = .arrayOf element ∧ ty = Ty.named name
        ∧ name = "[" ++ s.descriptor element ∧ kind = .array element := by
  rw [shown?_change] at h
  cases change with
  | register entry =>
    dsimp only at h
    split at h
    · next hty =>
      cases h
      exact .inr (.inl ⟨entry, rfl, hty, rfl, rfl⟩)
    · exact .inl h
  | arrayOf element =>
    dsimp only at h
    split at h
    · next hfresh =>
      cases h
      exact .inr (.inr ⟨element, rfl, hfresh.1.trans (arrayOf_fst s element), rfl, rfl⟩)
    · exact .inl h
  | setSupertypes _ _ _ | addAlias _ _ | importClass _ => exact .inl h

/-! ## Entries under their own names -/

/-- Every entry is found under its own name, and the only primitives are those that were built in.
The name of an array starts with a bracket. -/
structure Written (registry : Registry) : Prop where
  own : ∀ ty name kind, registry.shown? ty = some (name, kind) → ty = Ty.named name
  prim : ∀ ty name, registry.shown? ty = some (name, .primitive) → ∃ p, ty = .prim p
  array : ∀ ty name element, registry.shown? ty = some (name, .array element) →
    ∃ text, name = "[" ++ text

/-- What is registered is a class or an interface. -/
def Change.IsOrdinary : Change → Prop
  | .register entry => entry.kind = .plainClass ∨ entry.kind = .interface
  | _ => True

theorem written_builtin : builtin.Written := by
  have hown : ∀ pair ∈ builtin.entries.pairs, pair.1 = Ty.named pair.2.internalName
      ∧ pair.2.kind ∈ [.primitive, .null, .any, .plainClass]
      ∧ (pair.2.kind = .primitive → pair.1.prim?.isSome = true) := by decide +kernel
  have hshown : ∀ ty name kind, builtin.shown? ty = some (name, kind) → ty = Ty.named name
      ∧ kind ∈ [.primitive, .null, .any, .plainClass]
      ∧ (kind = .primitive → ty.prim?.isSome = true) := by
    intro ty name kind h
    obtain ⟨entry, hentry, heq⟩ := Option.map_eq_some_iff.mp h
    cases heq
    exact hown _ (Table.mem_of_get? hentry)
  refine ⟨fun ty name kind h => (hshown ty name kind h).1, fun ty name h => ?_,
    fun ty name element h => ?_⟩
  · obtain ⟨p, hp⟩ := Option.isSome_iff_exists.mp ((hshown ty name _ h).2.2 rfl)
    exact ⟨p, Ty.prim?_eq_some_iff.mp hp⟩
  · have hkind := (hshown ty name _ h).2.1
    simp at hkind

theorem Change.IsOrdinary.not_special {entry : TypeEntry} (h : (Change.register entry).IsOrdinary) :
    entry.kind ≠ .primitive ∧ entry.kind ≠ .null ∧ entry.kind ≠ .any
      ∧ ∀ element, entry.kind ≠ .array element := by
  rcases h with hkind | hkind <;> simp [hkind]

theorem Written.change (h : s.Written) {change : Change} (hordinary : change.IsOrdinary) :
    (s.change change).Written := by
  refine ⟨fun ty name kind hty => ?_, fun ty name hty => ?_, fun ty name element hty => ?_⟩
  · obtain hold | ⟨_, -, hown, -⟩ | ⟨_, -, hown, -⟩ := shown?_change_cases hty
    · exact h.own ty name kind hold
    · exact hown
    · exact hown
  · obtain hold | ⟨_, rfl, -, -, hkind⟩ | ⟨_, -, -, -, hkind⟩ := shown?_change_cases hty
    · exact h.prim ty name hold
    · exact absurd hkind.symm hordinary.not_special.1
    · cases hkind
  · obtain hold | ⟨_, rfl, -, -, hkind⟩ | ⟨_, -, -, hname, -⟩ := shown?_change_cases hty
    · exact h.array ty name element hold
    · exact absurd hkind.symm (hordinary.not_special.2.2.2 element)
    · exact ⟨_, hname⟩

/-! ## Descriptors -/

/-- The type is registered, as a primitive, a class, an interface or an array. -/
def Denotes (registry : Registry) (ty : Ty) : Prop :=
  ∃ name kind, registry.shown? ty = some (name, kind) ∧ kind ≠ .null ∧ kind ≠ .any

/-- How the descriptor of a type is made from its name. -/
inductive Writes : Ty → String → Prop
  | prim (p : Prim) : Writes (Ty.prim p) p.letter
  | object (name : String) : Writes (Ty.named name) ("L" ++ name ++ ";")
  | array (text : String) : Writes (Ty.named ("[" ++ text)) ("[" ++ text)

/-- The first character of a descriptor tells how it was made, and the rest gives the name. -/
theorem Writes.eq {one two : Ty} {text : String} (h : Writes one text) (h' : Writes two text) :
    one = two := by
  have hobject : ∀ name : String, ("L" ++ name ++ ";").toList = 'L' :: (name.toList ++ [';']) := by
    intro name
    simp
  have harray : ∀ rest : String, ("[" ++ rest).toList = '[' :: rest.toList := by
    intro rest
    simp
  generalize hsame : text = other at h'
  have hlists := congrArg String.toList hsame
  cases h with
  | prim p =>
    obtain ⟨c, hc, hcL, hcArray, -⟩ := p.exists_letter
    rw [hc] at hlists
    cases h' with
    | prim q => rw [Prim.letter_injective hsame]
    | object name =>
      rw [hobject] at hlists
      exact absurd (List.cons.inj hlists).1 hcL
    | array rest =>
      rw [harray] at hlists
      exact absurd (List.cons.inj hlists).1 hcArray
  | object name =>
    rw [hobject] at hlists
    cases h' with
    | prim q =>
      obtain ⟨c, hc, hcL, -, -⟩ := q.exists_letter
      rw [hc] at hlists
      exact absurd (List.cons.inj hlists).1.symm hcL
    | object name' =>
      rw [hobject] at hlists
      have hname := List.append_cancel_right (List.cons.inj hlists).2
      rw [String.toList_inj.mp hname]
    | array rest =>
      rw [harray] at hlists
      exact absurd (List.cons.inj hlists).1 (by decide)
  | array rest =>
    rw [harray] at hlists
    cases h' with
    | prim q =>
      obtain ⟨c, hc, -, hcArray, -⟩ := q.exists_letter
      rw [hc] at hlists
      exact absurd (List.cons.inj hlists).1.symm hcArray
    | object name =>
      rw [hobject] at hlists
      exact absurd (List.cons.inj hlists).1 (by decide)
    | array rest' => rw [hsame]

theorem Written.writes (h : s.Written) (hty : s.Denotes ty) : Writes ty (s.descriptor ty) := by
  obtain ⟨name, kind, hshown, hnull, hany⟩ := hty
  cases hprim : ty.prim? with
  | some p =>
    rw [Ty.prim?_eq_some_iff.mp hprim, descriptor_prim]
    exact .prim p
  | none =>
    have hown := h.own ty name kind hshown
    cases kind with
    | primitive =>
      obtain ⟨p, rfl⟩ := h.prim ty name hshown
      rw [Ty.prim?_prim] at hprim
      cases hprim
    | null => exact absurd rfl hnull
    | any => exact absurd rfl hany
    | plainClass =>
      rw [descriptor_class hprim hshown (.inl rfl), hown]
      exact .object name
    | interface =>
      rw [descriptor_class hprim hshown (.inr rfl), hown]
      exact .object name
    | array element =>
      obtain ⟨text, rfl⟩ := h.array ty name element hshown
      rw [descriptor_array hprim hshown, hown]
      exact .array text

/-- Two types with one descriptor are one type. -/
theorem Written.eq_of_descriptor_eq (h : s.Written) {one two : Ty} (hone : s.Denotes one)
    (htwo : s.Denotes two) (heq : s.descriptor one = s.descriptor two) : one = two := by
  have hwrites := h.writes hone
  rw [heq] at hwrites
  exact hwrites.eq (h.writes htwo)

end Registry

end ClassCompiler
