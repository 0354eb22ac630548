import ClassCompiler.Proofs.Unit.Stubs

/-!
# Names of a unit

What is asked of the names of a unit, so that types can be told apart by their handles: classes have
ordinary names, and the names that play a part in a compilation have different hashes. Then imports
and declarations keep a registry sound, and every declared class is known under its own name.

* `CompilationUnit.NamesApart`
* `importClasses_sound`, `declareClasses_sound`, `declareClasses_declared`
-/

namespace ClassCompiler

open Check

/-! ## Handles of names -/

/-- The names of the types that no class may replace. -/
def reservedNames : List String := Prim.all.map Prim.keyword ++ ["<null>", "<any>"]

/-- Names with different handles. -/
def HandlesApart (names : List String) : Prop :=
  ∀ one ∈ names, ∀ two ∈ names, Ty.named one = Ty.named two → one = two

instance (names : List String) : Decidable (HandlesApart names) :=
  inferInstanceAs
    (Decidable (∀ one ∈ names, ∀ two ∈ names, Ty.named one = Ty.named two → one = two))

theorem HandlesApart.isReserved {names : List String} (h : HandlesApart names)
    (hreserved : reservedNames ⊆ names) {name : String} (hname : name ∈ names)
    (hordinary : name ∉ reservedNames) : (Ty.named name).isReserved = false := by
  have hne : ∀ other ∈ reservedNames, Ty.named name ≠ Ty.named other := by
    intro other hother heq
    exact hordinary (h name hname other (hreserved hother) heq ▸ hother)
  unfold Ty.isReserved
  simp only [Bool.or_eq_false_iff, beq_eq_false_iff_ne]
  refine ⟨⟨?_, hne "<any>" (by decide)⟩, hne "<null>" (by decide)⟩
  rw [Ty.isPrimitive_eq_false_iff, Option.eq_none_iff_forall_ne_some]
  intro p hp
  refine hne p.keyword ?_ ?_
  · cases p <;> decide
  · rw [← Ty.prim_eq_named]
    exact Ty.prim?_eq_some_iff.mp hp

/-- The names of the arrays over the types of a registry. -/
def Registry.arrayNames (registry : Registry) : List String :=
  registry.entries.pairs.map fun pair => "[" ++ registry.descriptor pair.1

theorem HandlesApart.arrays {names : List String} (h : HandlesApart names)
    (hreserved : reservedNames ⊆ names) {registry : Registry}
    (harrays : registry.arrayNames ⊆ names) : registry.Apart := by
  intro ty hcontains
  obtain ⟨entry, hentry⟩ := Option.isSome_iff_exists.mp hcontains
  have hmem : "[" ++ registry.descriptor ty ∈ registry.arrayNames :=
    List.mem_map.mpr ⟨(ty, entry), Table.mem_of_get? hentry, rfl⟩
  refine h.isReserved hreserved (harrays hmem) fun hbad => ?_
  have hhead : ("[" ++ registry.descriptor ty).toList.head? = some '[' := by
    rw [String.toList_append]
    rfl
  have hnone : ∀ name ∈ reservedNames, name.toList.head? ≠ some '[' := by decide
  exact hnone _ hbad hhead

/-! ## Units -/

namespace CompilationUnit

/-- The internal names of the classes that a unit declares. -/
def declaredNames (unit : CompilationUnit) : List String :=
  unit.types.map (ClassDecl.internalName unit.package)

/-- The qualified names that its imports and its type names may stand for. -/
def mentionedNames (unit : CompilationUnit) : List String :=
  (unit.imports ++ unit.typeNames.map TypeName.name).map Registry.internalForm

/-- Ordinary names without collisions, in a compilation that ends with the registry. -/
structure NamesApart (unit : CompilationUnit) (last : Registry) : Prop where
  declared : ∀ name ∈ unit.declaredNames, name ∉ reservedNames ∧ ';' ∉ name.toList
  mentioned : "<any>" ∉ unit.mentionedNames
  apart : HandlesApart
    (reservedNames ++ unit.declaredNames ++ unit.mentionedNames ++ last.arrayNames)

namespace NamesApart

variable {unit : CompilationUnit} {last : Registry}

theorem arrays (h : unit.NamesApart last) : last.Apart :=
  h.apart.arrays (fun _ hn => by simp [hn]) (fun _ hn => by simp [hn])

theorem isReserved (h : unit.NamesApart last) {decl : ClassDecl} (hdecl : decl ∈ unit.types) :
    (Ty.named (decl.internalName unit.package)).isReserved = false := by
  have hmem : decl.internalName unit.package ∈ unit.declaredNames := List.mem_map_of_mem hdecl
  exact h.apart.isReserved (fun _ hn => by simp [hn]) (by simp [hmem]) (h.declared _ hmem).1

theorem distinct (h : unit.NamesApart last) {one two : ClassDecl} (hone : one ∈ unit.types)
    (htwo : two ∈ unit.types)
    (heq : Ty.named (one.internalName unit.package) = Ty.named (two.internalName unit.package)) :
    one.internalName unit.package = two.internalName unit.package := by
  have hmem : ∀ decl ∈ unit.types, decl.internalName unit.package ∈ unit.declaredNames :=
    fun decl hdecl => List.mem_map_of_mem hdecl
  exact h.apart _ (by simp [hmem one hone]) _ (by simp [hmem two htwo]) heq

theorem ne_any (h : unit.NamesApart last) {name : String} (hname : name ∈ unit.mentionedNames) :
    Ty.named name ≠ .any := by
  intro heq
  have hany : "<any>" ∈ reservedNames := by decide
  have := h.apart name (by simp [hname]) "<any>" (by simp [hany]) heq
  exact h.mentioned (this ▸ hname)

theorem ordinary (h : unit.NamesApart last) {name : TypeName} (hname : name ∈ unit.typeNames) :
    name.Ordinary :=
  h.ne_any (List.mem_map_of_mem (List.mem_append_right _ (List.mem_map_of_mem hname)))

theorem imported (h : unit.NamesApart last) {name : String} (hname : name ∈ unit.imports) :
    Ty.named (Registry.internalForm name) ≠ .any :=
  h.ne_any (List.mem_map_of_mem (List.mem_append_left _ hname))

end NamesApart

end CompilationUnit

/-! ## Imports -/

theorem importClasses_sound {names : List String} {registry : Registry} (h : registry.Sound)
    (hnames : ∀ name ∈ names, Ty.named (Registry.internalForm name) ≠ .any) :
    ((importClasses names).run registry).state.Sound := by
  induction names generalizing registry with
  | nil => exact h
  | cons first rest ih =>
    refine ih ?_ fun name hname => hnames name (List.mem_cons_of_mem _ hname)
    unfold Check.run
    dsimp only
    split
    · next hfound =>
      obtain ⟨ty, hlookup, heq⟩ := Option.map_eq_some_iff.mp hfound
      cases heq
      obtain ⟨rfl, hcontains⟩ := Registry.lookupQualified?_eq_some_iff.mp hlookup
      exact h.addAlias (hnames first List.mem_cons_self) hcontains
    · exact h

/-! ## Declarations -/

/-- The name has an entry, and it is the entry's own. -/
def Registry.Holds (registry : Registry) (name : String) : Prop :=
  ∃ entry, registry.get? (Ty.named name) = some entry ∧ entry.internalName = name

variable {package : Option String} {registry : Registry}

theorem ClassDecl.get?_declare (decl : ClassDecl) (ty : Ty) :
    ((decl.declare package).run registry).state.get? ty
      = if ty = Ty.named (decl.internalName package) then
          some { internalName := decl.internalName package
                 kind := if decl.isInterface then TypeKind.interface else .plainClass
                 superclass := some Ty.object }
        else registry.get? ty :=
  Table.get?_insert registry.entries _ _ _

theorem ClassDecl.holds_declare (decl : ClassDecl) (package : Option String)
    (registry : Registry) :
    ((decl.declare package).run registry).state.Holds (decl.internalName package) := by
  unfold Registry.Holds
  rw [get?_declare, if_pos rfl]
  exact ⟨_, rfl, rfl⟩

theorem ClassDecl.declare_keeps (decl : ClassDecl) {name : String} (h : registry.Holds name)
    (hname : Ty.named name = Ty.named (decl.internalName package)
      → name = decl.internalName package) :
    ((decl.declare package).run registry).state.Holds name := by
  obtain ⟨entry, hentry, hown⟩ := h
  unfold Registry.Holds
  rw [get?_declare]
  split
  · next heq => exact ⟨_, rfl, (hname heq).symm⟩
  · exact ⟨entry, hentry, hown⟩

theorem ClassDecl.declare_sound (decl : ClassDecl) (h : registry.Sound)
    (hreserved : (Ty.named (decl.internalName package)).isReserved = false)
    (hsemicolon : ';' ∉ (decl.internalName package).toList) :
    ((decl.declare package).run registry).state.Sound := by
  obtain ⟨entry, hentry, -⟩ := decl.holds_declare package registry
  have hsound : (registry.register
      { internalName := decl.internalName package
        kind := if decl.isInterface then TypeKind.interface else .plainClass
        superclass := some Ty.object }).Sound := by
    refine h.register hreserved ?_
    unfold Registry.EntrySound
    cases decl.isInterface <;> exact hsemicolon
  exact hsound.addAlias (Ty.ne_any_of_isReference (Ty.isReference_of_not_isReserved hreserved))
    (Option.isSome_iff_exists.mpr ⟨entry, hentry⟩)

theorem run_declareClasses_cons (seen : List String) (first : ClassDecl) (rest : List ClassDecl) :
    ((declareClasses package seen (first :: rest)).run registry).state
      = ((declareClasses package (first.name :: seen) rest).run
          ((first.declare package).run registry).state).state := rfl

/-- The classes afterwards are the same classes with their handles. -/
theorem value_declareClasses (seen : List String) (decls : List ClassDecl) :
    ((declareClasses package seen decls).run registry).value
      = decls.map fun decl => { decl with ty := some (Ty.named (decl.internalName package)) } := by
  induction decls generalizing seen registry with
  | nil => rfl
  | cons first rest ih => exact congrArg (_ :: ·) (ih (first.name :: seen))

theorem declareClasses_sound {seen : List String} {decls : List ClassDecl} (h : registry.Sound)
    (hnames : ∀ decl ∈ decls, (Ty.named (decl.internalName package)).isReserved = false
      ∧ ';' ∉ (decl.internalName package).toList) :
    ((declareClasses package seen decls).run registry).state.Sound := by
  induction decls generalizing seen registry with
  | nil => exact h
  | cons first rest ih =>
    obtain ⟨hreserved, hsemicolon⟩ := hnames first List.mem_cons_self
    rw [run_declareClasses_cons]
    exact ih (first.declare_sound h hreserved hsemicolon)
      fun decl hdecl => hnames decl (List.mem_cons_of_mem _ hdecl)

theorem declareClasses_keeps {seen : List String} {decls : List ClassDecl} {name : String}
    (h : registry.Holds name) (hname : ∀ decl ∈ decls,
      Ty.named name = Ty.named (decl.internalName package) → name = decl.internalName package) :
    ((declareClasses package seen decls).run registry).state.Holds name := by
  induction decls generalizing seen registry with
  | nil => exact h
  | cons first rest ih =>
    rw [run_declareClasses_cons]
    exact ih (first.declare_keeps h (hname first List.mem_cons_self))
      fun decl hdecl => hname decl (List.mem_cons_of_mem _ hdecl)

theorem declareClasses_holds {seen : List String} {decls : List ClassDecl}
    (hdistinct : ∀ one ∈ decls, ∀ two ∈ decls,
      Ty.named (one.internalName package) = Ty.named (two.internalName package) →
      one.internalName package = two.internalName package) :
    ∀ decl ∈ decls, ((declareClasses package seen decls).run registry).state.Holds
      (decl.internalName package) := by
  induction decls generalizing seen registry with
  | nil => exact fun _ h => (List.not_mem_nil h).elim
  | cons first rest ih =>
    intro decl hdecl
    rw [run_declareClasses_cons]
    rcases List.mem_cons.mp hdecl with rfl | hdecl
    · exact declareClasses_keeps (decl.holds_declare package registry) fun other hother =>
        hdistinct decl List.mem_cons_self other (List.mem_cons_of_mem _ hother)
    · exact ih (fun one hone two htwo => hdistinct one (List.mem_cons_of_mem _ hone) two
        (List.mem_cons_of_mem _ htwo)) decl hdecl

theorem Registry.Holds.declared {decl : ClassDecl}
    (h : registry.Holds (decl.internalName package))
    (hreserved : (Ty.named (decl.internalName package)).isReserved = false) :
    ClassDecl.Declared package registry
      { decl with ty := some (Ty.named (decl.internalName package)) } := by
  obtain ⟨entry, hentry, hname⟩ := h
  refine ⟨rfl, Ty.isReference_of_not_isReserved hreserved,
    Option.isSome_iff_exists.mpr ⟨entry, hentry⟩, ?_⟩
  show registry.internalName (Ty.named (decl.internalName package)) = decl.internalName package
  unfold Registry.internalName
  rw [hentry]
  exact hname

end ClassCompiler
