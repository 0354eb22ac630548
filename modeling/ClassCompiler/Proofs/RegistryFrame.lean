import ClassCompiler.Proofs.Recompilation

/-!
# What a compilation leaves alone

A compilation registers the classes of its unit, gives them supertypes, and makes them and the
imported classes known by their simple names. Beyond that it may enter array types, wherever a name
is resolved: in the clauses of a class, in a field, in a signature or in a body. Whatever the unit
looks like and whatever is wrong with it, all other entries and aliases stay as they were. Names
need not be apart for that.

* `Registry.Spares`: a registry that differs in some types and aliases, and in new arrays
* `ClassDecl.spares_stub`: one class, with its supertypes and members
* `Compiler.compile_spares`: a whole compilation, and the passes after the stubs
-/

namespace ClassCompiler

open Check

/-! ## Registries that differ in a few places -/

namespace Registry

/-- The second registry is the first one, but for some types, some aliases, and arrays that were
entered since. -/
structure Spares (types : List Ty) (names : List String) (s t : Registry) : Prop where
  aliases : ∀ name ∉ names, t.aliases.get? name = s.aliases.get? name
  entries : ∀ ty ∉ types, ∀ entry, s.get? ty = some entry → t.get? ty = some entry
  contains : ∀ ty, s.contains ty = true → t.contains ty = true
  arrays : ∀ ty ∉ types, s.contains ty = false → ∀ entry, t.get? ty = some entry →
    ∃ element, entry.kind = .array element ∧ t.contains element = true

variable {types more : List Ty} {names others : List String} {s t u : Registry}

theorem get?_ne_some {ty : Ty} (hfresh : s.contains ty = false) (entry : TypeEntry) :
    s.get? ty ≠ some entry := by
  intro hentry
  rw [contains_iff.mpr ⟨entry, hentry⟩] at hfresh
  cases hfresh

namespace Spares

theorem refl (s : Registry) : s.Spares types names s :=
  ⟨fun _ _ => rfl, fun _ _ _ h => h, fun _ h => h,
    fun _ _ hfresh entry hentry => absurd hentry (get?_ne_some hfresh entry)⟩

theorem mono (h : s.Spares types names t) (htypes : types ⊆ more) (hnames : names ⊆ others) :
    s.Spares more others t :=
  ⟨fun name hname => h.aliases name fun hmem => hname (hnames hmem),
    fun ty hty => h.entries ty fun hmem => hty (htypes hmem), h.contains,
    fun ty hty => h.arrays ty fun hmem => hty (htypes hmem)⟩

/-- An array of the middle registry is there in the last one, and so is its element. -/
theorem trans (h : s.Spares types names t) (h' : t.Spares types names u) :
    s.Spares types names u := by
  refine ⟨fun name hname => (h'.aliases name hname).trans (h.aliases name hname),
    fun ty hty entry hentry => h'.entries ty hty entry (h.entries ty hty entry hentry),
    fun ty hty => h'.contains ty (h.contains ty hty), fun ty hty hfresh entry hentry => ?_⟩
  by_cases hmiddle : t.contains ty = true
  · obtain ⟨middle, hget⟩ := contains_iff.mp hmiddle
    cases (h'.entries ty hty middle hget).symm.trans hentry
    obtain ⟨element, hkind, helement⟩ := h.arrays ty hty hfresh entry hget
    exact ⟨element, hkind, h'.contains element helement⟩
  · exact h'.arrays ty hty (Bool.not_eq_true _ ▸ hmiddle) entry hentry

end Spares

/-! ## Changes -/

theorem spares_addAlias (s : Registry) (name : String) (ty : Ty) :
    s.Spares [] [name] (s.addAlias name ty) := by
  refine ⟨fun other hother => ?_, fun _ _ _ hentry => hentry, fun _ hknown => hknown,
    fun _ _ hfresh entry hentry => absurd hentry (get?_ne_some hfresh entry)⟩
  exact Table.get?_insert_of_ne s.aliases ty fun heq => hother (List.mem_singleton.mpr heq)

theorem spares_register (s : Registry) (entry : TypeEntry) :
    s.Spares [Ty.named entry.internalName] [] (s.register entry) := by
  have hget : ∀ ty ∉ [Ty.named entry.internalName], (s.register entry).get? ty = s.get? ty := by
    intro ty hty
    rw [get?_register, if_neg fun heq => hty (List.mem_singleton.mpr heq)]
  refine ⟨fun _ _ => rfl, fun ty hty found hfound => ?_,
    fun ty hty => contains_register s entry hty, fun ty hty hfresh found hfound => ?_⟩
  · rw [hget ty hty]
    exact hfound
  · rw [hget ty hty] at hfound
    exact absurd hfound (get?_ne_some hfresh found)

theorem spares_setSupertypes (s : Registry) (ty : Ty) (superclass : Option Ty)
    (interfaces : List Ty) : s.Spares [ty] [] (s.setSupertypes ty superclass interfaces) := by
  have hget : ∀ other ∉ [ty],
      (s.setSupertypes ty superclass interfaces).get? other = s.get? other := by
    intro other hother
    rw [get?_setSupertypes, if_neg fun heq => hother (List.mem_singleton.mpr heq)]
  refine ⟨fun _ _ => rfl, fun other hother entry hentry => ?_,
    fun other => contains_setSupertypes, fun other hother hfresh entry hentry => ?_⟩
  · rw [hget other hother]
    exact hentry
  · rw [hget other hother] at hentry
    exact absurd hentry (get?_ne_some hfresh entry)

theorem spares_arrayOf {element : Ty} (hc : s.contains element = true) :
    s.Spares [] [] (s.arrayOf element).2 := by
  have hpart := partOf_arrayOf s element
  refine ⟨fun name _ => hpart.aliases name, fun ty _ => hpart.entries ty,
    fun _ => hpart.contains, fun ty _ hfresh entry hentry => ?_⟩
  obtain hsame | ⟨-, -, hget⟩ := s.arrayOf_cases element
  · rw [hsame] at hentry
    exact absurd hentry (get?_ne_some hfresh entry)
  · rw [hget] at hentry
    split at hentry
    · cases hentry
      exact ⟨element, rfl, hpart.contains hc⟩
    · exact absurd hentry (get?_ne_some hfresh entry)

theorem spares_arrayOfDims {base : Ty} (hc : s.contains base = true) (dims : Nat) :
    s.Spares [] [] (s.arrayOfDims base dims).2 := by
  induction dims with
  | zero => exact .refl s
  | succ dims ih => exact ih.trans (spares_arrayOf (contains_arrayOfDims hc dims))

/-- From a closed registry to a closed one, with no more than new arrays in it. -/
def Learns (s e : Registry) : Prop := s.Closed → e.Closed ∧ s.Spares [] [] e

instance : Resolving Learns where
  refl s h := ⟨h, .refl s⟩
  trans _ _ _ h h' hclosed := ⟨(h' (h hclosed).1).1, (h hclosed).2.trans (h' (h hclosed).1).2⟩
  resolve {registry later name ty} hresolve h := by
    obtain ⟨base, hbase, -, harray⟩ := resolve_eq_ok_iff.mp hresolve
    have hdims := spares_arrayOfDims (h.lookup? hbase) name.dims
    rw [harray] at hdims
    exact ⟨(h.resolve hresolve).1, hdims⟩

end Registry

/-! ## Stubs -/

variable {registry : Registry}

/-- The imports of a unit that name a registered class. -/
def Registry.resolvable (registry : Registry) (imports : List String) : List String :=
  imports.filter fun name => (registry.lookupQualified? name).isSome

theorem run_importClasses_cons (registry : Registry) (first : String) (rest : List String) :
    ((importClasses (first :: rest)).run registry).state
      = ((importClasses rest).run ((registry.lookupQualified? first).elim registry
          (registry.addAlias (Registry.simpleName first)))).state := by
  refine congrArg (fun later => ((importClasses rest).run later).state) ?_
  unfold Check.run Registry.importClass?
  dsimp only
  cases registry.lookupQualified? first <;> rfl

theorem spares_importClasses (registry : Registry) (imports : List String) :
    registry.Spares [] ((registry.resolvable imports).map Registry.simpleName)
      ((importClasses imports).run registry).state := by
  induction imports generalizing registry with
  | nil => exact .refl registry
  | cons first rest ih =>
    rw [run_importClasses_cons]
    unfold Registry.resolvable
    cases hfound : registry.lookupQualified? first with
    | none =>
      rw [List.filter_cons_of_neg (by simp [hfound])]
      exact ih registry
    | some ty =>
      rw [List.filter_cons_of_pos (by simp [hfound])]
      have hfirst := registry.spares_addAlias (Registry.simpleName first) ty
      -- an alias changes nothing about qualified names
      have hrest := ih (registry.addAlias (Registry.simpleName first) ty)
      exact (hfirst.mono (List.Subset.refl _) (by simp)).trans
        (hrest.mono (List.Subset.refl _) (List.subset_cons_self _ _))

theorem spares_declareClasses (package : Option String) (seen : List String)
    (decls : List ClassDecl) (registry : Registry) :
    registry.Spares (decls.map (ClassDecl.handle package)) (decls.map ClassDecl.name)
      ((declareClasses package seen decls).run registry).state := by
  induction decls generalizing seen registry with
  | nil => exact .refl registry
  | cons first rest ih =>
    rw [run_declareClasses_cons]
    have hregister := registry.spares_register (first.entry package)
    have halias := (registry.register (first.entry package)).spares_addAlias first.name
      (first.handle package)
    have hfirst : registry.Spares [first.handle package] [first.name]
        ((first.declare package).run registry).state :=
      (hregister.mono (List.Subset.refl _) (by simp)).trans
        (halias.mono (by simp) (List.Subset.refl _))
    exact (hfirst.mono (by simp) (by simp)).trans
      ((ih (first.name :: seen) _).mono (List.subset_cons_self _ _) (List.subset_cons_self _ _))

/-- A class is stubbed: it alone gets supertypes. -/
theorem ClassDecl.spares_stub (h : registry.Closed) (options : Options) (ty : Ty)
    (decl : ClassDecl) :
    registry.Spares [ty] [] ((decl.stub options ty).run registry).state := by
  have hsupertypes : decl.resolveSupertypes.Keeps (Along Registry.Learns) :=
    decl.resolveSupertypes_along
  have hmembers : (stubMembers options decl.members).Keeps (Along Registry.Learns) :=
    stubMembers_along options decl.members
  obtain ⟨-, hfound⟩ := hsupertypes registry h
  have hset := (decl.resolveSupertypes.run registry).state.spares_setSupertypes ty
    (some (decl.resolveSupertypes.run registry).value.1)
    (decl.resolveSupertypes.run registry).value.2
  obtain ⟨-, hdone⟩ := hmembers (decl.stubOutline ty registry) (h.setFoundSupertypes ty decl)
  have hresolved := hfound.mono (List.nil_subset [ty]) (List.Subset.refl [])
  have hfilled := hdone.mono (List.nil_subset [ty]) (List.Subset.refl [])
  exact (hresolved.trans hset).trans hfilled

theorem spares_stubClasses (h : registry.Closed) (options : Options) {types : List Ty}
    {decls : List ClassDecl} (htypes : ∀ decl ∈ decls, ∀ ty, decl.ty = some ty → ty ∈ types) :
    registry.Spares types [] ((stubClasses options decls).run registry).state := by
  induction decls generalizing registry with
  | nil => exact .refl registry
  | cons first rest ih =>
    have hrest : ∀ decl ∈ rest, ∀ ty, decl.ty = some ty → ty ∈ types := fun decl hdecl =>
      htypes decl (List.mem_cons_of_mem _ hdecl)
    unfold stubClasses
    split
    · exact ih h hrest
    · next ty hty =>
      have hfirst := first.spares_stub h options ty
      have hmem : [ty] ⊆ types := by simpa using htypes first List.mem_cons_self ty hty
      exact (hfirst.mono hmem (List.Subset.refl _)).trans
        (ih (first.stub_keepsClosed options ty registry h) hrest)

/-! ## Units -/

namespace CompilationUnit

/-- The types that a unit declares. -/
def handles (unit : CompilationUnit) : List Ty := unit.types.map (ClassDecl.handle unit.package)

/-- The simple names that a unit gives a meaning to: those of its classes, and those of its imports
if they name a registered class. -/
def simpleNames (unit : CompilationUnit) (registry : Registry) : List String :=
  (registry.resolvable unit.imports).map Registry.simpleName ++ unit.types.map ClassDecl.name

theorem spares_stub (h : registry.Closed) (options : Options) (unit : CompilationUnit) :
    registry.Spares unit.handles (unit.simpleNames registry)
      ((unit.stub options).run registry).state := by
  have himported := h.importClasses unit.imports
  have hdeclared := himported.declareClasses unit.package [] unit.types
  have htypes : ∀ decl ∈ Compiler.declaredTypes unit, ∀ ty, decl.ty = some ty →
      ty ∈ unit.handles := by
    intro decl hdecl ty hty
    obtain ⟨given, hgiven, rfl⟩ := List.mem_map.mp hdecl
    cases hty
    exact List.mem_map_of_mem hgiven
  have himports := spares_importClasses registry unit.imports
  have hdeclare := spares_declareClasses unit.package [] unit.types
    ((importClasses unit.imports).run registry).state
  have hstubs := spares_stubClasses hdeclared options htypes
  rw [state_stub]
  exact ((himports.mono (List.nil_subset _) (List.subset_append_left _ _)).trans
    (hdeclare.mono (List.Subset.refl _) (List.subset_append_right _ _))).trans
    (hstubs.mono (List.Subset.refl _) (List.nil_subset _))

theorem spares_check (h : registry.Closed) (unit : CompilationUnit) (classes : ClassTable) :
    registry.Spares [] [] ((unit.check classes).run registry).state := by
  have hbodies : (ClassDecl.checkList classes unit.types).Keeps (Along Registry.Learns) :=
    ClassDecl.checkList_along classes unit.types
  exact (hbodies registry h).2

end CompilationUnit

/-! ## Compilations -/

namespace Compiler

/-- A compiler that began with the builtin types, after any units that it has compiled since, with
or without success. -/
inductive Started : Compiler → Prop
  | start (options : Options) : Started { options }
  | compile {compiler : Compiler} (h : Started compiler) (unit : CompilationUnit)
    (output : Recorder) : Started (compiler.compile unit output).compiler

theorem Started.closed {compiler : Compiler} (h : compiler.Started) : compiler.registry.Closed := by
  induction h with
  | start options => exact Registry.closed_builtin
  | compile _ unit output ih => exact closed_compile ih unit output

/-- A compilation changes the entries of the types that it declares, gives a meaning to the simple
names of its classes and imports, and enters arrays over registered types. The analysis of bodies
enters arrays at most, and the generation of code nothing. -/
theorem compile_spares {compiler : Compiler} (h : compiler.Started) (unit : CompilationUnit)
    (output : Recorder) :
    let stubbed := (unit.stub compiler.options).run compiler.registry
    let analyzed := (stubbed.value.1.check stubbed.value.2.classes).run stubbed.state
    let after := (compiler.compile unit output).compiler.registry
    compiler.registry.Spares unit.handles (unit.simpleNames compiler.registry) after
      ∧ stubbed.state.Spares [] [] analyzed.state
      ∧ after = analyzed.state := by
  intro stubbed analyzed after
  have hafter : after = analyzed.state := registry_compile compiler unit output
  have hclosed : stubbed.state.Closed := unit.closed_stub h.closed compiler.options
  have hstubs := unit.spares_stub h.closed compiler.options
  have hbodies : stubbed.state.Spares [] [] analyzed.state :=
    stubbed.value.1.spares_check hclosed stubbed.value.2.classes
  refine ⟨?_, hbodies, hafter⟩
  rw [hafter]
  exact hstubs.trans (hbodies.mono (List.nil_subset _) (List.nil_subset _))

/-- Two units by one compiler: the second one leaves the class of the first one as it was. -/
theorem compile_spares_log :
    let compiler := (Compiler.compile {} logUnit .empty).compiler
    let after := (compiler.compile oneUnit .empty).compiler.registry
    compiler.Started ∧ ∃ entry, compiler.registry.get? (Ty.named "Log") = some entry
      ∧ after.get? (Ty.named "Log") = some entry := by
  intro compiler after
  have hstarted : compiler.Started := .compile (.start {}) logUnit .empty
  obtain ⟨hspares, -, -⟩ := compile_spares hstarted oneUnit .empty
  have hknown : compiler.registry.contains (Ty.named "Log") = true := by decide +kernel
  obtain ⟨entry, hentry⟩ := Registry.contains_iff.mp hknown
  exact ⟨hstarted, entry, hentry, hspares.entries _ (by decide +kernel) entry hentry⟩

end Compiler

end ClassCompiler
