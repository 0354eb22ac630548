import ClassCompiler.Compiler
import ClassCompiler.Proofs.Unit.Errors

/-!
# Analysis of units

Both passes of an analysis, from a compiler that has compiled any units before. The registry of such
a compiler is sound, whatever was wrong with those units. If an analysis reports nothing, then every
method of the unit is accepted, and the table of its classes has each class under its own name.

* `Registry.Reachable`: the registries of compilers
* `Compiler.analyze_regular`: the errors of an analysis, and the registry after it
* `Compiler.analyze_clean`: what is known of a unit without errors
-/

namespace ClassCompiler

open Check

/-! ## Tables of classes -/

/-- The table that the stubs of a unit make. -/
def stubTable (package : Option String) (stubs : List ClassStub) : ClassTable :=
  stubs.foldl (fun table stub => table.addClass stub.info) { package }

theorem classes_stubTable (package : Option String) (stubs : List ClassStub) :
    (stubTable package stubs).classes = (stubs.map ClassStub.info).reverse := by
  have hfold : ∀ table : ClassTable,
      (stubs.foldl (fun table stub => table.addClass stub.info) table).classes
        = (stubs.map ClassStub.info).reverse ++ table.classes := by
    induction stubs with
    | nil => exact fun _ => rfl
    | cons first rest ih =>
      intro table
      rw [List.foldl_cons, ih, List.map_cons, List.reverse_cons, List.append_assoc]
      rfl
  rw [stubTable, hfold, List.append_nil]

/-- The table has a class at the handle of the name, under that name. -/
def ClassTable.Lists (table : ClassTable) (name : String) : Prop :=
  ∃ info, table.class? (Ty.named name) = some info ∧ info.internalName = name

variable {package : Option String} {decls : List ClassDecl} {stubs : List ClassStub}

theorem exists_of_forall₂ {α β : Type} {R : α → β → Prop} {l : List α} {m : List β}
    (h : List.Forall₂ R l m) {b : β} (hb : b ∈ m) : ∃ a ∈ l, R a b := by
  induction h with
  | nil => cases hb
  | cons hfirst _ ih =>
    rcases List.mem_cons.mp hb with rfl | hb
    · exact ⟨_, List.mem_cons_self, hfirst⟩
    · obtain ⟨a, ha, hab⟩ := ih hb
      exact ⟨a, List.mem_cons_of_mem _ ha, hab⟩

theorem map_eq_of_forall₂ {α β γ : Type} {R : α → β → Prop} {f : α → γ} {g : β → γ} {l : List α}
    {m : List β} (h : List.Forall₂ R l m) (hf : ∀ a b, R a b → g b = f a) : m.map g = l.map f := by
  induction h with
  | nil => rfl
  | cons hfirst _ ih => rw [List.map_cons, List.map_cons, hf _ _ hfirst, ih]

/-- Two lists that belong to a third one belong to each other. -/
theorem forall₂_of_common {α β γ : Type} {R : α → β → Prop} {S : α → γ → Prop} {T : β → γ → Prop}
    (hT : ∀ a b c, R a b → S a c → T b c) {l : List α} {m : List β} {n : List γ}
    (h : List.Forall₂ R l m) (h' : List.Forall₂ S l n) : List.Forall₂ T m n := by
  induction h generalizing n with
  | nil =>
    cases h'
    exact .nil
  | cons hfirst _ ih =>
    cases h' with
    | cons hfirst' hrest' => exact .cons (hT _ _ _ hfirst hfirst') (ih hrest')

theorem stubTable_sound
    (h : List.Forall₂ (ClassDecl.Stubbed package) decls (stubs.map ClassStub.info)) :
    (stubTable package stubs).Sound := by
  intro info hinfo
  rw [classes_stubTable, List.mem_reverse] at hinfo
  obtain ⟨decl, -, hstubbed⟩ := exists_of_forall₂ h hinfo
  exact hstubbed.sound

theorem stubTable_lists
    (h : List.Forall₂ (ClassDecl.Stubbed package) decls (stubs.map ClassStub.info))
    (hdistinct : ∀ one ∈ decls, ∀ two ∈ decls,
      Ty.named (one.internalName package) = Ty.named (two.internalName package) →
      one.internalName package = two.internalName package) :
    ∀ decl ∈ decls, (stubTable package stubs).Lists (decl.internalName package) := by
  intro decl hdecl
  obtain ⟨own, hown, hstubbed⟩ := exists_of_forall₂ h.flip hdecl
  have hsome : ((stubTable package stubs).class?
      (Ty.named (decl.internalName package))).isSome := by
    refine List.find?_isSome.mpr ⟨own, ?_, beq_iff_eq.mpr hstubbed.info_ty⟩
    rw [classes_stubTable, List.mem_reverse]
    exact hown
  obtain ⟨info, hinfo⟩ := Option.isSome_iff_exists.mp hsome
  obtain ⟨hmem, hty⟩ := ClassTable.mem_of_class? hinfo
  rw [classes_stubTable, List.mem_reverse] at hmem
  obtain ⟨other, hother, hinfoStubbed⟩ := exists_of_forall₂ h hmem
  refine ⟨info, hinfo, ?_⟩
  rw [hinfoStubbed.internalName]
  exact hdistinct other hother decl hdecl (hinfoStubbed.info_ty.symm.trans hty)

/-! ## The steps of an analysis -/

namespace Compiler

/-- What follows the declarations. -/
def analyzeDeclared (options : Options) (unit : CompilationUnit) (declared : List ClassDecl) :
    Check Registry (CompilationUnit × Stubs) := do
  let (types, stubs) ← stubClasses options declared
  let classes := stubTable unit.package stubs
  let types ← ClassDecl.checkList classes types
  return ({ unit with types }, { classes, images := stubs.map ClassStub.image })

theorem analyze_eq (options : Options) (unit : CompilationUnit) :
    analyze options unit = (do
      importClasses unit.imports
      let declared ← declareClasses unit.package [] unit.types
      analyzeDeclared options unit declared) := by
  unfold analyze CompilationUnit.stub CompilationUnit.check analyzeDeclared
  simp only [bind_assoc, pure_bind]
  rfl

/-- The classes of a unit with their handles. -/
def declaredTypes (unit : CompilationUnit) : List ClassDecl :=
  unit.types.map fun decl => { decl with ty := some (Ty.named (decl.internalName unit.package)) }

variable {options : Options} {unit : CompilationUnit} {registry last : Registry}

/-- The registry in which the classes of a unit are declared. -/
def declaredRegistry (unit : CompilationUnit) (registry : Registry) : Registry :=
  ((declareClasses unit.package [] unit.types).run
    ((importClasses unit.imports).run registry).state).state

theorem state_analyze : ((analyze options unit).run registry).state
    = ((analyzeDeclared options unit (declaredTypes unit)).run
        (declaredRegistry unit registry)).state := by
  rw [analyze_eq, run_bind, run_bind, value_declareClasses]
  rfl

theorem value_analyze : ((analyze options unit).run registry).value
    = ((analyzeDeclared options unit (declaredTypes unit)).run
        (declaredRegistry unit registry)).value := by
  rw [analyze_eq, run_bind, run_bind, value_declareClasses]
  rfl

theorem errors_analyze : ((analyze options unit).run registry).errors
    = ((importClasses unit.imports).run registry).errors
      ++ (((declareClasses unit.package [] unit.types).run
          ((importClasses unit.imports).run registry).state).errors
        ++ ((analyzeDeclared options unit (declaredTypes unit)).run
          (declaredRegistry unit registry)).errors) := by
  rw [analyze_eq, run_bind, run_bind, value_declareClasses]
  rfl

theorem typeNames_declaredTypes (unit : CompilationUnit) :
    (declaredTypes unit).flatMap ClassDecl.typeNames = unit.typeNames := by
  unfold declaredTypes CompilationUnit.typeNames
  rw [List.flatMap_map]
  rfl

theorem name_declaredTypes (unit : CompilationUnit) :
    (declaredTypes unit).map ClassDecl.name = unit.types.map ClassDecl.name := by
  unfold declaredTypes
  rw [List.map_map]
  rfl

/-- Classes of the same names have the same internal names. -/
theorem exists_internalName (package : Option String) {types given : List ClassDecl}
    (h : types.map ClassDecl.name = given.map ClassDecl.name) {decl : ClassDecl}
    (hdecl : decl ∈ types) :
    ∃ other ∈ given, other.internalName package = decl.internalName package := by
  have hname : decl.name ∈ given.map ClassDecl.name := h ▸ List.mem_map_of_mem hdecl
  obtain ⟨other, hother, heq⟩ := List.mem_map.mp hname
  refine ⟨other, hother, ?_⟩
  unfold ClassDecl.internalName
  rw [heq]

section

variable (hnames : unit.NamesApart last)

include hnames

theorem isReference_declared {decl : ClassDecl} (hdecl : decl ∈ unit.types) :
    (Ty.named (decl.internalName unit.package)).isReference = true :=
  Ty.isReference_of_not_isReserved (hnames.isReserved hdecl)

theorem sound_declaredRegistry (hsound : registry.Sound) :
    (declaredRegistry unit registry).Sound := by
  refine declareClasses_sound (importClasses_sound hsound fun name hname =>
    hnames.imported hname) fun decl hdecl => ⟨hnames.isReserved hdecl, ?_⟩
  exact (hnames.declared _ (List.mem_map_of_mem hdecl)).2

theorem declared_declaredTypes (registry : Registry) : ∀ decl ∈ declaredTypes unit,
    decl.Declared unit.package (declaredRegistry unit registry) := by
  intro decl hdecl
  obtain ⟨given, hgiven, rfl⟩ := List.mem_map.mp hdecl
  exact (declareClasses_holds (fun one hone two htwo => hnames.distinct hone htwo) given
    hgiven).declared (hnames.isReserved hgiven)

theorem analyzeDeclared_regular (options : Options) :
    (analyzeDeclared options unit (declaredTypes unit)).Regular := by
  have hordinary : ∀ name ∈ (declaredTypes unit).flatMap ClassDecl.typeNames, name.Ordinary := by
    rw [typeNames_declaredTypes]
    exact fun name hname => hnames.ordinary hname
  have hty : ∀ decl ∈ declaredTypes unit, ∀ ty, decl.ty = some ty → ty.isReference = true := by
    intro decl hdecl ty hsome
    obtain ⟨given, hgiven, rfl⟩ := List.mem_map.mp hdecl
    cases hsome
    exact isReference_declared hnames hgiven
  unfold analyzeDeclared
  refine regular_bind_of (fun stubbed => ∀ decl ∈ stubbed.1, decl.Signed)
    (stubClasses_regular options hordinary hty) (stubClasses_signed options hordinary)
    fun stubbed hsigned => ?_
  exact regular_bind (ClassDecl.checkList_regular _ hsigned) fun _ => regular_pure _

end

theorem inSource_importClasses (names : List String) :
    InSource ((importClasses names).run registry).errors := by
  induction names generalizing registry with
  | nil => exact inSource_nil
  | cons first rest ih =>
    refine InSource.append ?_ ih
    unfold Check.run
    dsimp only
    split
    · exact inSource_nil
    · exact inSource_singleton (by simp [CompileError.kind])

theorem inSource_declareClasses (package : Option String) (seen : List String)
    (decls : List ClassDecl) :
    InSource ((declareClasses package seen decls).run registry).errors := by
  induction decls generalizing seen registry with
  | nil => exact inSource_nil
  | cons first rest ih =>
    refine InSource.append ?_ (InSource.append inSource_nil (InSource.append (ih _) inSource_nil))
    exact inSource_ite (inSource_singleton (by simp [CompileError.kind])) inSource_nil

/-! ## Outcomes -/

/-- An analysis reports errors of the source alone and leaves a sound registry. -/
theorem analyze_regular (hsound : registry.Sound)
    (hnames : unit.NamesApart ((analyze options unit).run registry).state) :
    InSource ((analyze options unit).run registry).errors
      ∧ ((analyze options unit).run registry).state.Sound := by
  obtain ⟨herrors, -, hextends⟩ := analyzeDeclared_regular hnames options
    (declaredRegistry unit registry)
  constructor
  · rw [errors_analyze]
    exact (inSource_importClasses _).append ((inSource_declareClasses _ _ _).append herrors)
  · have harrays := hnames.arrays
    rw [state_analyze] at harrays ⊢
    exact hextends harrays (sound_declaredRegistry hnames hsound)

/-- A unit after an analysis without errors. -/
structure Accepts (last : Registry) (unit analyzed : CompilationUnit) (classes : ClassTable) :
    Prop where
  types : ∀ decl ∈ analyzed.types, decl.Analyzed last unit.package
  lists : ∀ decl ∈ analyzed.types, classes.Lists (decl.internalName unit.package)
  names : analyzed.types.map ClassDecl.name = unit.types.map ClassDecl.name

theorem analyze_clean (hsound : registry.Sound)
    (hnames : unit.NamesApart ((analyze options unit).run registry).state)
    (herrors : ((analyze options unit).run registry).errors = []) :
    Accepts ((analyze options unit).run registry).state unit
      ((analyze options unit).run registry).value.1
      ((analyze options unit).run registry).value.2.classes := by
  have hordinary : ∀ name ∈ (declaredTypes unit).flatMap ClassDecl.typeNames, name.Ordinary := by
    rw [typeNames_declaredTypes]
    exact fun name hname => hnames.ordinary hname
  have hdeclared := declared_declaredTypes hnames registry
  have hgrows : (analyzeDeclared options unit (declaredTypes unit)).Grows
      ((analyze options unit).run registry).state fun s out e => s = declaredRegistry unit registry →
        Accepts ((analyze options unit).run registry).state unit out.1 out.2.classes := by
    unfold analyzeDeclared
    refine (grows_bind (stubClasses_grows hnames.arrays options unit.package _
      fun decl hdecl => (hdeclared decl hdecl).ty_eq) fun stubbed =>
      grows_bind (ClassDecl.checkList_grows hnames.arrays _ unit.package _) fun _ =>
      grows_pure _).mono ?_
    rintro s _ _ ⟨⟨types, stubs⟩, m, hstubs, types', _, hbodies, rfl, rfl⟩ rfl
    obtain ⟨hsound', hstubbed, hsame⟩ :=
      hstubs hordinary hdeclared (sound_declaredRegistry hnames hsound)
    obtain ⟨-, hanalyzed, hsame'⟩ := hbodies _ hstubbed (stubTable_sound hstubbed) hsound'
    rw [name_declaredTypes] at hsame
    refine ⟨hanalyzed, fun decl hdecl => ?_, hsame'.trans hsame⟩
    obtain ⟨stubbed, hmem, heq⟩ := exists_internalName unit.package hsame' hdecl
    rw [← heq]
    refine stubTable_lists hstubbed (fun one hone two htwo hty => ?_) stubbed hmem
    obtain ⟨one', hone', heq'⟩ := exists_internalName unit.package hsame hone
    obtain ⟨two', htwo', heq''⟩ := exists_internalName unit.package hsame htwo
    rw [← heq', ← heq''] at hty ⊢
    exact hnames.distinct hone' htwo' hty
  rw [errors_analyze, List.append_eq_nil_iff, List.append_eq_nil_iff] at herrors
  have hbelow := Registry.Below.refl ((analyze options unit).run registry).state
  have haccepts := (hgrows (declaredRegistry unit registry)).2 herrors.2.2 (by
    rw [state_analyze] at hbelow ⊢
    exact hbelow) rfl
  rw [value_analyze]
  exact haccepts

end Compiler

end ClassCompiler
