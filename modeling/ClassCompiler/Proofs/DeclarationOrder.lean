import ClassCompiler.Proofs.Unit.Closed
import ClassCompiler.Proofs.Unit.Order
import Mathlib.Data.List.Find

/-!
# The order of declarations

The classes of a unit may be written in any order. Stubbing gives every class the same shape, and
reports the same errors but for one kind: a `throws` clause is tested when its method is stubbed,
and by then the supertypes of a class that comes later are not set. Where no `throws` clause names a
type that inherits from a class of the unit, all errors are the same.

Handles are hashes, so the names of a unit must not collide.

* `CompilationUnit.Separate`
* `CompilationUnit.StubbedAlike`, `CompilationUnit.stub_order`
-/

namespace ClassCompiler

open Check Compiler

/-! ## Tables that are filled in any order -/

namespace Table

variable {α β ι : Type} [DecidableEq α] {key : ι → α} {value : ι → β}

/-- The value of every item at its key. -/
def insertAll (key : ι → α) (value : ι → β) (table : Table α β) (items : List ι) : Table α β :=
  items.foldl (fun table item => table.insert (key item) (value item)) table

theorem get?_insertAll_of_notMem {items : List ι} {table : Table α β} {k : α}
    (h : k ∉ items.map key) : (insertAll key value table items).get? k = table.get? k := by
  induction items generalizing table with
  | nil => rfl
  | cons first rest ih =>
    rw [List.map_cons, List.mem_cons, not_or] at h
    exact (ih h.2).trans (get?_insert_of_ne table _ h.1)

theorem get?_insertAll_of_mem {items : List ι} {table : Table α β} (h : (items.map key).Nodup)
    {item : ι} (hitem : item ∈ items) :
    (insertAll key value table items).get? (key item) = some (value item) := by
  induction items generalizing table with
  | nil => cases hitem
  | cons first rest ih =>
    rw [List.map_cons, List.nodup_cons] at h
    rcases List.mem_cons.mp hitem with rfl | hitem
    · exact (get?_insertAll_of_notMem h.1).trans (get?_insert_self table _ _)
    · exact ih h.2 hitem

theorem get?_insertAll_perm {items items' : List ι} (table : Table α β)
    (h : (items.map key).Nodup) (hperm : items.Perm items') (k : α) :
    (insertAll key value table items').get? k = (insertAll key value table items).get? k := by
  have h' : (items'.map key).Nodup := (hperm.map key).nodup_iff.mp h
  by_cases hk : k ∈ items.map key
  · obtain ⟨item, hitem, rfl⟩ := List.mem_map.mp hk
    rw [get?_insertAll_of_mem h hitem, get?_insertAll_of_mem h' (hperm.mem_iff.mp hitem)]
  · have hk' : k ∉ items'.map key := fun hbad => hk ((hperm.map key).mem_iff.mpr hbad)
    rw [get?_insertAll_of_notMem hk, get?_insertAll_of_notMem hk']

end Table

/-! ## Declaring -/

namespace ClassDecl

theorem internalName_injective {package : Option String} {one two : ClassDecl}
    (h : one.internalName package = two.internalName package) : one.name = two.name := by
  unfold internalName at h
  cases package with
  | none => exact h
  | some package => exact (String.append_right_inj _).mp h

end ClassDecl

/-- Declaring fills two tables, the entries by handle and the aliases by name. -/
theorem state_declareClasses (package : Option String) (seen : List String) (decls : List ClassDecl)
    (registry : Registry) :
    ((declareClasses package seen decls).run registry).state
      = { entries := Table.insertAll (ClassDecl.handle package) (ClassDecl.entry package)
            registry.entries decls
          aliases := Table.insertAll ClassDecl.name (ClassDecl.handle package)
            registry.aliases decls } := by
  induction decls generalizing seen registry with
  | nil => rfl
  | cons first rest ih => exact ih _ _

theorem errors_declareClasses {package : Option String} {seen : List String}
    {decls : List ClassDecl} (h : (decls.map ClassDecl.name).Nodup)
    (hseen : ∀ decl ∈ decls, decl.name ∉ seen) (registry : Registry) :
    ((declareClasses package seen decls).run registry).errors = [] := by
  induction decls generalizing seen registry with
  | nil => rfl
  | cons first rest ih =>
    rw [List.map_cons, List.nodup_cons] at h
    have hnew : ∀ decl ∈ rest, decl.name ∉ first.name :: seen := by
      intro decl hdecl hbad
      rcases List.mem_cons.mp hbad with heq | hbad
      · exact h.1 (heq ▸ List.mem_map_of_mem hdecl)
      · exact hseen decl (List.mem_cons_of_mem _ hdecl) hbad
    have hrest := ih h.2 hnew ((first.declare package).run registry).state
    have hfirst : seen.contains first.name = false := by
      simpa using hseen first List.mem_cons_self
    rw [declareClasses, hfirst]
    simp only [Bool.false_eq_true, if_false, run_bind, run_reportAll, run_pure, List.nil_append,
      List.append_nil]
    exact hrest

/-! ## The setting of a unit -/

theorem Registry.supertypes_of_mem_arraysOf {registry : Registry} {name : TypeName}
    {array : TypeEntry} (h : array ∈ registry.arraysOf name) : array.supertypes = [.object] := by
  obtain ⟨base, -, hmem⟩ := List.mem_flatMap.mp h
  generalize name.dims = dims at hmem
  induction dims with
  | zero => cases hmem
  | succ dims ih =>
    rcases List.mem_cons.mp hmem with rfl | hmem
    · rfl
    · exact ih hmem

/-- Classes with different names have different handles. -/
theorem CompilationUnit.handle_injective {unit : CompilationUnit}
    (hnames : (unit.types.map ClassDecl.name).Nodup) (hdeclared : HandlesApart unit.declaredNames)
    {one two : ClassDecl} (hone : one ∈ unit.types) (htwo : two ∈ unit.types)
    (heq : one.handle unit.package = two.handle unit.package) : one = two := by
  have hmem : ∀ decl ∈ unit.types, decl.internalName unit.package ∈ unit.declaredNames :=
    fun decl hdecl => List.mem_map_of_mem hdecl
  have hname := hdeclared _ (hmem one hone) _ (hmem two htwo) heq
  exact List.inj_on_of_nodup_map hnames hone htwo (ClassDecl.internalName_injective hname)

theorem CompilationUnit.nodup_handles {unit : CompilationUnit}
    (hnames : (unit.types.map ClassDecl.name).Nodup) (hdeclared : HandlesApart unit.declaredNames) :
    (unit.types.map (ClassDecl.handle unit.package)).Nodup :=
  (List.nodup_map_iff_inj_on (List.Nodup.of_map _ hnames)).mpr fun _ hone _ htwo =>
    handle_injective hnames hdeclared hone htwo

namespace CompilationUnit

def setting (unit : CompilationUnit) (registry : Registry) : Setting where
  base := declaredRegistry unit registry
  arrays := unit.typeNames.flatMap (declaredRegistry unit registry).arraysOf
  classes := unit.types.map (ClassDecl.handle unit.package)

/-- Classes with different names, and handles that tell classes and arrays apart. -/
structure Separate (unit : CompilationUnit) (registry : Registry) : Prop where
  names : (unit.types.map ClassDecl.name).Nodup
  declared : HandlesApart unit.declaredNames
  arrays : ∀ one ∈ (unit.setting registry).arrays, ∀ two ∈ (unit.setting registry).arrays,
    Ty.named one.internalName = Ty.named two.internalName → one = two
  written : ∀ name ∈ unit.typeNames, ∀ array ∈ (unit.setting registry).arrays,
    Ty.named (Registry.internalForm name.name) ≠ Ty.named array.internalName

variable {unit : CompilationUnit} {registry : Registry} {types : List ClassDecl}

namespace Separate

theorem handles (h : unit.Separate registry) :
    (unit.types.map (ClassDecl.handle unit.package)).Nodup := nodup_handles h.names h.declared

theorem regular (h : unit.Separate registry) (hclosed : registry.Closed) :
    (unit.setting registry).Regular := by
  refine ⟨(hclosed.importClasses _).declareClasses _ _ _, h.arrays, fun array harray => ?_,
    fun ty hty => ?_⟩
  · obtain ⟨name, -, hmem⟩ := List.mem_flatMap.mp harray
    exact Registry.supertypes_of_mem_arraysOf hmem
  · obtain ⟨decl, hdecl, rfl⟩ := List.mem_map.mp hty
    refine Registry.contains_iff.mpr ⟨decl.entry unit.package, ?_⟩
    unfold setting declaredRegistry
    rw [state_declareClasses]
    exact Table.get?_insertAll_of_mem h.handles hdecl

/-- Whatever the order of the classes, the registry is the same to look at. -/
theorem admits_perm (h : unit.Separate registry) (hclosed : registry.Closed)
    (hperm : unit.types.Perm types) :
    (unit.setting registry).Admits (declaredRegistry { unit with types } registry) := by
  have hstart := (h.regular hclosed).admits_base
  have hdeclared := (hclosed.importClasses unit.imports).declareClasses unit.package [] types
  have hget : ∀ ty, (declaredRegistry { unit with types } registry).get? ty
      = (declaredRegistry unit registry).get? ty := by
    intro ty
    unfold declaredRegistry
    rw [state_declareClasses, state_declareClasses]
    exact Table.get?_insertAll_perm _ h.handles hperm ty
  refine ⟨fun name => ?_, fun ty entry hentry => ?_, fun ty entry hentry => ?_,
    hdeclared.nested⟩
  · unfold setting declaredRegistry
    rw [state_declareClasses, state_declareClasses]
    exact Table.get?_insertAll_perm _ h.names hperm name
  · rw [hget]
    exact hstart.kept ty entry hentry
  · rw [hget] at hentry
    exact hstart.added ty entry hentry

theorem covers (h : unit.Separate registry) {counts : CompileError → Bool}
    (hcounts : ∀ method ∈ unit.methods, ∀ name ∈ method.exceptions,
      (unit.setting registry).Settles counts name) {decl : ClassDecl} (hdecl : decl ∈ unit.types) :
    (unit.setting registry).Covers counts decl := by
  have hnames : ∀ name ∈ decl.typeNames, (unit.setting registry).Allows name := by
    intro name hname
    have hmem : name ∈ unit.typeNames := List.mem_flatMap.mpr ⟨decl, hdecl, hname⟩
    exact ⟨fun array harray => List.mem_flatMap.mpr ⟨name, hmem, harray⟩, h.written name hmem⟩
  refine ⟨hnames, fun method hmethod => ⟨fun name hname => hnames name ?_, hcounts method ?_⟩⟩
  · exact List.mem_append_right _ (List.mem_flatMap.mpr ⟨.method method, hmethod, hname⟩)
  · exact CompilationUnit.mem_methods.mpr ⟨decl, hdecl, hmethod⟩

end Separate

/-! ## Stubs of a unit -/

theorem run_stub (unit : CompilationUnit) (options : Options) (registry : Registry) :
    let imported := (importClasses unit.imports).run registry
    let declared := (declareClasses unit.package [] unit.types).run imported.state
    let stubbed := (stubClasses options (unit.types.map (ClassDecl.declared unit.package))).run
      (declaredRegistry unit registry)
    (unit.stub options).run registry
      = { value := ({ unit with types := stubbed.value.1 },
            { classes := stubTable unit.package stubbed.value.2
              images := stubbed.value.2.map ClassStub.image })
          state := stubbed.state
          errors := imported.errors ++ (declared.errors ++ (stubbed.errors ++ [])) } := by
  have hvalue : ((declareClasses unit.package [] unit.types).run
      ((importClasses unit.imports).run registry).state).value
        = unit.types.map (ClassDecl.declared unit.package) := value_declareClasses [] unit.types
  dsimp only
  rw [← hvalue]
  rfl

/-- The stub pass over the classes of a unit in some order, by the outcomes for single classes. -/
theorem stub_run (hclosed : registry.Closed) (hnames : unit.Separate registry)
    (hperm : unit.types.Perm types) (options : Options) {counts : CompileError → Bool}
    (hcounts : ∀ method ∈ unit.methods, ∀ name ∈ method.exceptions,
      (unit.setting registry).Settles counts name) :
    let done := (({ unit with types } : CompilationUnit).stub options).run registry
    let alone := ClassDecl.stubFirst options unit.package (declaredRegistry unit registry)
    done.value.1.types = types.map (fun decl => (alone decl).value.1)
      ∧ done.value.2.classes = stubTable unit.package (types.map fun decl => (alone decl).value.2)
      ∧ done.value.2.images = types.map (fun decl => (alone decl).value.2.image)
      ∧ done.errors.filter counts
        = ((importClasses unit.imports).run registry).errors.filter counts
          ++ types.flatMap fun decl => (alone decl).errors.filter counts := by
  have hcovers : ∀ decl ∈ types, (unit.setting registry).Covers counts decl := fun decl hdecl =>
    hnames.covers hcounts (hperm.mem_iff.mpr hdecl)
  have hclasses : ∀ decl ∈ types, decl.handle unit.package ∈ (unit.setting registry).classes :=
    fun decl hdecl => List.mem_map_of_mem (hperm.mem_iff.mpr hdecl)
  obtain ⟨hdecls, hstubs, herrors⟩ := stubClasses_run (hnames.regular hclosed) options unit.package
    hcovers hclasses (hnames.admits_perm hclosed hperm)
  have hdistinct : (types.map ClassDecl.name).Nodup :=
    (hperm.map ClassDecl.name).nodup_iff.mp hnames.names
  have hdeclared : ((declareClasses unit.package [] types).run
      ((importClasses unit.imports).run registry).state).errors = [] :=
    errors_declareClasses hdistinct (fun _ _ => List.not_mem_nil) _
  dsimp only
  rw [run_stub]
  dsimp only
  refine ⟨hdecls, ?_, ?_, ?_⟩
  · rw [hstubs]
    rfl
  · rw [hstubs, List.map_map]
    rfl
  · rw [hdeclared, List.nil_append, List.append_nil, List.filter_append, herrors]
    rfl

theorem stubFirst_ty (hclosed : registry.Closed) (hnames : unit.Separate registry)
    (options : Options) {decl : ClassDecl} (hdecl : decl ∈ unit.types) :
    (decl.stubFirst options unit.package (declaredRegistry unit registry)).value.2.info.ty
      = decl.handle unit.package := by
  have hregular := hnames.regular hclosed
  -- no error counts here, so nothing is asked of the `throws` clauses
  have hcovers : (unit.setting registry).Covers (fun _ => false) decl :=
    hnames.covers (fun _ _ _ _ => .inl fun _ _ => rfl) hdecl
  have hdeclared : (unit.setting registry).Covers (fun _ => false) (decl.declared unit.package) :=
    ⟨hcovers.names, hcovers.methods⟩
  obtain ⟨-, -, -, hty⟩ := ClassDecl.stub_agrees hregular hdeclared options
    (List.mem_map_of_mem hdecl) _ _
    ⟨hregular.admits_base, hregular.admits_base, fun _ h => (List.not_mem_nil h).elim⟩
  exact hty

/-- The class that a table of stubs finds at the handle of a class of the unit. -/
theorem class?_stubTable (hclosed : registry.Closed) (hnames : unit.Separate registry)
    (hperm : unit.types.Perm types) (options : Options) {decl : ClassDecl}
    (hdecl : decl ∈ unit.types) :
    let alone := ClassDecl.stubFirst options unit.package (declaredRegistry unit registry)
    (stubTable unit.package (types.map fun decl => (alone decl).value.2)).class?
      (decl.handle unit.package) = some (alone decl).value.2.info := by
  dsimp only
  generalize halone : ClassDecl.stubFirst options unit.package (declaredRegistry unit registry)
    = alone
  have hty : ∀ other ∈ unit.types,
      (alone other).value.2.info.ty = other.handle unit.package := by
    subst halone
    exact fun other hother => stubFirst_ty hclosed hnames options hother
  have hmem : ∀ other, other ∈ types.reverse ↔ other ∈ unit.types := fun other =>
    List.mem_reverse.trans hperm.mem_iff.symm
  unfold ClassTable.class?
  rw [classes_stubTable, List.map_map, ← List.map_reverse, List.find?_map]
  cases hfound : types.reverse.find? ((fun info => info.ty == decl.handle unit.package)
      ∘ ClassStub.info ∘ fun decl => (alone decl).value.2) with
  | none =>
    have := List.find?_eq_none.mp hfound decl ((hmem decl).mpr hdecl)
    simp [hty decl hdecl] at this
  | some other =>
    have hother := (hmem other).mp (List.mem_of_find?_eq_some hfound)
    have hsome := List.find?_some hfound
    have hhandle : (alone other).value.2.info.ty = decl.handle unit.package := beq_iff_eq.mp hsome
    rw [hty other hother] at hhandle
    rw [handle_injective hnames.names hnames.declared hother hdecl hhandle]
    rfl

/-- What two passes over a unit have in common that stub its classes in different orders. -/
structure StubbedAlike (unit : CompilationUnit) (one two : Checked Registry (CompilationUnit × Stubs)) :
    Prop where
  types : one.value.1.types.Perm two.value.1.types
  /-- Every class is found, with one superclass, interfaces, fields and methods. -/
  classes : ∀ decl ∈ unit.types, ∃ info,
    one.value.2.classes.class? (decl.handle unit.package) = some info
      ∧ two.value.2.classes.class? (decl.handle unit.package) = some info
  images : one.value.2.images.Perm two.value.2.images
  errors : (one.errors.filter fun error => error.kind != .invalidThrowsType).Perm
    (two.errors.filter fun error => error.kind != .invalidThrowsType)

/-- Declaration order does not matter, but for the test of `throws` clauses, and not for that either
where no `throws` clause names a type that inherits from a class of the unit. -/
theorem stub_order (unit : CompilationUnit) (types : List ClassDecl) (options : Options)
    (registry : Registry) (hclosed : registry.Closed) (hnames : unit.Separate registry)
    (hperm : unit.types.Perm types) :
    let one := (unit.stub options).run registry
    let two := (({ unit with types } : CompilationUnit).stub options).run registry
    unit.StubbedAlike one two
      ∧ ((∀ method ∈ unit.methods, ∀ name ∈ method.exceptions,
          (unit.setting registry).Outside name) → one.errors.Perm two.errors) := by
  have hthrows : ∀ method ∈ unit.methods, ∀ name ∈ method.exceptions,
      (unit.setting registry).Settles (fun error => error.kind != .invalidThrowsType) name :=
    fun _ _ _ _ => .inl fun _ _ => rfl
  obtain ⟨htypes, hclasses, himages, herrors⟩ :=
    stub_run hclosed hnames (.refl unit.types) options hthrows
  obtain ⟨htypes', hclasses', himages', herrors'⟩ :=
    stub_run hclosed hnames hperm options hthrows
  dsimp only at *
  refine ⟨⟨?_, fun decl hdecl => ?_, ?_, ?_⟩, fun hout => ?_⟩
  · rw [htypes, htypes']
    exact hperm.map _
  · rw [hclasses, hclasses']
    exact ⟨_, class?_stubTable hclosed hnames (.refl _) options hdecl,
      class?_stubTable hclosed hnames hperm options hdecl⟩
  · rw [himages, himages']
    exact hperm.map _
  · rw [herrors, herrors']
    exact (hperm.flatMap_right _).append_left _
  · have hall : ∀ method ∈ unit.methods, ∀ name ∈ method.exceptions,
        (unit.setting registry).Settles (fun _ => true) name :=
      fun method hmethod name hname => .inr (hout method hmethod name hname)
    obtain ⟨-, -, -, hone⟩ := stub_run hclosed hnames (.refl unit.types) options hall
    obtain ⟨-, -, -, htwo⟩ := stub_run hclosed hnames hperm options hall
    rw [List.filter_true] at hone htwo
    rw [hone, htwo]
    exact (hperm.flatMap_right _).append_left _

end CompilationUnit

/-! ## Units -/

/-- `class A extends B { B next; void m() throws Exception {} } class B {}` -/
def forwardUnit : CompilationUnit where
  file := "A.java"
  package := none
  imports := []
  types :=
    [{ line := 1
       mods := .empty
       name := "A"
       isInterface := false
       superclass := some ⟨"B", 0, 1⟩
       interfaces := []
       members :=
        [.field { line := 2, mods := .empty, type := ⟨"B", 0, 2⟩, names := ["next"] },
          .method
            { line := 3
              mods := .empty
              name := "m"
              returnType := ⟨"void", 0, 3⟩
              params := []
              exceptions := [⟨"Exception", 0, 3⟩]
              body := some ⟨[], 3⟩ }] },
      { line := 4
        mods := .empty
        name := "B"
        isInterface := false
        superclass := none
        interfaces := []
        members := [] }]

/-- `class A { void m() throws E {} } class E extends Exception {}` -/
def thrownLaterUnit : CompilationUnit where
  file := "Main.java"
  package := none
  imports := []
  types :=
    [{ line := 1
       mods := .empty
       name := "A"
       isInterface := false
       superclass := none
       interfaces := []
       members :=
        [.method
          { line := 2
            mods := .empty
            name := "m"
            returnType := ⟨"void", 0, 2⟩
            params := []
            exceptions := [⟨"E", 0, 2⟩]
            body := some ⟨[], 2⟩ }] },
      { line := 3
        mods := .empty
        name := "E"
        isInterface := false
        superclass := some ⟨"Exception", 0, 3⟩
        interfaces := []
        members := [] }]

theorem separate_forward : forwardUnit.Separate .builtin :=
  ⟨by decide +kernel, by decide +kernel, by decide +kernel, by decide +kernel⟩

theorem outside_exception (line : Nat) :
    (forwardUnit.setting .builtin).Outside ⟨"Exception", 0, line⟩ := by
  intro ty known hresolve ancestor hancestor
  obtain ⟨base, hbase, -, harray⟩ := Registry.resolve_eq_ok_iff.mp hresolve
  cases harray
  have hexception : (forwardUnit.setting .builtin).base.lookup? "Exception"
      = some (Ty.named "java/lang/Exception") := by decide +kernel
  cases hbase.symm.trans hexception
  have hclosed : ∀ between ∈ [Ty.named "java/lang/Exception", .throwable, .object],
      ∀ super ∈ (forwardUnit.setting .builtin).base.supertypes between,
        super ∈ [Ty.named "java/lang/Exception", .throwable, .object] := by decide +kernel
  have hdisjoint : ∀ between ∈ [Ty.named "java/lang/Exception", .throwable, .object],
      between ∉ (forwardUnit.setting .builtin).classes := by decide +kernel
  exact hdisjoint ancestor (hancestor.mem List.mem_cons_self hclosed)

theorem stub_order_forward :
    let one := (forwardUnit.stub {}).run .builtin
    let two := (({ forwardUnit with types := forwardUnit.types.reverse } :
      CompilationUnit).stub {}).run .builtin
    Registry.builtin.Closed ∧ forwardUnit.Separate .builtin
      ∧ forwardUnit.StubbedAlike one two ∧ one.errors.Perm two.errors := by
  obtain ⟨halike, herrors⟩ := CompilationUnit.stub_order forwardUnit forwardUnit.types.reverse {}
    .builtin Registry.closed_builtin separate_forward (List.reverse_perm _).symm
  refine ⟨Registry.closed_builtin, separate_forward, halike, herrors fun method hmethod => ?_⟩
  have hthrown : ∀ method ∈ forwardUnit.methods, ∀ name ∈ method.exceptions,
      name = ⟨"Exception", 0, 3⟩ := by decide
  exact fun name hname => hthrown method hmethod name hname ▸ outside_exception 3

/-- The thrown class is a `Throwable`, but that is not known yet when it comes after its use. -/
theorem throws_test_depends_on_order :
    thrownLaterUnit.Separate .builtin
      ∧ ((thrownLaterUnit.stub {}).run .builtin).errors = [.invalidThrowsType "E" 2]
      ∧ (((({ thrownLaterUnit with types := thrownLaterUnit.types.reverse } :
          CompilationUnit)).stub {}).run .builtin).errors = [] :=
  ⟨⟨by decide +kernel, by decide +kernel, by decide +kernel, by decide +kernel⟩,
    by decide +kernel, by decide +kernel⟩

end ClassCompiler
