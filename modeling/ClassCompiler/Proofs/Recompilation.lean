import ClassCompiler.Proofs.StubAgreement
import ClassCompiler.Proofs.Unit.Rechecking

/-!
# Units compiled again

A compiler keeps the types of a unit, and the unit keeps what the analysis made of it. So a unit
that compiled may be compiled once more as it was left. The second compilation gives the same classes
if the first analysis left nothing in the bodies that means something else the second time. It does
where a local has an initializer: the assignment that it was turned into is not looked at again.

* `Compiler.Intact`: the first analysis of a unit can be repeated
* `Compiler.founded_compile`
* `Compiler.recompile_same`
-/

namespace ClassCompiler

open Check

/-! ## Stubs -/

theorem MethodDecl.stub_hiddenNames (method : MethodDecl) :
    method.stub.Gives fun out => out.hiddenNames = method.hiddenNames := by
  unfold stub
  exact gives_then fun _ => gives_then fun _ => gives_then fun _ => gives_then fun _ =>
    gives_then fun _ => gives_then fun _ => gives_pure rfl

namespace CompilationUnit

theorem state_stub (options : Options) (unit : CompilationUnit) (registry : Registry) :
    ((unit.stub options).run registry).state
      = ((stubClasses options (Compiler.declaredTypes unit)).run
          (Compiler.declaredRegistry unit registry)).state := by
  unfold stub
  rw [run_bind, run_bind, value_declareClasses]
  rfl

/-- A unit whose stubs can be analyzed, and can be analyzed again. -/
structure Ready (unit stubbed : CompilationUnit) (classes : ClassTable) (registry : Registry) :
    Prop where
  founded : registry.Founded
  classes : ∀ info ∈ classes.classes, info.Among fun ty => registry.contains ty = true
  types : ∀ decl ∈ stubbed.types, decl.Awaits registry
  hiddenNames : List.Forall₂ (fun before after => List.Forall₂ (fun one two =>
    MethodDecl.hiddenNames two = one.hiddenNames) before.methods (ClassDecl.methods after))
    unit.types stubbed.types

theorem stub_ready {s : Registry} (hs : s.Founded) (options : Options) {unit : CompilationUnit}
    (hbare : ∀ method ∈ unit.methods, method.Bare) :
    unit.Ready ((unit.stub options).run s).value.1 ((unit.stub options).run s).value.2.classes
      ((unit.stub options).run s).state := by
  rw [value_stub, state_stub]
  dsimp only
  have hclosed : (Compiler.declaredRegistry unit s).Closed :=
    (hs.closed.importClasses unit.imports).declareClasses _ _ _
  obtain ⟨hbelow, hlearns⟩ := stubClasses_learns options (Compiler.declaredTypes unit)
    (Compiler.declaredRegistry unit s)
  obtain ⟨hamong, hknown⟩ := hlearns hclosed (Compiler.contains_declaredTypes unit s)
  have hstub : ∀ method : MethodDecl, method.Bare → method.stub.Gives fun out =>
      out.state = .stubbed ∧ out.Bare := by
    refine fun method hmethod => (method.stub_gives).mono fun out hout => ⟨hout.isStubbed, ?_⟩
    unfold MethodDecl.Bare MethodDecl.declarators
    rw [hout.body_eq]
    exact hmethod
  have hdeclared : ∀ decl ∈ Compiler.declaredTypes unit, decl.Has MethodDecl.Bare := by
    intro decl hdecl
    obtain ⟨given, hgiven, rfl⟩ := List.mem_map.mp hdecl
    exact ⟨rfl, fun method hmethod => hbare method (mem_methods.mpr ⟨given, hgiven, hmethod⟩)⟩
  have hbodies := stubClasses_have options hstub hdeclared (Compiler.declaredRegistry unit s)
  have hnames := stubClasses_relates MethodDecl.stub_hiddenNames options
    (fun decl hdecl => (hdeclared decl hdecl).1) (Compiler.declaredRegistry unit s)
  refine ⟨⟨stubClasses_keepsClosed options _ _ hclosed, fun ty hty =>
    hbelow.contains (Compiler.contains_declaredRegistry unit (hs.fixed ty hty))⟩,
    fun info hinfo => ?_, fun decl hdecl => ⟨(hknown decl hdecl).ty, fun method hmethod => ?_⟩,
    (List.forall₂_map_left_iff.mp hnames).imp fun before after h => h.1.methods⟩
  · rw [classes_stubTable, List.mem_reverse] at hinfo
    obtain ⟨stub, hstub, rfl⟩ := List.mem_map.mp hinfo
    exact hamong stub hstub
  · obtain ⟨hstubbed, hmethodBare⟩ := (hbodies decl hdecl).2 method hmethod
    exact ⟨hstubbed, hmethodBare, (hknown decl hdecl).signed method hmethod⟩

/-- The stubs of a unit are ready, and they come out as before if the unit is stubbed again. -/
theorem stub_clean {s : Registry} (hs : s.Founded) (options : Options) {unit : CompilationUnit}
    (hbare : ∀ method ∈ unit.methods, method.Bare) :
    (unit.stub options).Clean s fun out e => ∃ types, out.1 = { unit with types }
      ∧ unit.Ready out.1 out.2.classes e
      ∧ ∀ later, List.Forall₂ ClassDecl.SameStubs types later → ∀ full, e.PartOf full →
        ∃ t, ({ unit with types := later }.stub options).Answers full
            ({ unit with types := later.map ClassDecl.restubbed }, out.2) t
          ∧ full.PartOf t ∧ t.PartOf full := by
  intro herrors
  have hready := stub_ready hs options hbare
  obtain ⟨-, hagain⟩ := stub_repeats hs.closed options unit herrors
  rw [value_stub] at hready hagain ⊢
  exact ⟨_, rfl, hready, hagain⟩

theorem check_repeats {classes : ClassTable} {s : Registry} (hs : s.Founded)
    (hclasses : ∀ info ∈ classes.classes, info.Among fun ty => s.contains ty = true)
    {unit : CompilationUnit} (hunit : ∀ decl ∈ unit.types, decl.Awaits s) :
    (unit.check classes).Clean s fun out e => ∃ types, out = { unit with types }
      ∧ s.PartOf e ∧ e.Founded ∧ List.Forall₂ ClassDecl.SameStubs unit.types types
      ∧ ∀ last : Registry, last.Nested → e.PartOf last →
        List.Forall₂ (ClassDecl.Lasts classes last) unit.types types →
        (check classes { unit with types := types.map ClassDecl.restubbed }).Answers last out last := by
  unfold check
  refine clean_bind (Q := fun types e => ∀ last : Registry, last.Nested → s.PartOf e ∧ e.Founded
      ∧ List.Forall₂ ClassDecl.SameStubs unit.types types ∧ (e.PartOf last →
        List.Forall₂ (ClassDecl.Lasts classes last) unit.types types →
        (ClassDecl.checkList classes (types.map ClassDecl.restubbed)).Answers last types last))
    (fun herrors last hlast => ClassDecl.checkList_repeats hlast hs hclasses hunit herrors)
    fun types e htypes => clean_pure ?_
  obtain ⟨hpart, hfounded, hsame, -⟩ := htypes s hs.closed.nested
  refine ⟨types, rfl, hpart, hfounded, hsame, fun last hlast hlater hlasts => ?_⟩
  obtain ⟨-, -, -, hagain⟩ := htypes last hlast
  exact answers_bind (hagain hlater hlasts) answers_pure

end CompilationUnit

/-! ## Analysis -/

theorem ClassDecl.SameStubs.generated {before after : ClassDecl} (h : before.SameStubs after) :
    before.SameStubs after.generated := by
  obtain ⟨members, rfl, hmembers⟩ := h
  refine ⟨members.map Member.generated, rfl, List.forall₂_map_right_iff.mpr (hmembers.imp ?_)⟩
  intro one two hmember
  cases hmember with
  | field decl => exact .field decl
  | method hsame =>
    obtain ⟨body, frame, state, rfl, hbody⟩ := hsame
    exact .method ⟨body, frame, .generated, rfl, hbody⟩

theorem ClassDecl.restubbed_generated (decl : ClassDecl) :
    decl.generated.restubbed = decl.restubbed := by
  unfold restubbed generated
  rw [List.map_map]
  refine congrArg (fun members => { decl with members }) (List.map_congr_left fun member _ => ?_)
  cases member <;> rfl

theorem Registry.PartOf.nested {s t : Registry} (h : s.PartOf t) (h' : t.PartOf s)
    (hs : s.Nested) : t.Nested := by
  obtain ⟨rank, hrank⟩ := hs
  refine ⟨rank, fun ty element hkind => ?_⟩
  obtain ⟨hcontains, hlt⟩ := hrank ty element (h.kind?_eq h' ▸ hkind)
  exact ⟨h.contains hcontains, hlt⟩

/-- What lasts in a registry, lasts in any other with the same entries. -/
theorem CompilationUnit.Ready.lasts {unit stubbed : CompilationUnit} {classes : ClassTable}
    {registry s t : Registry} (h : unit.Ready stubbed classes registry) (hpart : s.PartOf t)
    (hpart' : t.PartOf s) (hs : s.Founded) {types : List ClassDecl}
    (hlasts : List.Forall₂ (ClassDecl.Lasts classes s) unit.types types) :
    List.Forall₂ (ClassDecl.Lasts classes t) stubbed.types types := by
  refine forall₂_of_common (fun given before after hnames hlast owner howner => ?_) h.hiddenNames
    hlasts
  refine forall₂_of_common (fun one two three hname hmethod d hd => ?_) hnames (hlast owner howner)
  rw [Expr.lasts_same hpart hpart' hs (hpart.nested hpart' hs.closed.nested), hname]
  exact hmethod d hd

namespace Compiler

/-- A unit that was analyzed without an error, and whose classes were generated, is analyzed as
before. -/
theorem analyze_repeats {s : Registry} (hs : s.Founded) (options : Options) {unit : CompilationUnit}
    (hbare : ∀ method ∈ unit.methods, method.Bare) :
    (analyze options unit).Clean s fun out e =>
      List.Forall₂ (ClassDecl.Lasts out.2.classes e) unit.types out.1.types →
      ∃ t, (analyze options { out.1 with types := out.1.types.map ClassDecl.generated }).Answers e
          out t ∧ e.PartOf t ∧ t.PartOf e := by
  unfold analyze
  refine clean_bind (CompilationUnit.stub_clean hs options hbare) fun done m hdone => ?_
  obtain ⟨stubbed, stubs⟩ := done
  obtain ⟨types, rfl, hready, hstub⟩ := hdone
  refine clean_bind (CompilationUnit.check_repeats hready.founded hready.classes hready.types)
    fun checked e hchecked => clean_pure fun hlasts => ?_
  obtain ⟨later, rfl, hpart, hfounded, hsame, hcheck⟩ := hchecked
  have hgenerated : List.Forall₂ ClassDecl.SameStubs types (later.map ClassDecl.generated) :=
    List.forall₂_map_right_iff.mpr (hsame.imp fun _ _ h => h.generated)
  obtain ⟨t, hrun, hone, htwo⟩ := hstub (later.map ClassDecl.generated) hgenerated e hpart
  have hrestubbed : (later.map ClassDecl.generated).map ClassDecl.restubbed
      = later.map ClassDecl.restubbed := by
    rw [List.map_map]
    exact List.map_congr_left fun decl _ => decl.restubbed_generated
  rw [hrestubbed] at hrun
  have hnested := hone.nested htwo hfounded.closed.nested
  exact ⟨t, answers_bind hrun (answers_bind (hcheck t hnested hone (hready.lasts hone htwo hfounded
    hlasts)) answers_pure), hone, htwo⟩

variable {compiler : Compiler} {unit : CompilationUnit} {output : Recorder}

theorem compiler_compile (compiler : Compiler) (unit : CompilationUnit) (output : Recorder) :
    (compiler.compile unit output).compiler
      = { compiler with registry := (compiler.analysis unit).state } := by
  unfold compile
  dsimp only
  split
  · rfl
  · split <;> rfl

/-- A compiler with a founded registry has one ever after. -/
theorem founded_compile (h : compiler.registry.Founded) (unit : CompilationUnit)
    (output : Recorder) : (compiler.compile unit output).compiler.registry.Founded := by
  refine ⟨closed_compile h.closed unit output, fun ty hty => ?_⟩
  rw [registry_compile]
  exact (declaredRegistry_below compiler unit).contains
    (contains_declaredRegistry unit (h.fixed ty hty))

/-- Nothing is lost when a compiler analyzes a unit: no local has an initializer, and everything in
the analyzed bodies lasts. -/
structure Intact (compiler : Compiler) (unit : CompilationUnit) : Prop where
  bare : ∀ method ∈ unit.methods, method.Bare
  lasts : List.Forall₂ (ClassDecl.Lasts (compiler.analysis unit).value.2.classes
    (compiler.analysis unit).state) unit.types (compiler.analysis unit).value.1.types

/-- The compiler that is left, at the unit that is left, has the same analysis. -/
theorem analysis_again (hfounded : compiler.registry.Founded)
    (hsuccess : (compiler.compile unit output).isSuccess = true) (hintact : compiler.Intact unit) :
    ∃ t, (compiler.compile unit output).compiler.analysis (compiler.compile unit output).unit
        = ⟨(compiler.analysis unit).value, t, []⟩
      ∧ (compiler.analysis unit).state.PartOf t ∧ t.PartOf (compiler.analysis unit).state := by
  obtain ⟨herrors, images, hok⟩ := images_of_success hsuccess
  obtain ⟨hunit, -, -, -⟩ := compile_of_images output herrors hok
  have hgeneration := CompilationUnit.generate_same (.refl _) (.refl _) hok
  rw [hunit, compiler_compile]
  unfold generation
  dsimp only
  rw [hgeneration]
  exact analyze_repeats hfounded compiler.options hintact.bare herrors hintact.lasts

/-- A unit that compiled, with nothing lost, compiles again: as before, with the same classes. -/
theorem recompile_same (hfounded : compiler.registry.Founded)
    (hsuccess : (compiler.compile unit output).isSuccess = true) (hintact : compiler.Intact unit)
    (later : Recorder) :
    let first := compiler.compile unit output
    let second := first.compiler.compile first.unit later
    second.isSuccess = true
      ∧ (∃ images, first.output = output.replayAll images ∧ second.output = later.replayAll images)
      ∧ second.stubs = first.stubs ∧ second.unit = first.unit
      ∧ first.compiler.registry.PartOf second.compiler.registry
      ∧ second.compiler.registry.PartOf first.compiler.registry := by
  intro first second
  obtain ⟨herrors, images, hok⟩ := images_of_success hsuccess
  obtain ⟨hunit, houtput, -, -⟩ := compile_of_images output herrors hok
  obtain ⟨t, hanalysis, hone, htwo⟩ := analysis_again hfounded hsuccess hintact
  have hoptions : first.compiler.options = compiler.options := by
    show (compiler.compile unit output).compiler.options = _
    rw [compiler_compile]
  have hgeneration : first.compiler.generation first.unit = (first.unit, .ok images) := by
    unfold generation
    rw [hanalysis, hoptions, hunit, CompilationUnit.generate_same hone htwo hok]
    exact congrArg (·, _) (congrArg Prod.fst
      (CompilationUnit.generate_same (.refl _) (.refl _) hok)).symm
  obtain ⟨hunit', houtput', hcode, hdiagnostics⟩ :=
    compile_of_images later (congrArg Checked.errors hanalysis) (congrArg Prod.snd hgeneration)
  refine ⟨?_, ⟨images, houtput, houtput'⟩, ?_, ?_, ?_, ?_⟩
  · unfold Compilation.isSuccess
    rw [hcode, hdiagnostics]
    rfl
  · rw [stubs_compile, stubs_compile, hanalysis]
  · rw [hunit', hgeneration]
  · rw [registry_compile, registry_compile, hanalysis]
    exact hone
  · rw [registry_compile, registry_compile, hanalysis]
    exact htwo

end Compiler

/-! ## Units -/

/-- `class Log { static int count; static String add(String text, int by) { int sum;
sum = count + by; count = sum; return text + count; } static String twice() {
return add(add("", 1), 1); } }` -/
def logUnit : CompilationUnit where
  file := "Log.java"
  package := none
  imports := []
  types :=
    [{ line := 1
       mods := .accPublic
       name := "Log"
       isInterface := false
       superclass := none
       interfaces := []
       members :=
        [.field
          { line := 1
            mods := .accStatic
            type := ⟨"int", 0, 1⟩
            names := ["count"] },
         .method
          { line := 1
            mods := .accStatic
            name := "add"
            returnType := ⟨"String", 0, 1⟩
            params := [⟨1, "text", ⟨"String", 0, 1⟩⟩, ⟨1, "by", ⟨"int", 0, 1⟩⟩]
            exceptions := []
            body := some ⟨
              [.declare { type := ⟨"int", 0, 1⟩, declarators := [⟨"sum", none, 1, none⟩], line := 1 },
               .expr (.assign { line := 2 } .plain (.name { line := 2 } "sum" none)
                (.binary { line := 2 } .add (.name { line := 2 } "count" none)
                  (.name { line := 2 } "by" none))) 2,
               .expr (.assign { line := 2 } .plain (.name { line := 2 } "count" none)
                (.name { line := 2 } "sum" none)) 2,
               .ret (some (.binary { line := 2 } .add (.name { line := 2 } "text" none)
                (.name { line := 2 } "count" none))) 2], 1⟩ },
         .method
          { line := 2
            mods := .accStatic
            name := "twice"
            returnType := ⟨"String", 0, 2⟩
            params := []
            exceptions := []
            body := some ⟨
              [.ret (some (.call { line := 3 } none "add"
                [.call { line := 3 } none "add" [.literal { line := 3 } (.string ""),
                  .literal { line := 3 } (.int 1)] none, .literal { line := 3 } (.int 1)] none)) 3],
              2⟩ }] }]

theorem recompile_same_log :
    let first := Compiler.compile {} logUnit .empty
    let second := first.compiler.compile first.unit first.output
    Registry.builtin.Founded ∧ first.isSuccess = true ∧ Compiler.Intact {} logUnit
      ∧ second.isSuccess = true
      ∧ ∃ images, first.output = Recorder.empty.replayAll images
        ∧ second.output = first.output.replayAll images := by
  intro first second
  have hsuccess : first.isSuccess = true := by decide +kernel
  have hintact : Compiler.Intact {} logUnit := ⟨by decide +kernel, by decide +kernel⟩
  obtain ⟨hsecond, himages, -⟩ :=
    Compiler.recompile_same Registry.founded_builtin hsuccess hintact first.output
  exact ⟨Registry.founded_builtin, hsuccess, hintact, hsecond, himages⟩

/-- `class Main { static int one() { int x = 1; return x; } }` -/
def oneUnit : CompilationUnit where
  file := "Main.java"
  package := none
  imports := []
  types :=
    [{ line := 1
       mods := .accPublic
       name := "Main"
       isInterface := false
       superclass := none
       interfaces := []
       members :=
        [.method
          { line := 2
            mods := .accStatic
            name := "one"
            returnType := ⟨"int", 0, 2⟩
            params := []
            exceptions := []
            body := some ⟨
              [.declare
                { type := ⟨"int", 0, 3⟩
                  declarators := [⟨"x", some (.literal { line := 3 } (.int 1)), 3, none⟩]
                  line := 3 },
               .ret (some (.name { line := 4 } "x" none)) 4], 2⟩ }] }]

/-- The unit that is left declares the local without its value. -/
theorem initializer_lost :
    let first := Compiler.compile {} oneUnit .empty
    let second := first.compiler.compile first.unit first.output
    first.isSuccess = true ∧ second.isSuccess = false
      ∧ second.diagnostics.errors = [.uninitializedVariable "x" 4] := by
  decide +kernel

end ClassCompiler
