import ClassCompiler.Proofs.Compiler
import ClassCompiler.Proofs.Unit.Passes
import ClassCompiler.Unit.Passes

/-!
# Sequences of passes

Passes may run over a unit in any order and any number. Output comes from passes over classes alone,
and such a pass gives all classes of the unit or none. It succeeds only where every method is
analyzed, and it leaves every method generated. To make them analyzed again takes stubs first, which
leave them stubbed, and bodies after that.

* `Pass.Changes`, `Pipeline.run_relates`: what a pass does to a method
* `Pipeline.Regular`: what all passes keep
* `Pipeline.pass_sequences`
-/

namespace ClassCompiler

/-! ## Single passes -/

/-- What a pass may do to a method. -/
def Pass.Changes : Pass → MethodDecl → MethodDecl → Prop
  | stubs => fun _ after => after.state = .stubbed
  | bodies => MethodDecl.MayCheck
  | classes => MethodDecl.MayGenerate

/-- One class for each declaration of a unit, in their order and under their names. Names with the
same handle are one name to the compiler. -/
def CompilationUnit.Emitted (unit : CompilationUnit) (images : List ClassImage) : Prop :=
  List.Forall₂ (fun decl image => image.name ∈ unit.declaredNames
    ∧ Ty.named image.name = decl.handle unit.package) unit.types images

namespace Pipeline

variable {options : Options} {state : Pipeline} {unit : CompilationUnit}

/-- A unit in any state, before the first pass: the table of its classes is empty. -/
def start (registry : Registry) (unit : CompilationUnit) (diagnostics : Diagnostics)
    (output : Recorder) : Pipeline :=
  { registry, unit, diagnostics, output }

/-- The state after passes in turn. -/
def after (options : Options) (state : Pipeline) (passes : List Pass) : Pipeline :=
  passes.foldl (fun state pass => (state.run options pass).1) state

/-- A pass over classes would succeed. -/
def Emits (options : Options) (state : Pipeline) : Prop := (state.run options .classes).2 = none

theorem after_append (one two : List Pass) :
    state.after options (one ++ two) = (state.after options one).after options two :=
  List.foldl_append

/-- A pass over classes that fails changes the unit alone. -/
theorem run_classes_cases (options : Options) (state : Pipeline) :
    (∃ unit error, state.unit.generate options state.registry state.stubs.classes
        = (unit, .error error)
      ∧ state.run options .classes = ({ state with unit }, some error))
    ∨ ∃ unit images, state.unit.generate options state.registry state.stubs.classes
        = (unit, .ok images)
      ∧ state.run options .classes
        = ({ state with unit, output := state.output.replayAll images }, none) := by
  cases h : state.unit.generate options state.registry state.stubs.classes with
  | mk unit result =>
    unfold run
    dsimp only
    rw [h]
    cases result with
    | error error => exact .inl ⟨unit, error, rfl, rfl⟩
    | ok images => exact .inr ⟨unit, images, rfl, rfl⟩

theorem unit_run_classes :
    (state.run options .classes).1.unit
      = (state.unit.generate options state.registry state.stubs.classes).1 := by
  obtain ⟨unit, error, hgenerate, hrun⟩ | ⟨unit, images, hgenerate, hrun⟩ :=
    run_classes_cases options state <;> rw [hgenerate, hrun]

theorem stubs_run_classes : (state.run options .classes).1.stubs = state.stubs := by
  obtain ⟨unit, error, -, hrun⟩ | ⟨unit, images, -, hrun⟩ := run_classes_cases options state <;>
    rw [hrun]

theorem run_relates (options : Options) (state : Pipeline) (pass : Pass) :
    state.unit.Relates pass.Changes (state.run options pass).1.unit := by
  cases pass with
  | stubs => exact (state.unit.stub_relates options state.registry).1
  | bodies => exact (state.unit.check_relates state.stubs.classes state.registry).1
  | classes =>
    rw [unit_run_classes]
    exact (state.unit.generate_relates state.registry options state.stubs.classes).1

theorem length_methods_after (passes : List Pass) :
    (state.after options passes).unit.methods.length = state.unit.methods.length := by
  induction passes generalizing state with
  | nil => rfl
  | cons first rest ih => exact ih.trans (run_relates options state first).length_methods

/-! ## What all passes keep -/

/-- The unit has the classes that it had at the start, and the table of its classes, if there is one,
is a table of these. -/
structure Regular (unit : CompilationUnit) (state : Pipeline) : Prop where
  package : state.unit.package = unit.package
  declaredNames : state.unit.declaredNames = unit.declaredNames
  types : state.stubs.classes.classes ≠ [] →
    ∀ decl ∈ state.unit.types, decl.ty = some (decl.handle unit.package)
  infos : ∀ info ∈ state.stubs.classes.classes, info.Named unit.declaredNames

theorem regular_start (registry : Registry) (unit : CompilationUnit) (diagnostics : Diagnostics)
    (output : Recorder) : (start registry unit diagnostics output).Regular unit :=
  ⟨rfl, rfl, fun h => absurd rfl h, fun _ h => (List.not_mem_nil h).elim⟩

theorem Regular.run (h : state.Regular unit) (options : Options) (pass : Pass) :
    (state.run options pass).1.Regular unit := by
  have hrel := run_relates options state pass
  have hpackage := hrel.package.trans h.package
  have hnames := hrel.declaredNames.trans h.declaredNames
  cases pass with
  | stubs =>
    refine ⟨hpackage, hnames, fun _ => ?_, ?_⟩
    · rw [← h.package]
      exact (state.unit.stub_relates options state.registry).2
    · rw [← h.declaredNames]
      exact state.unit.stub_named options state.registry
  | bodies =>
    exact ⟨hpackage, hnames, fun htable =>
      (state.unit.check_relates state.stubs.classes state.registry).2 _ (h.types htable), h.infos⟩
  | classes =>
    refine ⟨hpackage, hnames, ?_, ?_⟩
    · rw [stubs_run_classes, unit_run_classes]
      exact fun htable => (state.unit.generate_relates state.registry options
        state.stubs.classes).2 _ (h.types htable)
    · rw [stubs_run_classes]
      exact h.infos

theorem Regular.after (h : state.Regular unit) (options : Options) (passes : List Pass) :
    (state.after options passes).Regular unit := by
  induction passes generalizing state with
  | nil => exact h
  | cons first rest ih => exact ih (h.run options first)

/-! ## States of methods -/

/-- Without stubs, methods that are generated stay so. -/
theorem generated_after {passes : List Pass} (hpasses : .stubs ∉ passes)
    (h : ∀ method ∈ state.unit.methods, method.state = .generated) :
    ∀ method ∈ (state.after options passes).unit.methods, method.state = .generated := by
  induction passes generalizing state with
  | nil => exact h
  | cons first rest ih =>
    refine ih (fun hrest => hpasses (List.mem_cons_of_mem _ hrest)) ?_
    refine (run_relates options state first).forall_methods (fun before after hchange hbefore => ?_) h
    cases first with
    | stubs => exact (hpasses List.mem_cons_self).elim
    | bodies =>
      rcases hchange with hstubbed | rfl
      · rw [hbefore] at hstubbed
        cases hstubbed
      · exact hbefore
    | classes =>
      rcases hchange with ⟨-, hgenerated⟩ | rfl
      · exact hgenerated
      · exact hbefore

/-- Without a pass over bodies, no method gets analyzed. -/
theorem not_analyzed_after {passes : List Pass} (hpasses : .bodies ∉ passes)
    (h : ∀ method ∈ state.unit.methods, method.state ≠ .analyzed) :
    ∀ method ∈ (state.after options passes).unit.methods, method.state ≠ .analyzed := by
  induction passes generalizing state with
  | nil => exact h
  | cons first rest ih =>
    refine ih (fun hrest => hpasses (List.mem_cons_of_mem _ hrest)) ?_
    refine (run_relates options state first).forall_methods (fun before after hchange hbefore => ?_) h
    cases first with
    | stubs =>
      have hstubbed : after.state = .stubbed := hchange
      rw [hstubbed]
      decide
    | bodies => exact (hpasses List.mem_cons_self).elim
    | classes =>
      rcases hchange with ⟨hanalyzed, -⟩ | rfl
      · exact (hbefore hanalyzed).elim
      · exact hbefore

/-! ## Output -/

theorem output_of_not_emits (h : ¬ state.Emits options) :
    (state.run options .classes).1.output = state.output := by
  obtain ⟨unit, error, -, hrun⟩ | ⟨unit, images, -, hrun⟩ := run_classes_cases options state
  · rw [hrun]
  · exact (h (congrArg Prod.snd hrun)).elim

theorem Emits.generate (h : state.Emits options) : ∃ images,
    (state.unit.generate options state.registry state.stubs.classes).2 = .ok images
      ∧ (state.run options .classes).1.output = state.output.replayAll images := by
  obtain ⟨unit, error, -, hrun⟩ | ⟨unit, images, hgenerate, hrun⟩ := run_classes_cases options state
  · cases h.symm.trans (congrArg Prod.snd hrun)
  · exact ⟨images, congrArg Prod.snd hgenerate, by rw [hrun]⟩

theorem Emits.relates (h : state.Emits options) :
    state.unit.Relates (fun before after => before.state = .analyzed ∧ after.state = .generated)
      (state.run options .classes).1.unit := by
  obtain ⟨images, hok, -⟩ := h.generate
  rw [unit_run_classes]
  exact (CompilationUnit.generate_ok hok).2

theorem Emits.analyzed (h : state.Emits options) :
    ∀ method ∈ state.unit.methods, method.state = .analyzed := by
  intro method hmethod
  obtain ⟨later, -, hanalyzed, -⟩ := exists_of_forall₂ h.relates.methods.flip hmethod
  exact hanalyzed

theorem Emits.generated (h : state.Emits options) :
    ∀ method ∈ (state.run options .classes).1.unit.methods, method.state = .generated :=
  h.relates.forall_methods (P := fun _ => True) (fun _ _ hchange _ => hchange.2) fun _ _ => trivial

/-- The classes that the table has for a unit have the names of the unit. -/
theorem Regular.emitted (h : state.Regular unit) {images : List ClassImage}
    (hmakes : List.Forall₂ (ClassDecl.Makes state.stubs.classes) state.unit.types images) :
    unit.Emitted images := by
  have hnamed : List.Forall₂ (fun decl image => image.name ∈ unit.declaredNames
      ∧ Ty.named image.name = Ty.named (ClassDecl.internalName unit.package decl))
      state.unit.types images := by
    have hmem : ∀ decl ∈ state.unit.types, decl ∈ state.unit.types := fun _ hdecl => hdecl
    refine ((List.forall₂_and_left _ _).mpr ⟨hmem, hmakes⟩).imp ?_
    rintro decl image ⟨hdecl, info, hinfo, hname⟩
    obtain ⟨ty, hty, hclass⟩ := Option.bind_eq_some_iff.mp hinfo
    obtain ⟨hlisted, hinfoTy⟩ := ClassTable.mem_of_class? hclass
    have hhandle := h.types (List.ne_nil_of_mem hlisted) decl hdecl
    rw [hty] at hhandle
    have hinfoNamed := h.infos info hlisted
    rw [hname]
    refine ⟨hinfoNamed.mem, ?_⟩
    rw [← hinfoNamed.ty, hinfoTy]
    exact Option.some.inj hhandle
  have hnames : List.Forall₂ (fun name (image : ClassImage) => image.name ∈ unit.declaredNames
      ∧ Ty.named image.name = Ty.named name) state.unit.declaredNames images := by
    unfold CompilationUnit.declaredNames
    rw [h.package]
    exact List.forall₂_map_left_iff.mpr hnamed
  rw [h.declaredNames] at hnames
  exact List.forall₂_map_left_iff.mp hnames

/-- Between two passes over classes that succeed there are stubs, and bodies after them. -/
theorem Emits.stubs_bodies (h : state.Emits options) (hmethods : state.unit.methods ≠ [])
    {passes : List Pass}
    (hagain : ((state.run options .classes).1.after options passes).Emits options) :
    ∃ one two three, passes = one ++ .stubs :: two ++ .bodies :: three := by
  -- every method that is there at the end, is analyzed there
  have hlast : ∃ method ∈ ((state.run options .classes).1.after options passes).unit.methods,
      method.state = .analyzed := by
    have hlength : ((state.run options .classes).1.after options passes).unit.methods.length
        = state.unit.methods.length := (length_methods_after passes).trans
      (run_relates options state .classes).length_methods
    have hnonempty := List.length_pos_iff.mpr hmethods
    rw [← hlength] at hnonempty
    obtain ⟨method, hmethod⟩ := List.exists_mem_of_length_pos hnonempty
    exact ⟨method, hmethod, hagain.analyzed method hmethod⟩
  obtain ⟨method, hmethod, hanalyzed⟩ := hlast
  by_cases hstubs : .stubs ∈ passes
  · obtain ⟨one, rest, rfl⟩ := List.append_of_mem hstubs
    by_cases hbodies : .bodies ∈ rest
    · obtain ⟨two, three, rfl⟩ := List.append_of_mem hbodies
      exact ⟨one, two, three, by simp⟩
    · rw [after_append] at hmethod
      generalize hbefore : (state.run options .classes).1.after options one = before at hmethod
      have hstubbed : ∀ method ∈ (before.run options .stubs).1.unit.methods,
          method.state ≠ .analyzed := by
        refine (run_relates options before .stubs).forall_methods (P := fun _ => True)
          (fun _ after hstubbed _ => ?_) fun _ _ => trivial
        rw [show after.state = .stubbed from hstubbed]
        decide
      exact (not_analyzed_after hbodies hstubbed method hmethod hanalyzed).elim
  · have hgenerated := generated_after hstubs h.generated method hmethod
    rw [hanalyzed] at hgenerated
    cases hgenerated

/-! ## Runs -/

/-- Passes over one unit in any order. A pass over classes fails and leaves the output alone, or all
methods are analyzed and the output gets one class for each declaration. A unit that has methods
needs stubs and bodies again before another such pass succeeds. -/
theorem pass_sequences (options : Options) (registry : Registry) (unit : CompilationUnit)
    (diagnostics : Diagnostics) (output : Recorder) (passes : List Pass) :
    let state := (start registry unit diagnostics output).after options passes
    let next := (state.run options .classes).1
    (¬ state.Emits options → next.output = state.output)
    ∧ (state.Emits options → (∀ method ∈ state.unit.methods, method.state = .analyzed)
      ∧ ∃ images, unit.Emitted images ∧ next.output = state.output.replayAll images
        ∧ next.output.classes = state.output.classes ++ images.map ClassImage.relabelled)
    ∧ (unit.methods ≠ [] → ∀ between, state.Emits options → (next.after options between).Emits options →
      ∃ one two three, between = one ++ .stubs :: two ++ .bodies :: three) := by
  intro state next
  have hregular : state.Regular unit :=
    (regular_start registry unit diagnostics output).after options passes
  refine ⟨output_of_not_emits, fun hemits => ⟨hemits.analyzed, ?_⟩,
    fun hmethods between hemits hagain => hemits.stubs_bodies ?_ hagain⟩
  · obtain ⟨images, hok, houtput⟩ := hemits.generate
    refine ⟨images, hregular.emitted (CompilationUnit.generate_ok hok).1, houtput, ?_⟩
    rw [houtput, Recorder.classes_replayAll]
  · have hlength : state.unit.methods.length = unit.methods.length := length_methods_after passes
    exact List.length_pos_iff.mp (hlength ▸ List.length_pos_iff.mpr hmethods)

theorem pass_sequences_twice :
    let state := (start .builtin twiceUnit {} .empty).after {} [.stubs, .bodies]
    state.Emits {} ∧ ∃ images, twiceUnit.Emitted images
      ∧ (state.run {} .classes).1.output.classes = images.map ClassImage.relabelled := by
  intro state
  have hemits : state.Emits {} := by
    unfold Emits
    decide +kernel
  obtain ⟨-, houtput, -⟩ :=
    pass_sequences {} .builtin twiceUnit {} .empty [.stubs, .bodies]
  obtain ⟨-, images, hemitted, -, hclasses⟩ := houtput hemits
  exact ⟨hemits, images, hemitted, hclasses⟩

end Pipeline

end ClassCompiler
