import ClassCompiler.Proofs.Code.Registries
import ClassCompiler.Proofs.ErrorLimit
import ClassCompiler.Proofs.Linking
import ClassCompiler.Proofs.Unit.Bodiless
import ClassCompiler.Proofs.Unit.Known

/-!
# Bodies do not influence each other

Two units that differ in the bodies of some methods have the same stubs. A method with one body in
both is then analyzed alike, though the bodies before it may have made other arrays known; what is
reported for it is the same, and so is its code.

Handles are hashes, so arrays must not be taken for each other, nor for a name in the source.

* `CompilationUnit.TellsApart`
* `Compiler.bodies_independent`
-/

namespace ClassCompiler

open Check

/-! ## Two units -/

namespace CompilationUnit

/-- The names that are looked up for a unit, and the chains of names in front of members. -/
def spellings (unit : CompilationUnit) : List String :=
  unit.typeNames.map TypeName.name
    ++ (unit.methods.flatMap MethodDecl.nodes).filterMap Expr.qualifier?

/-- The registries that the bodies of two units may come to, which have the same stubs. -/
def bodySetting (compiler : Compiler) (one two : CompilationUnit) : Setting where
  base := (compiler.stubbed one).state
  arrays := (one.typeNames ++ two.typeNames).flatMap (compiler.stubbed one).state.arraysOf
  classes := []

/-- Handles tell the classes of a unit apart, and the arrays of two units. -/
structure TellsApart (compiler : Compiler) (one two : CompilationUnit) : Prop where
  declared : HandlesApart one.declaredNames
  arrays : ∀ a ∈ (bodySetting compiler one two).arrays, ∀ b ∈ (bodySetting compiler one two).arrays,
    Ty.named a.internalName = Ty.named b.internalName → a = b
  spelled : ∀ name ∈ one.spellings ++ two.spellings,
    ∀ array ∈ (bodySetting compiler one two).arrays,
      Ty.named (Registry.internalForm name) ≠ Ty.named array.internalName

end CompilationUnit

open CompilationUnit

/-! ## Stubs of two units -/

namespace Compiler

variable {compiler : Compiler} {one two unit : CompilationUnit}

theorem below_stubbed (compiler : Compiler) (unit : CompilationUnit) :
    (declaredRegistry unit compiler.registry).Below (compiler.stubbed unit).state :=
  (stubClasses_learns compiler.options (declaredTypes unit) _).1

theorem stubbed_bodySetting (hfounded : compiler.registry.Founded)
    (hnames : TellsApart compiler one two) : (bodySetting compiler one two).Stubbed := by
  have hdeclared : (declaredRegistry one compiler.registry).Closed :=
    (hfounded.closed.importClasses _).declareClasses _ _ _
  have hclosed : (compiler.stubbed one).state.Closed :=
    stubClasses_keepsClosed compiler.options _ _ hdeclared
  refine ⟨⟨hclosed, hnames.arrays, fun array harray => ?_,
    fun ty hty => (List.not_mem_nil hty).elim⟩, rfl, fun ty hty => ?_⟩
  · obtain ⟨name, -, hmem⟩ := List.mem_flatMap.mp harray
    exact Registry.supertypes_of_mem_arraysOf hmem
  · exact (below_stubbed compiler one).contains
      (contains_declaredRegistry one (hfounded.fixed ty hty))

/-- The names in the methods of the units mean the same in all registries of the setting. -/
theorem suits_bodySetting (hnames : TellsApart compiler one two)
    (hunit : unit ∈ [one, two]) {method : MethodDecl} (hmethod : method ∈ unit.methods) :
    method.Suits (bodySetting compiler one two) := by
  have hclear : ∀ name ∈ unit.spellings, (bodySetting compiler one two).Clear name := by
    intro name hname
    refine hnames.spelled name ?_
    rcases List.mem_pair.mp hunit with rfl | rfl
    · exact List.mem_append_left _ hname
    · exact List.mem_append_right _ hname
  have htypes : unit.typeNames ⊆ one.typeNames ++ two.typeNames := by
    rcases List.mem_pair.mp hunit with rfl | rfl
    · exact List.subset_append_left _ _
    · exact List.subset_append_right _ _
  intro body hbody s hs
  refine ⟨fun d hd name hname => ?_, fun decl hdecl => ?_⟩
  · refine hclear name (List.mem_append_right _ (List.mem_filterMap.mpr ⟨d, ?_, hname⟩))
    refine List.mem_flatMap.mpr ⟨method, hmethod, ?_⟩
    exact List.mem_flatMap.mpr ⟨body, Option.mem_toList.mpr hbody,
      Stmt.mem_nodesList.mpr ⟨s, hs, hd⟩⟩
  · have hname : decl.type ∈ unit.typeNames := by
      obtain ⟨owner, howner, hmember⟩ := CompilationUnit.mem_methods.mp hmethod
      refine List.mem_flatMap.mpr ⟨owner, howner, List.mem_append_right _ ?_⟩
      refine List.mem_flatMap.mpr ⟨.method method, hmember, List.mem_append_right _ ?_⟩
      refine List.mem_map_of_mem (List.mem_flatMap.mpr ⟨body, Option.mem_toList.mpr hbody, ?_⟩)
      exact Stmt.mem_declsList.mpr ⟨s, hs, hdecl⟩
    exact ⟨fun array harray => List.mem_flatMap.mpr ⟨decl.type, htypes hname, harray⟩,
      hclear _ (List.mem_append_left _ (List.mem_map_of_mem hname))⟩

/-- A method of a stubbed unit, where it is analyzed. -/
structure Ready (compiler : Compiler) (one two : CompilationUnit) (turn : Site × MethodDecl) :
    Prop where
  site : turn.1.Among fun ty => (compiler.stubbed one).state.contains ty = true
  suits : turn.2.Suits (bodySetting compiler one two)
  signed : turn.2.SignedIn (compiler.stubbed one).state

theorem stubbed_have_bodies (compiler : Compiler) (unit : CompilationUnit) :
    ∀ decl ∈ (compiler.stubbed unit).value.1, decl.Has (FromStub unit.methods) :=
  stubbed_have compiler unit (fun method hmethod => (method.stub_gives).mono fun _ hstub =>
    ⟨method, hmethod, hstub⟩) fun _ hmethod => hmethod

/-- The registry after the stubs knows all that the bodies see. -/
theorem stubbed_known (hfounded : compiler.registry.Founded) (unit : CompilationUnit) :
    (∀ info ∈ (compiler.analysis unit).value.2.classes.classes,
        info.Among fun ty => (compiler.stubbed unit).state.contains ty = true)
      ∧ ∀ decl ∈ (compiler.stubbed unit).value.1, decl.KnownIn (compiler.stubbed unit).state := by
  have hdeclared : (declaredRegistry unit compiler.registry).Closed :=
    (hfounded.closed.importClasses _).declareClasses _ _ _
  obtain ⟨hamong, hknown⟩ := (stubClasses_learns compiler.options (declaredTypes unit) _).2
    hdeclared (contains_declaredTypes unit compiler.registry)
  obtain ⟨-, hclasses, -, -⟩ := analysis_takes compiler unit
  refine ⟨fun info hinfo => ?_, hknown⟩
  rw [hclasses, classes_stubTable, List.mem_reverse] at hinfo
  obtain ⟨stub, hstub, rfl⟩ := List.mem_map.mp hinfo
  exact hamong stub hstub

/-- A stubbed method is analyzed in its class, among all classes of the unit. -/
theorem mem_bodySites {turn : Site × MethodDecl} (h : turn ∈ compiler.bodySites unit) :
    ∃ decl ∈ (compiler.stubbed unit).value.1, .method turn.2 ∈ decl.members
      ∧ ∃ owner, decl.ty = some owner
        ∧ turn.1 = { classes := (compiler.analysis unit).value.2.classes, owner } := by
  obtain ⟨-, hclasses, -, -⟩ := analysis_takes compiler unit
  rw [hclasses]
  obtain ⟨decl, hdecl, hturn⟩ := List.mem_flatMap.mp h
  unfold ClassDecl.sites at hturn
  split at hturn
  · cases hturn
  · next owner howner =>
    obtain ⟨method, hmethod, rfl⟩ := List.mem_map.mp hturn
    exact ⟨decl, hdecl, ClassDecl.mem_methods.mp hmethod, owner, howner, rfl⟩

theorem ready_bodySites (hfounded : compiler.registry.Founded)
    (hnames : TellsApart compiler one two) (hunit : unit ∈ [one, two])
    (hstate : (compiler.stubbed unit).state = (compiler.stubbed one).state) :
    ∀ turn ∈ compiler.bodySites unit, Ready compiler one two turn := by
  obtain ⟨hamong, hknown⟩ := stubbed_known hfounded unit
  rw [hstate] at hamong hknown
  intro turn hturn
  obtain ⟨decl, hdecl, hmember, owner, howner, hsite⟩ := mem_bodySites hturn
  obtain ⟨ty, hty, hcontains⟩ := (hknown decl hdecl).ty
  cases howner.symm.trans hty
  obtain ⟨parsed, hparsed, hstub⟩ :=
    (stubbed_have_bodies compiler unit decl hdecl).2 turn.2 hmember
  refine ⟨?_, ?_, (hknown decl hdecl).signed turn.2 hmember⟩
  · rw [hsite]
    exact ⟨hamong, hcontains⟩
  · have hsuits := suits_bodySetting hnames hunit hparsed
    unfold MethodDecl.Suits at hsuits ⊢
    rwa [hstub.body_eq]

/-! ## A method in both units -/

/-- What two lists have in common at one place. -/
theorem getElem?_common {α β γ : Type} {l l' : List α} {f : α → β} {g : α → γ}
    (hf : l'.map f = l.map f) (hinj : ∀ a b, f a = f b → g a = g b → a = b) {i : Nat} {c : γ}
    (h : (l.map g)[i]? = some c) (h' : (l'.map g)[i]? = some c) :
    ∃ a, l[i]? = some a ∧ l'[i]? = some a ∧ g a = c := by
  rw [List.getElem?_map] at h h'
  obtain ⟨a, ha, hc⟩ := Option.map_eq_some_iff.mp h
  obtain ⟨b, hb, hc'⟩ := Option.map_eq_some_iff.mp h'
  have hsame := congrArg (·[i]?) hf
  simp only [List.getElem?_map, ha, hb, Option.map_some, Option.some.injEq] at hsame
  have heq := hinj b a hsame (hc'.trans hc.symm)
  exact ⟨a, ha, heq ▸ hb, hc⟩

theorem fst_stubbing (compiler : Compiler) (unit : CompilationUnit) :
    (compiler.stubbing unit).map Prod.fst = unit.methods := by
  have hmethods : (declaredTypes unit).flatMap ClassDecl.methods = unit.methods := by
    unfold declaredTypes CompilationUnit.methods
    rw [List.flatMap_map]
    rfl
  rw [← hmethods]
  exact fst_stubTurns compiler.options isSome_ty_declaredTypes _

theorem snd_bodySites (compiler : Compiler) (unit : CompilationUnit) :
    (compiler.bodySites unit).map Prod.snd
      = (compiler.stubbing unit).map fun turn => (stubOutcome turn).value := by
  obtain ⟨hvalues, -⟩ := stubClasses_turns compiler.options (declaredTypes unit)
    isSome_ty_declaredTypes (declaredRegistry unit compiler.registry)
  refine Eq.trans ?_ hvalues
  unfold bodySites
  rw [List.map_flatMap]
  refine List.flatMap_congr fun decl hdecl => ?_
  obtain ⟨hsome, -⟩ := stubbed_have_bodies compiler unit decl hdecl
  obtain ⟨owner, howner⟩ := Option.isSome_iff_exists.mp hsome
  unfold ClassDecl.sites
  rw [howner, List.map_map]
  exact List.map_id _

/-- A method with one body in both units is stubbed alike, and analyzed in the same place. -/
theorem shared_turn (hsame : one.withoutBodies = two.withoutBodies) {i : Nat}
    {method : MethodDecl} (hone : one.methods[i]? = some method)
    (htwo : two.methods[i]? = some method) :
    (∃ turn, (compiler.stubbing one)[i]? = some turn ∧ (compiler.stubbing two)[i]? = some turn)
      ∧ ∃ turn, (compiler.bodySites one)[i]? = some turn
        ∧ (compiler.bodySites two)[i]? = some turn := by
  have hstubs := sameStubs_of_withoutBodies hsame compiler.options compiler.registry
  have hturns : (compiler.stubbing two).map (Prod.map MethodDecl.withoutBody id)
      = (compiler.stubbing one).map (Prod.map MethodDecl.withoutBody id) := by
    unfold stubbing
    rw [hstubs.declared]
    exact hstubs.turns
  rw [← fst_stubbing compiler] at hone htwo
  obtain ⟨turn, hturn, hturn', -⟩ := getElem?_common hturns (fun a b hab hfst =>
    Prod.ext hfst (Prod.mk.inj hab).2) hone htwo
  refine ⟨⟨turn, hturn, hturn'⟩, ?_⟩
  have hsites : (compiler.bodySites two).map (Prod.map id MethodDecl.withoutBody)
      = (compiler.bodySites one).map (Prod.map id MethodDecl.withoutBody) := by
    unfold bodySites stubbed
    rw [← ClassDecl.flatMap_sites_withoutBodies, ← ClassDecl.flatMap_sites_withoutBodies,
      hstubs.package, hstubs.declared, hstubs.stubs, hstubs.types]
  have hvalue : ∀ unit, (compiler.stubbing unit)[i]? = some turn →
      ((compiler.bodySites unit).map Prod.snd)[i]? = some (stubOutcome turn).value := by
    intro unit hunit
    rw [snd_bodySites, List.getElem?_map, hunit]
    rfl
  obtain ⟨site, hsite, hsite', -⟩ := getElem?_common hsites (fun a b hab hsnd =>
    Prod.ext (Prod.mk.inj hab).1 hsnd) (hvalue one hturn) (hvalue two hturn')
  exact ⟨site, hsite, hsite'⟩

theorem state_stubbed (hsame : one.withoutBodies = two.withoutBodies) (hunit : unit ∈ [one, two]) :
    (compiler.stubbed unit).state = (compiler.stubbed one).state := by
  rcases List.mem_pair.mp hunit with rfl | rfl
  · rfl
  · have hstubs := sameStubs_of_withoutBodies hsame compiler.options compiler.registry
    unfold stubbed
    rw [hstubs.declared]
    exact hstubs.state

section

variable (hfounded : compiler.registry.Founded) (hsame : one.withoutBodies = two.withoutBodies)
  (hnames : TellsApart compiler one two)

include hfounded hsame hnames

/-- The analysis of a method does not tell apart the registries that it may start from. -/
theorem bodySites_agree (hunit : unit ∈ [one, two]) : ∀ turn ∈ compiler.bodySites unit,
    (checkAt turn).Agrees (fun _ => true)
      (fun s t => (bodySetting compiler one two).Admits s ∧ (bodySetting compiler one two).Admits t)
      fun _ s t =>
        (bodySetting compiler one two).Admits s ∧ (bodySetting compiler one two).Admits t := by
  intro turn hturn
  have hready := ready_bodySites hfounded hnames hunit (state_stubbed hsame hunit) turn hturn
  have hsetting := stubbed_bodySetting hfounded hnames
  have hagrees := MethodDecl.check_agrees hsetting hready.site hready.suits hready.signed
  refine Agrees.mono (hagrees.of_imp fun s t h => ⟨h.1, h.2, ?_⟩) fun _ _ _ h => ⟨h.one, h.two⟩
  exact fun _ hty => (List.not_mem_nil hty).elim

theorem bodySites_settled (hunit : unit ∈ [one, two]) : ∀ turn ∈ compiler.bodySites unit,
    ∀ s, (bodySetting compiler one two).Admits s →
      (bodySetting compiler one two).Admits ((checkAt turn).run s).state := fun turn hturn s hs =>
  (bodySites_agree hfounded hsame hnames hunit turn hturn s s ⟨hs, hs⟩).2.2.1

theorem admits_stubbed (hunit : unit ∈ [one, two]) :
    (bodySetting compiler one two).Admits (compiler.stubbed unit).state := by
  rw [state_stubbed hsame hunit]
  exact (stubbed_bodySetting hfounded hnames).toRegular.admits_base

theorem admits_analysis (hunit : unit ∈ [one, two]) :
    (bodySetting compiler one two).Admits (compiler.analysis unit).state := by
  obtain ⟨-, -, hstate, -⟩ := analysis_takes compiler unit
  rw [hstate]
  exact finish_kept (bodySites_settled hfounded hsame hnames hunit)
    (admits_stubbed hfounded hsame hnames hunit)

/-- A method with one body in both units is analyzed alike, and what is reported for it is the
same. -/
theorem shared_outcome {i : Nat} {method : MethodDecl} (hone : one.methods[i]? = some method)
    (htwo : two.methods[i]? = some method) :
    ∃ analyzed errors, ∀ unit ∈ [one, two],
      (compiler.analysis unit).value.1.methods[i]? = some analyzed
        ∧ (compiler.methodErrors unit)[i]? = some errors := by
  have hunits : one ∈ [one, two] ∧ two ∈ [one, two] := by simp
  obtain ⟨⟨turn, hturn, hturn'⟩, site, hsite, hsite'⟩ := shared_turn hsame hone htwo
  obtain ⟨done, done', hdone, hdone', hvalue, herrors⟩ := outcomes_agree
    (bodySites_agree hfounded hsame hnames hunits.1)
    (bodySites_settled hfounded hsame hnames hunits.2)
    (admits_stubbed hfounded hsame hnames hunits.1)
    (admits_stubbed hfounded hsame hnames hunits.2) hsite hsite'
  have hboth : ∀ unit ∈ [one, two], (compiler.stubbing unit)[i]? = some turn
      ∧ ∃ body, (compiler.bodyOutcomes unit)[i]? = some body ∧ body.value = done.value
        ∧ body.errors = done.errors := by
    intro unit hunit
    rcases List.mem_pair.mp hunit with rfl | rfl
    · exact ⟨hturn, done, hdone, rfl, rfl⟩
    · exact ⟨hturn', done', hdone', hvalue, herrors⟩
  refine ⟨done.value, (stubOutcome turn).errors ++ done.errors, fun unit hunit => ?_⟩
  obtain ⟨hstub, body, hbody, hbodyValue, hbodyErrors⟩ := hboth unit hunit
  obtain ⟨hmethods, -⟩ := analysis_takes compiler unit
  constructor
  · rw [hmethods, List.getElem?_map, hbody, Option.map_some, hbodyValue]
  · refine List.getElem?_zipWith_eq_some.mpr ⟨turn, body, hstub, hbody, ?_⟩
    rw [hbodyErrors]

end

end Compiler

/-! ## Code -/

/-- The methods of final classes that stand for declarations; an implicit constructor comes before
them. -/
def CompilationUnit.declaredImages (options : Options) (unit : CompilationUnit)
    (finals : List ClassImage) : List MethodImage :=
  (List.zipWith (fun decl final =>
    final.methods.drop (if options.implicitConstructor && !decl.isInterface then 1 else 0))
      unit.types finals).flatten

namespace Compiler

variable {compiler : Compiler} {unit : CompilationUnit}

theorem flatten_zipWith_forall₂ {α β γ δ : Type} {R : γ → δ → Prop} {f : α → β → List δ}
    {g : α → List γ} {l : List α} {m : List β}
    (h : List.Forall₂ (fun a b => List.Forall₂ R (g a) (f a b)) l m) :
    List.Forall₂ R (l.flatMap g) (List.zipWith f l m).flatten := by
  induction h with
  | nil => exact .nil
  | cons hfirst _ ih => exact List.rel_append hfirst ih

/-- The image of a declared class, behind its implicit constructor. -/
theorem declaredMethods_become {options : Options} {last : Registry} {classes : ClassTable}
    {decl : ClassDecl} {stub : ClassStub} {image : ClassImage}
    (hshow : stub.Shows options last decl) (hclass : classes.class? stub.info.ty = some stub.info)
    (hok : (decl.generate options last classes).2 = .ok image) :
    List.Forall₂ (fun method image => ∃ made, image = made.relabelled ∧ method.Becomes last made)
      decl.methods (image.relabelled.methods.drop
        (if options.implicitConstructor && !decl.isInterface then 1 else 0)) := by
  obtain ⟨-, made, hmade, hbecome⟩ := hshow.generate hclass hok
  have hdrop : image.relabelled.methods.drop
      (if options.implicitConstructor && !decl.isInterface then 1 else 0)
        = made.map MethodImage.relabelled := by
    rw [ClassImage.methods_relabelled, hmade, ← hshow.isInterface]
    unfold ClassInfo.constructors hasImplicitConstructor
    split <;> rfl
  rw [hdrop, List.forall₂_map_right_iff]
  exact hbecome.imp fun method made h => ⟨made, rfl, h⟩

/-- Every method of a unit that compiles has its image, in the order of the declarations. -/
theorem declaredImages_become (hclosed : compiler.registry.Closed)
    (hnames : HandlesApart unit.declaredNames)
    (hsuccess : (compiler.compile unit .empty).isSuccess = true) :
    List.Forall₂ (fun method image => ∃ made, image = made.relabelled
        ∧ method.Becomes (compiler.analysis unit).state made)
      (compiler.analysis unit).value.1.methods
      (unit.declaredImages compiler.options (compiler.compile unit .empty).output.classes) := by
  obtain ⟨herrors, images, hok⟩ := images_of_success hsuccess
  obtain ⟨-, houtput, -, -⟩ := compile_of_images .empty herrors hok
  obtain ⟨stubs, -, hshows⟩ := analysis_shows hclosed hnames herrors
  obtain ⟨-, -, -, hheaders⟩ := analysis_stubs hclosed herrors
  have hclasses : (compiler.compile unit .empty).output.classes
      = images.map ClassImage.relabelled := by
    rw [houtput, Recorder.classes_replayAll]
    rfl
  have hinterfaces : unit.types.map ClassDecl.isInterface
      = (compiler.analysis unit).value.1.types.map ClassDecl.isInterface := by
    have hsame := congrArg (List.map ClassDecl.isInterface) hheaders
    unfold declaredTypes at hsame
    simp only [List.map_map] at hsame
    exact hsame.symm
  have hgenerated : List.Forall₂ (fun decl image => List.Forall₂ (fun method image =>
      ∃ made, image = made.relabelled ∧ method.Becomes (compiler.analysis unit).state made)
        decl.methods (image.relabelled.methods.drop
          (if compiler.options.implicitConstructor && !decl.isInterface then 1 else 0)))
      (compiler.analysis unit).value.1.types images := by
    refine ((List.forall₂_and_left _ _).mpr ⟨fun decl hdecl => exists_of_forall₂ hshows.flip hdecl,
      generateClasses_forall₂ hok⟩).imp ?_
    rintro decl image ⟨⟨stub, -, hshow, hclass⟩, hmake⟩
    exact declaredMethods_become hshow hclass hmake
  -- whether a class has a constructor of its own is the same before and after
  have hzip : ∀ types : List ClassDecl, List.zipWith (fun decl image =>
      image.relabelled.methods.drop
        (if compiler.options.implicitConstructor && !decl.isInterface then 1 else 0)) types images
      = List.zipWith (fun inInterface image => image.relabelled.methods.drop
        (if compiler.options.implicitConstructor && !inInterface then 1 else 0))
          (types.map ClassDecl.isInterface) images := fun types => by
    rw [List.zipWith_map_left]
  have hflat := flatten_zipWith_forall₂ hgenerated
  rw [hzip, ← hinterfaces, ← hzip] at hflat
  unfold CompilationUnit.declaredImages
  rw [hclasses, List.zipWith_map_right]
  exact hflat

end Compiler

/-! ## Code of a method in both units -/

/-- Members have the same names in registries that agree on the classes of their table. -/
theorem Expr.Bound.uses_eq {s t : Registry} {classes : ClassTable} {e : Expr}
    (hbound : e.Bound classes) (hclasses : ∀ info ∈ classes.classes, info.Among fun ty =>
      t.internalName ty = s.internalName ty ∧ t.descriptor ty = s.descriptor ty) :
    e.uses t = e.uses s := by
  have hfield : ∀ {ref : FieldRef} {name : String}, ref.IsOf classes name → ∀ op,
      ref.use t op name = ref.use s op name := by
    intro ref name href op
    obtain ⟨howner, hty⟩ := href.among hclasses
    unfold FieldRef.use
    rw [howner.1, hty.2]
  cases e with
  | name n text binding =>
    rcases binding with _ | _ | ref
    · rfl
    · rfl
    · show Place.uses t (if ref.isStatic then .static ref text else .member ref text)
        = Place.uses s (if ref.isStatic then .static ref text else .member ref text)
      split <;> simp only [Place.uses, hfield hbound]
  | field n target text ref =>
    cases ref with
    | none => rfl
    | some ref =>
      show (Place.member ref text).uses t = (Place.member ref text).uses s
      simp only [Place.uses, hfield hbound.1]
  | call n target text args method =>
    cases method with
    | none => rfl
    | some method =>
      obtain ⟨howner, -⟩ := MethodRef.IsOf.among hbound hclasses
      show [method.use t text] = [method.use s text]
      unfold MethodRef.use
      rw [howner.1]
  | _ => rfl

/-- The image of a method is the same for registries that agree on its members and exceptions. -/
theorem MethodDecl.Becomes.image_same {s t : Registry} {method : MethodDecl} {one two : MethodImage}
    (hone : method.Becomes s one) (htwo : method.Becomes t two)
    (huses : ∀ d ∈ method.nodes, d.uses t = d.uses s)
    (hexceptions : ∀ signature, method.signature = some signature →
      exceptionNames t signature.exceptions = exceptionNames s signature.exceptions) :
    two = one := by
  obtain ⟨signature, hsignature, hok, rfl⟩ := hone.image_eq
  obtain ⟨signature', hsignature', -, rfl⟩ := htwo.image_eq
  cases hsignature.symm.trans hsignature'
  rw [method.bodyCode_same signature.returnTy huses 0 () hok, hexceptions signature hsignature]

namespace Compiler

variable {compiler : Compiler} {one two unit : CompilationUnit}

/-- The signatures of analyzed methods are those of their stubs. -/
theorem signedIn_analysis (hfounded : compiler.registry.Founded) {method : MethodDecl}
    (hmethod : method ∈ (compiler.analysis unit).value.1.methods) :
    method.SignedIn (compiler.stubbed unit).state := by
  obtain ⟨hmethods, -, -, -⟩ := analysis_takes compiler unit
  obtain ⟨-, hknown⟩ := stubbed_known hfounded unit
  rw [hmethods] at hmethod
  obtain ⟨done, hdone, rfl⟩ := List.mem_map.mp hmethod
  obtain ⟨turn, hturn, before, rfl⟩ := exists_of_mem_outcomes hdone
  obtain ⟨decl, hdecl, hmember, -⟩ := mem_bodySites hturn
  obtain ⟨body, frame, state, hsame, -⟩ := turn.2.check_sameStub turn.1 before
  rw [hsame]
  exact (hknown decl hdecl).signed turn.2 hmember

end Compiler

/-! ## Compilations -/

theorem getElem?_of_forall₂ {α β : Type} {R : α → β → Prop} {l : List α} {m : List β}
    (h : List.Forall₂ R l m) {i : Nat} {a : α} (ha : l[i]? = some a) :
    ∃ b, m[i]? = some b ∧ R a b := by
  induction h generalizing i with
  | nil => cases ha
  | cons hfirst _ ih =>
    cases i with
    | zero =>
      cases ha
      exact ⟨_, rfl, hfirst⟩
    | succ i => exact ih ha

namespace Diagnostics

theorem errors_unlimited (errors : List CompileError) :
    ((withLimit none).reportAll errors).errors = errors := by
  have hall : ∀ sink : Diagnostics, sink.limit = none →
      (sink.reportAll errors).errors = sink.errors ++ errors := by
    induction errors with
    | nil => exact fun sink _ => (List.append_nil _).symm
    | cons first rest ih =>
      intro sink hlimit
      have hone : (sink.report first).errors = sink.errors ++ [first] := by
        unfold report
        rw [hlimit]
      have hrest := ih (sink.report first) ((sink.limit_report first).trans hlimit)
      rw [hone, List.append_assoc] at hrest
      exact hrest
  exact hall _ rfl

end Diagnostics

namespace Compiler

variable {compiler : Compiler} {one two unit : CompilationUnit}

/-- Without a limit all errors of the analysis are kept. -/
theorem errors_analysis_sublist (hlimit : compiler.options.errorLimit = none) (output : Recorder) :
    (compiler.analysis unit).errors.Sublist
      (compiler.compile unit output).diagnostics.errors := by
  rw [compile_eq, hlimit, Diagnostics.errors_unlimited]
  unfold reports
  split
  · next h _ => exact h ▸ List.nil_sublist _
  · exact List.Sublist.refl _

theorem declaredNames_eq (hsame : one.withoutBodies = two.withoutBodies) :
    two.declaredNames = one.declaredNames := by
  have hnames : ∀ unit : CompilationUnit, unit.withoutBodies.declaredNames = unit.declaredNames := by
    intro unit
    unfold declaredNames withoutBodies
    rw [List.map_map]
    rfl
  rw [← hnames, ← hsame, hnames]

/-- A method with one body in both units has one image, if both compile. -/
theorem shared_image (hfounded : compiler.registry.Founded)
    (hsame : one.withoutBodies = two.withoutBodies) (hnames : TellsApart compiler one two)
    (hsuccess : ∀ unit ∈ [one, two], (compiler.compile unit .empty).isSuccess = true) {i : Nat}
    {method : MethodDecl} (hanalyzed : ∀ unit ∈ [one, two],
      (compiler.analysis unit).value.1.methods[i]? = some method) :
    ∃ image, ∀ unit ∈ [one, two], (unit.declaredImages compiler.options
      (compiler.compile unit .empty).output.classes)[i]? = some image := by
  have hdeclared : ∀ unit ∈ [one, two], HandlesApart unit.declaredNames := by
    intro unit hunit
    rcases List.mem_pair.mp hunit with rfl | rfl
    · exact hnames.declared
    · exact declaredNames_eq hsame ▸ hnames.declared
  have himages : ∀ unit ∈ [one, two], ∃ made : MethodImage,
      (unit.declaredImages compiler.options
        (compiler.compile unit .empty).output.classes)[i]? = some made.relabelled
      ∧ method.Becomes (compiler.analysis unit).state made := by
    intro unit hunit
    obtain ⟨image, himage, made, rfl, hbecomes⟩ := getElem?_of_forall₂
      (declaredImages_become hfounded.closed (hdeclared unit hunit) (hsuccess unit hunit))
      (hanalyzed unit hunit)
    exact ⟨made, himage, hbecomes⟩
  have hunits : one ∈ [one, two] ∧ two ∈ [one, two] := by simp
  obtain ⟨made, himage, hbecomes⟩ := himages one hunits.1
  obtain ⟨made', himage', hbecomes'⟩ := himages two hunits.2
  -- what the stubs know has the same names in both registries
  have hsetting := (stubbed_bodySetting hfounded hnames).toRegular
  have hadmits := admits_analysis hfounded hsame hnames hunits.1
  have hadmits' := admits_analysis hfounded hsame hnames hunits.2
  have hnamed : ∀ ty, (compiler.stubbed one).state.contains ty = true →
      (compiler.analysis two).state.internalName ty = (compiler.analysis one).state.internalName ty
        ∧ (compiler.analysis two).state.descriptor ty
          = (compiler.analysis one).state.descriptor ty := fun ty hty =>
    ⟨hadmits.internalName hsetting hadmits' (hadmits.contains hty) (hadmits'.contains hty),
      hadmits.descriptor hsetting hadmits' (hadmits.contains hty) (hadmits'.contains hty)⟩
  have hmethod := List.mem_of_getElem? (hanalyzed one hunits.1)
  have hmade : made' = made := by
    refine hbecomes.image_same hbecomes' (fun d hd => ?_) fun signature hsignature => ?_
    · exact (analysis_bound compiler one method hmethod d hd).uses_eq fun info hinfo =>
        ((stubbed_known hfounded one).1 info hinfo).mono hnamed
    · obtain ⟨known, hknown, hsigned⟩ := signedIn_analysis hfounded hmethod
      cases hknown.symm.trans hsignature
      unfold exceptionNames
      refine List.map_congr_left fun ty hty => (hnamed ty (hsigned ty ?_)).1
      exact signature.exceptions_subset (List.mem_of_mem_filter hty)
  refine ⟨made.relabelled, fun unit hunit => ?_⟩
  rcases List.mem_pair.mp hunit with rfl | rfl
  · exact himage
  · exact hmade ▸ himage'

end Compiler

/-- A method with the same body in two units, which differ in bodies alone, has the same body, frame
and state after the analysis. The same errors are reported for it, and if both units compile, it has
the same code. -/
theorem Compiler.bodies_independent {one two : CompilationUnit} (options : Options)
    (hlimit : options.errorLimit = none) (hsame : one.withoutBodies = two.withoutBodies)
    (hnames : TellsApart { options } one two) {i : Nat} {method : MethodDecl}
    (hone : one.methods[i]? = some method) (htwo : two.methods[i]? = some method) :
    let compiler : Compiler := { options }
    (∃ analyzed, ∀ unit ∈ [one, two],
        (compiler.analysis unit).value.1.methods[i]? = some analyzed)
      ∧ (∃ errors, ∀ unit ∈ [one, two], (compiler.methodErrors unit)[i]? = some errors
        ∧ errors.Sublist (compiler.compile unit .empty).diagnostics.errors)
      ∧ ((∀ unit ∈ [one, two], (compiler.compile unit .empty).isSuccess = true) →
        ∃ image, ∀ unit ∈ [one, two], (unit.declaredImages options
          (compiler.compile unit .empty).output.classes)[i]? = some image) := by
  have hfounded : (Compiler.mk options .builtin).registry.Founded := Registry.founded_builtin
  obtain ⟨analyzed, errors, hshared⟩ := shared_outcome hfounded hsame hnames hone htwo
  refine ⟨⟨analyzed, fun unit hunit => (hshared unit hunit).1⟩, ⟨errors, fun unit hunit =>
    ⟨(hshared unit hunit).2, ?_⟩⟩, fun hsuccess => ?_⟩
  · have hmem := List.mem_of_getElem? (hshared unit hunit).2
    exact (methodErrors_reported _ unit hmem).trans (errors_analysis_sublist hlimit .empty)
  · exact shared_image hfounded hsame hnames hsuccess fun unit hunit => (hshared unit hunit).1

/-- `class Grid { static void clear() { ‹body› } static int head(int[] row) { int[] copy = row;
return copy[0]; } }` -/
def gridUnit (body : List Stmt) : CompilationUnit where
  file := "Grid.java"
  package := none
  imports := []
  types :=
    [{ line := 1
       mods := .accPublic
       name := "Grid"
       isInterface := false
       superclass := none
       interfaces := []
       members :=
        [.method
            { line := 2
              mods := .accStatic
              name := "clear"
              returnType := ⟨"void", 0, 2⟩
              params := []
              exceptions := []
              body := some ⟨body, 2⟩ },
          .method
            { line := 3
              mods := .accStatic
              name := "head"
              returnType := ⟨"int", 0, 3⟩
              params := [⟨3, "row", ⟨"int", 1, 3⟩⟩]
              exceptions := []
              body := some ⟨[
                .declare
                  { type := ⟨"int", 1, 3⟩
                    declarators := [⟨"copy", some (.name { line := 3 } "row" none), 3, none⟩]
                    line := 3 },
                .ret (some (.index { line := 3 } (.name { line := 3 } "copy" none)
                  (.literal { line := 3 } (.int 0)))) 3], 3⟩ }] }]

/-- `int[][] cells;` makes an array known that nothing else names. -/
def cellsBody : List Stmt :=
  [.declare { type := ⟨"int", 2, 2⟩, declarators := [⟨"cells", none, 2, none⟩], line := 2 }]

theorem bodies_independent_grid :
    Options.errorLimit {} = none
      ∧ (gridUnit []).withoutBodies = (gridUnit cellsBody).withoutBodies
      ∧ TellsApart {} (gridUnit []) (gridUnit cellsBody)
      ∧ ∃ method, (gridUnit []).methods[1]? = some method
        ∧ (gridUnit cellsBody).methods[1]? = some method
        ∧ ∃ image, ∀ unit ∈ [gridUnit [], gridUnit cellsBody],
          (unit.declaredImages {} (Compiler.compile {} unit .empty).output.classes)[1]?
            = some image := by
  have hnames : TellsApart {} (gridUnit []) (gridUnit cellsBody) :=
    ⟨by decide +kernel, by decide +kernel, by decide +kernel⟩
  have hsame : (gridUnit []).withoutBodies = (gridUnit cellsBody).withoutBodies := rfl
  have hone : (Compiler.compile {} (gridUnit []) .empty).isSuccess = true := by decide +kernel
  have htwo : (Compiler.compile {} (gridUnit cellsBody) .empty).isSuccess = true := by
    decide +kernel
  refine ⟨rfl, hsame, hnames, _, rfl, rfl, ?_⟩
  obtain ⟨-, -, himage⟩ := Compiler.bodies_independent {} rfl hsame hnames
    (show (gridUnit []).methods[1]? = some _ from rfl) rfl
  refine himage fun unit hunit => ?_
  rcases List.mem_pair.mp hunit with rfl | rfl
  · exact hone
  · exact htwo

end ClassCompiler
