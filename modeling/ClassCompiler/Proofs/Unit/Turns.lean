import ClassCompiler.Proofs.Agreement
import ClassCompiler.Proofs.Unit.Outlines

/-!
# Methods in turn

A pass takes the methods of a unit one after the other, and what it does to one leads to the state
that it takes up the next one in. So a pass comes down to a list of turns, each a method with the
state in front of it, and what happens to a method is the outcome of its turn.

* `Check.turns`, `Check.outcomes`
* `stubTurns`, `stubClasses_turns`: the stubs of the methods of a unit
* `ClassDecl.sites`, `ClassDecl.checkList_takes`: the analysis of the methods of a unit
* `Compiler.methodErrors`: what is reported for each method
-/

namespace ClassCompiler

open Check StubState

namespace Check

variable {σ α β γ : Type} {step : α → Check σ β}

/-- The items of a list, each with the state that the items before it lead to. -/
def turns (step : α → Check σ β) : List α → σ → List (α × σ)
  | [], _ => []
  | first :: rest, state => (first, state) :: turns step rest ((step first).run state).state

/-- The state that the items of a list lead to. -/
def finish (step : α → Check σ β) (items : List α) (state : σ) : σ :=
  items.foldl (fun state item => ((step item).run state).state) state

/-- What a step comes to on each item of a list. -/
def outcomes (step : α → Check σ β) (items : List α) (state : σ) : List (Checked σ β) :=
  (turns step items state).map fun turn => (step turn.1).run turn.2

@[simp] theorem fst_turns (step : α → Check σ β) (items : List α) (state : σ) :
    (turns step items state).map Prod.fst = items := by
  induction items generalizing state with
  | nil => rfl
  | cons first rest ih => exact congrArg (first :: ·) (ih _)

theorem exists_of_mem_outcomes {items : List α} {state : σ} {done : Checked σ β}
    (h : done ∈ outcomes step items state) : ∃ a ∈ items, ∃ before, done = (step a).run before := by
  obtain ⟨turn, hturn, rfl⟩ := List.mem_map.mp h
  have hitem := List.mem_map_of_mem (f := Prod.fst) hturn
  rw [fst_turns] at hitem
  exact ⟨turn.1, hitem, turn.2, rfl⟩

theorem turns_append (items items' : List α) (state : σ) :
    turns step (items ++ items') state
      = turns step items state ++ turns step items' (finish step items state) := by
  induction items generalizing state with
  | nil => rfl
  | cons first rest ih => exact congrArg (_ :: ·) (ih _)

theorem outcomes_append (items items' : List α) (state : σ) :
    outcomes step (items ++ items') state
      = outcomes step items state ++ outcomes step items' (finish step items state) := by
  unfold outcomes
  rw [turns_append, List.map_append]

theorem finish_append (items items' : List α) (state : σ) :
    finish step (items ++ items') state = finish step items' (finish step items state) :=
  List.foldl_append

/-- What the items keep, they keep to the end. -/
theorem finish_kept {kept : σ → Prop} {items : List α}
    (h : ∀ a ∈ items, ∀ s, kept s → kept ((step a).run s).state) {state : σ} (hstate : kept state) :
    kept (finish step items state) := by
  induction items generalizing state with
  | nil => exact hstate
  | cons first rest ih =>
    exact ih (fun a ha => h a (List.mem_cons_of_mem _ ha)) (h first List.mem_cons_self state hstate)

/-- The pass takes the items in turn, and does nothing else. -/
def Takes (pass : Check σ γ) (step : α → Check σ β) (items : List α) (view : γ → List β) : Prop :=
  ∀ state, view (pass.run state).value = (outcomes step items state).map Checked.value
    ∧ (pass.run state).errors = (outcomes step items state).flatMap Checked.errors
    ∧ (pass.run state).state = finish step items state

theorem takes_pure {view : γ → List β} {out : γ} (h : view out = []) :
    (pure out : Check σ γ).Takes step [] view := fun _ => ⟨h, rfl, rfl⟩

theorem takes_bind {δ ε : Type} {first : Check σ γ} {rest : Check σ δ} (join : γ → δ → ε)
    {items items' : List α} {view : γ → List β} {view' : δ → List β} {view'' : ε → List β}
    (h : first.Takes step items view) (h' : rest.Takes step items' view')
    (hjoin : ∀ one two, view'' (join one two) = view one ++ view' two) :
    (do let one ← first; let two ← rest; return join one two).Takes step (items ++ items')
      view'' := by
  intro state
  obtain ⟨hvalue, herrors, hstate⟩ := h state
  obtain ⟨hvalue', herrors', hstate'⟩ := h' (first.run state).state
  rw [hstate] at hvalue' herrors' hstate'
  simp only [run_bind, run_pure, List.append_nil, hstate]
  refine ⟨?_, ?_, ?_⟩
  · rw [hjoin, hvalue, hvalue', outcomes_append, List.map_append]
  · rw [herrors, herrors', outcomes_append, List.flatMap_append]
  · rw [hstate', finish_append]

/-- In the states of a kind, what comes before an item does not matter for it. -/
theorem outcomes_agree {kept : σ → Prop} {items items' : List α}
    (hagree : ∀ a ∈ items, (step a).Agrees (fun _ => true) (fun s t => kept s ∧ kept t)
      fun _ s t => kept s ∧ kept t)
    (hkept : ∀ a ∈ items', ∀ s, kept s → kept ((step a).run s).state) {s t : σ} (hs : kept s)
    (ht : kept t) {i : Nat} {a : α} (hi : items[i]? = some a) (hi' : items'[i]? = some a) :
    ∃ done done', (outcomes step items s)[i]? = some done
      ∧ (outcomes step items' t)[i]? = some done'
      ∧ done'.value = done.value ∧ done'.errors = done.errors := by
  induction items generalizing items' s t i with
  | nil => cases hi
  | cons first rest ih =>
    cases items' with
    | nil => cases hi'
    | cons first' rest' =>
      have hfirst := hagree first List.mem_cons_self
      cases i with
      | zero =>
        cases hi
        cases hi'
        obtain ⟨hvalue, herrors, -⟩ := hfirst s t ⟨hs, ht⟩
        rw [List.filter_true, List.filter_true] at herrors
        exact ⟨_, _, rfl, rfl, hvalue, herrors⟩
      | succ i =>
        exact ih (fun b hb => hagree b (List.mem_cons_of_mem _ hb))
          (fun b hb => hkept b (List.mem_cons_of_mem _ hb)) (hfirst s s ⟨hs, hs⟩).2.2.1
          (hkept first' List.mem_cons_self t ht) hi hi'

end Check

/-! ## Stubs -/

/-- The implicit constructor comes after the fields. -/
def StubState.withConstructor (options : Options) (state : StubState) : StubState :=
  if hasImplicitConstructor options state.stub.info then
    { state with
      stub := { state.stub with
        image := state.stub.image.addMethod (implicitConstructor state.stub.image.superName) } }
  else state

theorem stubMembers_eq (options : Options) (members : List Member) :
    stubMembers options members = (do
      let members ← stubFields members
      Check.modify (withConstructor options)
      stubMethods members) := rfl

namespace ClassDecl

/-- A class with its supertypes, in front of its members. -/
def stubOutline (ty : Ty) (decl : ClassDecl) (registry : Registry) : StubState :=
  let found := decl.resolveSupertypes.run registry
  let later := found.state.setSupertypes ty (some found.value.1) found.value.2
  ⟨later, decl.outline ty found.value.1 found.value.2 later⟩

/-- A class in front of its methods. -/
def stubStart (options : Options) (ty : Ty) (decl : ClassDecl) (registry : Registry) : StubState :=
  ((stubFields decl.members).run (decl.stubOutline ty registry)).state.withConstructor options

theorem run_stub (options : Options) (ty : Ty) (decl : ClassDecl) (registry : Registry) :
    (decl.stub options ty).run registry
      = let fields := (stubFields decl.members).run (decl.stubOutline ty registry)
        let done := (stubMethods fields.value).run (decl.stubStart options ty registry)
        { value := ({ decl with members := done.value }, done.state.stub)
          state := done.state.registry
          errors := (decl.resolveSupertypes.run registry).errors
            ++ (fields.errors ++ done.errors) } := rfl

end ClassDecl

/-- The stubs of the methods of some classes, in turn. -/
def stubTurns (options : Options) : List ClassDecl → Registry → List (MethodDecl × StubState)
  | [], _ => []
  | first :: rest, registry =>
    match first.ty with
    | none => stubTurns options rest registry
    | some ty =>
      turns MethodDecl.stub first.methods (first.stubStart options ty registry)
        ++ stubTurns options rest ((first.stub options ty).run registry).state

theorem fst_stubTurns (options : Options) {decls : List ClassDecl}
    (h : ∀ decl ∈ decls, decl.ty.isSome = true) (registry : Registry) :
    (stubTurns options decls registry).map Prod.fst = decls.flatMap ClassDecl.methods := by
  induction decls generalizing registry with
  | nil => rfl
  | cons first rest ih =>
    obtain ⟨ty, hty⟩ := Option.isSome_iff_exists.mp (h first List.mem_cons_self)
    have hrest := ih (fun decl hdecl => h decl (List.mem_cons_of_mem _ hdecl))
      ((first.stub options ty).run registry).state
    rw [stubTurns, hty, List.flatMap_cons, ← hrest, List.map_append, fst_turns]

theorem filterMap_method?_stubFields (members : List Member) :
    (stubFields members).Gives fun out =>
      out.filterMap Member.method? = members.filterMap Member.method? := by
  refine (stubFields_relates members).mono fun out hout => ?_
  induction hout with
  | nil => rfl
  | cons hfirst _ ih =>
    cases hfirst with
    | field before after => exact ih
    | method heq =>
      cases heq
      exact congrArg (_ :: ·) ih

theorem stubMethods_takes (members : List Member) :
    (stubMethods members).Takes MethodDecl.stub (members.filterMap Member.method?)
      fun out => out.filterMap Member.method? := by
  induction members with
  | nil => exact takes_pure rfl
  | cons first rest ih =>
    cases first with
    | field field =>
      intro state
      obtain ⟨hvalue, herrors, hstate⟩ := ih state
      refine ⟨hvalue, ?_, hstate⟩
      exact (List.append_nil _).trans herrors
    | method method =>
      have hone : method.stub.Takes MethodDecl.stub [method] fun out => [out] := fun state =>
        ⟨rfl, (List.append_nil _).symm, rfl⟩
      exact takes_bind (fun one others => Member.method one :: others) hone ih
        fun _ _ => rfl

/-- What a method comes to in its turn. -/
abbrev stubOutcome (turn : MethodDecl × StubState) : Checked StubState MethodDecl :=
  turn.1.stub.run turn.2

theorem ClassDecl.stub_turns (options : Options) (ty : Ty) (decl : ClassDecl)
    (registry : Registry) :
    let turns := turns MethodDecl.stub decl.methods (decl.stubStart options ty registry)
    ((decl.stub options ty).run registry).value.1.methods
        = turns.map (fun turn => (stubOutcome turn).value)
      ∧ (turns.flatMap fun turn => (stubOutcome turn).errors).Sublist
        ((decl.stub options ty).run registry).errors := by
  have hmethods : ((stubFields decl.members).run (decl.stubOutline ty registry)).value.filterMap
      Member.method? = decl.methods :=
    (filterMap_method?_stubFields decl.members _).trans decl.methods_eq.symm
  obtain ⟨hvalue, herrors, -⟩ := stubMethods_takes
    ((stubFields decl.members).run (decl.stubOutline ty registry)).value
    (decl.stubStart options ty registry)
  rw [hmethods] at hvalue herrors
  rw [run_stub]
  dsimp only
  constructor
  · rw [methods_eq]
    refine hvalue.trans ?_
    rw [outcomes, List.map_map]
    rfl
  · rw [herrors, outcomes, List.flatMap_map]
    exact (List.sublist_append_right _ _).trans (List.sublist_append_right _ _)

theorem run_stubClasses_cons (options : Options) {first : ClassDecl} {ty : Ty}
    (hty : first.ty = some ty) (rest : List ClassDecl) (registry : Registry) :
    (stubClasses options (first :: rest)).run registry
      = let one := (first.stub options ty).run registry
        let others := (stubClasses options rest).run one.state
        { value := (one.value.1 :: others.value.1, one.value.2 :: others.value.2)
          state := others.state
          errors := one.errors ++ (others.errors ++ []) } := by
  conv => lhs; unfold stubClasses
  rw [hty]
  rfl

/-- The stubbed methods are what the turns come to, and so are their errors. -/
theorem stubClasses_turns (options : Options) (decls : List ClassDecl)
    (h : ∀ decl ∈ decls, decl.ty.isSome = true) (registry : Registry) :
    ((stubClasses options decls).run registry).value.1.flatMap ClassDecl.methods
        = (stubTurns options decls registry).map (fun turn => (stubOutcome turn).value)
      ∧ ((stubTurns options decls registry).flatMap fun turn => (stubOutcome turn).errors).Sublist
        ((stubClasses options decls).run registry).errors := by
  induction decls generalizing registry with
  | nil => exact ⟨rfl, List.Sublist.refl _⟩
  | cons first rest ih =>
    obtain ⟨ty, hty⟩ := Option.isSome_iff_exists.mp (h first List.mem_cons_self)
    obtain ⟨hrest, hsub⟩ := ih (fun decl hdecl => h decl (List.mem_cons_of_mem _ hdecl))
      ((first.stub options ty).run registry).state
    obtain ⟨hfirst, hsub'⟩ := first.stub_turns options ty registry
    have hturns : stubTurns options (first :: rest) registry
        = turns MethodDecl.stub first.methods (first.stubStart options ty registry)
          ++ stubTurns options rest ((first.stub options ty).run registry).state := by
      rw [stubTurns, hty]
    rw [hturns, run_stubClasses_cons options hty, List.map_append, List.flatMap_append]
    dsimp only
    rw [List.flatMap_cons, hrest, hfirst, List.append_nil]
    exact ⟨rfl, hsub'.append hsub⟩

/-! ## Bodies -/

/-- The methods of a class, each where it is analyzed. -/
def ClassDecl.sites (classes : ClassTable) (decl : ClassDecl) : List (Site × MethodDecl) :=
  match decl.ty with
  | none => []
  | some owner => decl.methods.map fun method => ({ classes, owner }, method)

/-- The analysis of a method where it is. -/
abbrev checkAt (turn : Site × MethodDecl) : Check Registry MethodDecl := turn.2.check turn.1

theorem Member.checkList_takes (site : Site) {members : List Member}
    (h : MethodsHave (fun method => method.state = .stubbed) members) :
    (checkList site members).Takes checkAt
      ((members.filterMap Member.method?).map fun method => (site, method))
      fun out => out.filterMap Member.method? := by
  induction members with
  | nil => exact takes_pure rfl
  | cons first rest ih =>
    have hrest := ih h.tail
    cases first with
    | field field =>
      intro state
      obtain ⟨hvalue, herrors, hstate⟩ := hrest state
      refine ⟨hvalue, ?_, hstate⟩
      exact (List.append_nil _).trans herrors
    | method method =>
      have hcheck : Member.check site (.method method) = .method <$> method.check site :=
        if_pos (h method List.mem_cons_self)
      have hone : (Member.check site (.method method)).Takes checkAt [(site, method)]
          fun out => out.method?.toList := by
        rw [hcheck]
        exact fun state => ⟨rfl, rfl, rfl⟩
      refine takes_bind List.cons hone hrest fun one others => ?_
      cases one <;> rfl

/-- The analysis of a declared class. -/
theorem ClassDecl.check_declared (classes : ClassTable) {decl : ClassDecl} {owner : Ty}
    (h : decl.ty = some owner) :
    decl.check classes = (do
      let members ← Member.checkList { classes, owner } decl.members
      return { decl with members }) := by
  unfold check
  rw [h]

theorem ClassDecl.checkList_takes (classes : ClassTable) {decls : List ClassDecl}
    (h : ∀ decl ∈ decls, decl.Has fun method => method.state = .stubbed) :
    (checkList classes decls).Takes checkAt (decls.flatMap (ClassDecl.sites classes))
      fun out => out.flatMap ClassDecl.methods := by
  induction decls with
  | nil => exact takes_pure rfl
  | cons first rest ih =>
    obtain ⟨hsome, hmethods⟩ := h first List.mem_cons_self
    obtain ⟨owner, howner⟩ := Option.isSome_iff_exists.mp hsome
    have hsites : first.sites classes
        = (first.members.filterMap Member.method?).map fun method => (⟨classes, owner⟩, method) := by
      unfold sites
      rw [howner, first.methods_eq]
    have hfirst : (first.check classes).Takes checkAt (first.sites classes) ClassDecl.methods := by
      intro state
      obtain ⟨hvalue, herrors, hstate⟩ := Member.checkList_takes ⟨classes, owner⟩ hmethods state
      rw [first.check_declared classes howner, hsites]
      refine ⟨(ClassDecl.methods_eq _).trans hvalue, ?_, hstate⟩
      exact (List.append_nil _).trans herrors
    exact takes_bind List.cons hfirst
      (ih fun decl hdecl => h decl (List.mem_cons_of_mem _ hdecl)) fun _ _ => rfl

/-! ## Units -/

namespace Compiler

variable (compiler : Compiler) (unit : CompilationUnit)

/-- The stubs of a unit, once all its classes are declared. -/
def stubbed : Checked Registry (List ClassDecl × List ClassStub) :=
  (stubClasses compiler.options (declaredTypes unit)).run (declaredRegistry unit compiler.registry)

/-- The methods of a unit, each in front of its stub. -/
def stubbing : List (MethodDecl × StubState) :=
  stubTurns compiler.options (declaredTypes unit) (declaredRegistry unit compiler.registry)

/-- The stubbed methods of a unit, each where it is analyzed. -/
def bodySites : List (Site × MethodDecl) :=
  (compiler.stubbed unit).value.1.flatMap
    (ClassDecl.sites (stubTable unit.package (compiler.stubbed unit).value.2))

/-- What the analysis of each body comes to. -/
def bodyOutcomes : List (Checked Registry MethodDecl) :=
  outcomes checkAt (compiler.bodySites unit) (compiler.stubbed unit).state

/-- What is reported for each method: for its stub, and then for its body. -/
def methodErrors : List (List CompileError) :=
  List.zipWith (fun turn body => (stubOutcome turn).errors ++ body.errors)
    (compiler.stubbing unit) (compiler.bodyOutcomes unit)

theorem stubbed_have {P Q : MethodDecl → Prop} (hstub : ∀ method, P method → method.stub.Gives Q)
    (h : ∀ method ∈ unit.methods, P method) :
    ∀ decl ∈ (compiler.stubbed unit).value.1, decl.Has Q := by
  refine stubClasses_have compiler.options hstub (fun decl hdecl => ?_) _
  obtain ⟨given, hgiven, rfl⟩ := List.mem_map.mp hdecl
  exact ⟨rfl, fun method hmethod =>
    h method (CompilationUnit.mem_methods.mpr ⟨given, hgiven, hmethod⟩)⟩

/-- The analysis takes the methods of a unit in turn. -/
theorem analysis_takes :
    (compiler.analysis unit).value.1.methods = (compiler.bodyOutcomes unit).map Checked.value
      ∧ (compiler.analysis unit).value.2.classes
        = stubTable unit.package (compiler.stubbed unit).value.2
      ∧ (compiler.analysis unit).state
        = finish checkAt (compiler.bodySites unit) (compiler.stubbed unit).state
      ∧ ((compiler.stubbed unit).errors
          ++ (compiler.bodyOutcomes unit).flatMap Checked.errors).Sublist
        (compiler.analysis unit).errors := by
  have hstubbed := stubbed_have compiler unit (P := fun _ => True)
    (Q := fun method => method.state = .stubbed) (fun method _ =>
      (method.stub_gives).mono fun _ h => h.isStubbed) fun _ _ => trivial
  obtain ⟨hvalue, herrors, hstate⟩ := ClassDecl.checkList_takes
    (stubTable unit.package (compiler.stubbed unit).value.2) hstubbed (compiler.stubbed unit).state
  unfold analysis
  rw [value_analyze, state_analyze, errors_analyze]
  refine ⟨hvalue, rfl, hstate, ?_⟩
  refine List.Sublist.trans ?_ (List.sublist_append_right _ _)
  refine List.Sublist.trans ?_ (List.sublist_append_right _ _)
  unfold bodyOutcomes bodySites
  rw [← herrors]
  exact (List.Sublist.refl _).append (List.sublist_append_left _ _)

/-- Every error of a method is reported. -/
theorem methodErrors_reported {errors : List CompileError} (h : errors ∈ compiler.methodErrors unit) :
    errors.Sublist (compiler.analysis unit).errors := by
  obtain ⟨-, -, -, hreported⟩ := analysis_takes compiler unit
  obtain ⟨-, hstubs⟩ := stubClasses_turns compiler.options (declaredTypes unit)
    isSome_ty_declaredTypes (declaredRegistry unit compiler.registry)
  obtain ⟨i, hi⟩ := List.mem_iff_getElem?.mp h
  obtain ⟨turn, body, hturn, hbody, rfl⟩ := List.getElem?_zipWith_eq_some.mp hi
  rw [List.flatMap_def] at hstubs hreported
  have hturn' := List.sublist_flatten_of_mem
    (List.mem_map_of_mem (f := fun turn => (stubOutcome turn).errors) (List.mem_of_getElem? hturn))
  have hbody' := List.sublist_flatten_of_mem
    (List.mem_map_of_mem (f := Checked.errors) (List.mem_of_getElem? hbody))
  exact ((hturn'.trans hstubs).append hbody').trans hreported

end Compiler

end ClassCompiler
