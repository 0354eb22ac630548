import ClassCompiler.Proofs.Body.Repeated
import ClassCompiler.Proofs.Unit.Known

/-!
# Members stubbed again

A class that was stubbed without an error is stubbed once more, when its bodies have been analyzed
and its methods are in another state. Over a registry that knows all that the first stub ended with,
every name means what it meant, so the members come out as before, and so does the stub.

* `Check.Settles`: a run on a registry that is repeated over every larger one
* `StubState.Repeats`: the same for a class under construction
* `FieldDecl.stub_repeats`, `MethodDecl.stub_repeats`, `stubMembers_repeats`
-/

namespace ClassCompiler

open Check StubState

/-! ## Resolving -/

/-- A run of a step adds to the registry, and over every registry that knows all that it ended with,
the step comes to the same and adds nothing. -/
structure Check.Settles {α : Type} (step : Check Registry α) (s : Registry) (a : α)
    (e : Registry) : Prop where
  part : s.PartOf e
  again : ∀ t, e.PartOf t → step.Answers t a t

namespace Check.Settles

variable {α β : Type} {step : Check Registry α} {s m e : Registry} {a : α} {b : β}

theorem pure : (pure a : Check Registry α).Settles s a s := ⟨.refl s, fun _ _ => answers_pure⟩

theorem bind {next : α → Check Registry β} (h : step.Settles s a m)
    (hnext : (next a).Settles m b e) : (step >>= next).Settles s b e :=
  ⟨h.part.trans hnext.part, fun t ht =>
    answers_bind (h.again t (hnext.part.trans ht)) (hnext.again t ht)⟩

end Check.Settles

/-- In a closed registry, the types that a step finds are registered. -/
theorem Check.Clean.found {α : Type} {step : Check Registry α} {s : Registry}
    {Q : α → Registry → Prop} {types : α → List Ty} (h : step.Clean s Q) (hs : s.Closed)
    (hfinds : step.Finds types) :
    step.Clean s fun a e => Q a e ∧ e.Closed ∧ ∀ ty ∈ types a, e.contains ty = true :=
  fun herrors => ⟨h herrors, (hfinds s).2 hs⟩

section

variable {s : Registry}

theorem resolveName_settles (hs : s.Closed) (valueOnly : Bool) (name : TypeName) :
    (resolveName valueOnly name).Clean s fun ty e =>
      (resolveName valueOnly name).Settles s ty e := by
  intro herrors
  have hname : s.resolveOrAny valueOnly name
      = ((s.resolveOrAny valueOnly name).1, (s.resolveOrAny valueOnly name).2.1, []) :=
    Prod.ext rfl (Prod.ext rfl herrors)
  refine ⟨Registry.partOf_resolveOrAny s valueOnly name, fun t ht => ?_⟩
  unfold Answers resolveName Check.run
  dsimp only
  rw [ht.resolveOrAny hs hname]

theorem resolveSupertype_answers {interfaceWanted : Bool} {name : TypeName} {ty : Ty} {e : Registry}
    (hname : s.resolve name = .ok (ty, e))
    (hkind : e.kind? ty = some (if interfaceWanted then .interface else .plainClass)) :
    (resolveSupertype interfaceWanted name).Answers s (some ty) e := by
  unfold Answers resolveSupertype Check.run
  dsimp only
  rw [hname]
  exact if_pos hkind

theorem resolveSupertype_settles (hs : s.Closed) (interfaceWanted : Bool) (name : TypeName) :
    (resolveSupertype interfaceWanted name).Clean s fun ty e =>
      (resolveSupertype interfaceWanted name).Settles s ty e := by
  intro herrors
  cases hname : s.resolve name with
  | error error =>
    unfold resolveSupertype Check.run at herrors
    dsimp only at herrors
    rw [hname] at herrors
    cases herrors
  | ok found =>
    obtain ⟨ty, e⟩ := found
    obtain ⟨-, hty⟩ := hs.resolve hname
    by_cases hkind : e.kind? ty = some (if interfaceWanted then .interface else .plainClass)
    · have hrun : (resolveSupertype interfaceWanted name).run s = _ :=
        resolveSupertype_answers hname hkind
      rw [hrun]
      refine ⟨Registry.partOf_resolve hname, fun t ht => ?_⟩
      exact resolveSupertype_answers (ht.resolve hs hname) (by rw [ht.kind? hty, hkind])
    · unfold resolveSupertype Check.run at herrors
      dsimp only at herrors
      rw [hname] at herrors
      dsimp only at herrors
      rw [if_neg hkind] at herrors
      cases herrors

theorem resolveInterfaces_settles (hs : s.Closed) (names : List TypeName) :
    (resolveInterfaces names).Clean s fun types e => (resolveInterfaces names).Settles s types e := by
  induction names generalizing s with
  | nil => exact clean_pure .pure
  | cons first rest ih =>
    refine clean_bind ((resolveSupertype_settles hs true first).found hs
      (resolveSupertype_finds true first)) fun one m hone => ?_
    obtain ⟨hone, hclosed, -⟩ := hone
    exact clean_bind (ih hclosed) fun others e hothers => clean_pure (hone.bind (hothers.bind .pure))

theorem ClassDecl.resolveSupertypes_settles (hs : s.Closed) (decl : ClassDecl) :
    decl.resolveSupertypes.Clean s fun types e => decl.resolveSupertypes.Settles s types e := by
  have hrest : ∀ (superclass : Option Ty) (s : Registry), s.Closed → (do
      let interfaces ← resolveInterfaces decl.interfaces
      pure (superclass.getD .object, interfaces) : Check Registry (Ty × List Ty)).Clean s
        fun types e => (do
          let interfaces ← resolveInterfaces decl.interfaces
          pure (superclass.getD .object, interfaces) : Check Registry (Ty × List Ty)).Settles s
            types e := fun _ _ hs =>
    clean_bind (resolveInterfaces_settles hs _) fun _ _ hothers => clean_pure (hothers.bind .pure)
  unfold resolveSupertypes
  dsimp only
  split
  · refine clean_bind ((resolveSupertype_settles hs false _).found hs
      (resolveSupertype_finds false _)) fun one m hone => ?_
    obtain ⟨hone, hclosed, -⟩ := hone
    exact (hrest one m hclosed).mono fun types e hothers => hone.bind hothers
  · exact hrest none s hs

theorem resolveExceptions_settles (hs : s.Closed) (line : Nat) (names : List TypeName) :
    (resolveExceptions line names).Clean s fun types e =>
      (resolveExceptions line names).Settles s types e := by
  induction names generalizing s with
  | nil => exact clean_pure .pure
  | cons first rest ih =>
    refine clean_bind ((resolveName_settles hs false first).found hs
      (resolveName_finds false first)) fun one m hone => ?_
    obtain ⟨hone, hclosed, hknown⟩ := hone
    have hcontains := hknown one List.mem_cons_self
    refine clean_read_bind (clean_bind (clean_reportAll (S := fun _ e => e = m ∧
      (if one = .any ∨ m.isAssignableFrom .throwable one then ([] : List CompileError)
      else [.invalidThrowsType (m.displayName one) line]) = []) fun herrors => ⟨rfl, herrors⟩) ?_)
    rintro _ _ ⟨rfl, herrors⟩
    refine clean_bind (ih hclosed) fun others e hothers => clean_pure ?_
    refine hone.bind ⟨hothers.part, fun t ht => ?_⟩
    have hpart := hothers.part.trans ht
    refine answers_read_bind (answers_bind (answers_reportAll ?_)
      (answers_bind (hothers.again t ht) answers_pure))
    rw [hpart.isAssignableFrom_throwable hclosed hcontains]
    split
    · rfl
    · next hbad =>
      rw [if_neg hbad] at herrors
      cases herrors

theorem resolveParams_settles (hs : s.Closed) (params : List FormalParam) :
    (resolveParams params).Clean s fun types e => (resolveParams params).Settles s types e := by
  induction params generalizing s with
  | nil => exact clean_pure .pure
  | cons first rest ih =>
    refine clean_bind ((resolveName_settles hs true first.type).found hs
      (resolveName_finds true first.type)) fun one m hone => ?_
    obtain ⟨hone, hclosed, -⟩ := hone
    exact clean_bind (ih hclosed) fun others e hothers => clean_pure (hone.bind (hothers.bind .pure))

theorem Registry.PartOf.methodDescriptor {t : Registry} (h : s.PartOf t) {params : List Ty}
    {returnTy : Ty} (hparams : ∀ ty ∈ params, s.contains ty = true)
    (hreturn : s.contains returnTy = true) :
    t.methodDescriptor params returnTy = s.methodDescriptor params returnTy := by
  unfold Registry.methodDescriptor
  rw [List.map_congr_left fun ty hty => h.descriptor (hparams ty hty), h.descriptor hreturn]

theorem Registry.PartOf.exceptionNames {t : Registry} (h : s.PartOf t) {types : List Ty}
    (hknown : ∀ ty ∈ types, s.contains ty = true) : exceptionNames t types = exceptionNames s types := by
  unfold ClassCompiler.exceptionNames
  exact List.map_congr_left fun ty hty => h.internalName (hknown ty (List.mem_of_mem_filter hty))

theorem MethodDecl.resolveSignature_settles (hs : s.Closed) (method : MethodDecl) :
    method.resolveSignature.Clean s fun signature e =>
      method.resolveSignature.Settles s signature e := by
  unfold resolveSignature
  refine clean_bind ((resolveExceptions_settles hs _ _).found hs (resolveExceptions_finds _ _))
    fun exceptions m hexceptions => ?_
  obtain ⟨hexceptions, hclosed, -⟩ := hexceptions
  refine clean_bind ((resolveParams_settles hclosed _).found hclosed (resolveParams_finds _))
    fun params m' hparams => ?_
  obtain ⟨hparams, hclosed', hknown⟩ := hparams
  refine clean_bind ((resolveName_settles hclosed' _ _).found hclosed' (resolveName_finds _ _))
    fun returnTy e hreturn => ?_
  obtain ⟨hreturn, -, hknown'⟩ := hreturn
  refine clean_read_bind (clean_pure ?_)
  refine hexceptions.bind (hparams.bind (hreturn.bind ⟨.refl e, fun t ht => ?_⟩))
  refine answers_read_bind ?_
  have hparams : ∀ ty ∈ params, e.contains ty = true := fun ty hty =>
    hreturn.part.contains (hknown ty hty)
  rw [ht.methodDescriptor hparams (hknown' returnTy List.mem_cons_self)]
  exact answers_pure

end

/-! ## Classes under construction -/

namespace StubState

/-- A run of a step on a class under construction adds to the registry. Over every registry that
knows all that it ended with, `again` brings the same class to the same end, and adds nothing to the
registry. -/
structure Repeats {α : Type} (again : Check StubState α) (s : StubState) (a : α) (e : StubState) :
    Prop where
  part : s.registry.PartOf e.registry
  closed : e.registry.Closed
  again : ∀ t, e.registry.PartOf t → again.Answers ⟨t, s.stub⟩ a ⟨t, e.stub⟩

namespace Repeats

variable {α β : Type} {again : Check StubState α} {s m e : StubState} {a : α} {b : β}

theorem pure (hs : s.registry.Closed) : StubState.Repeats (Pure.pure a) s a s :=
  ⟨.refl _, hs, fun _ _ => answers_pure⟩

theorem bind {next : α → Check StubState β} (h : StubState.Repeats again s a m)
    (hnext : StubState.Repeats (next a) m b e) : StubState.Repeats (again >>= next) s b e :=
  ⟨h.part.trans hnext.part, hnext.closed, fun t ht =>
    answers_bind (h.again t (hnext.part.trans ht)) (hnext.again t ht)⟩

/-- What is read from the class, or from entries that stay. -/
theorem read {view : StubState → α} (hs : s.registry.Closed)
    (h : ∀ t, s.registry.PartOf t → view ⟨t, s.stub⟩ = view s) :
    StubState.Repeats (Check.read view) s (view s) s := by
  refine ⟨.refl _, hs, fun t ht => ?_⟩
  unfold Answers
  rw [run_read, h t ht]

theorem reportAll {errors : List CompileError} (hs : s.registry.Closed) (h : errors = []) :
    StubState.Repeats (Check.reportAll errors) s () s :=
  ⟨.refl _, hs, fun _ _ => answers_reportAll h⟩

end Repeats

variable {s : StubState}

theorem onRegistry_repeats {α : Type} {step : Check Registry α} {types : α → List Ty}
    (hs : s.registry.Closed) (hfinds : step.Finds types)
    (h : step.Clean s.registry fun a e => step.Settles s.registry a e) :
    (onRegistry step).Clean s fun a e => e.stub = s.stub ∧ Repeats (onRegistry step) s a e
      ∧ ∀ ty ∈ types a, e.registry.contains ty = true := by
  intro herrors
  obtain ⟨hsettles, hclosed, hknown⟩ := h.found hs hfinds herrors
  refine ⟨rfl, ⟨hsettles.part, hclosed, fun t ht => ?_⟩, hknown⟩
  have hrun : step.run t = _ := hsettles.again t ht
  unfold Answers onRegistry
  show Checked.mk _ _ _ = _
  dsimp only
  rw [hrun]
  rfl

theorem addField_repeats (hs : s.registry.Closed) (field : FieldEntry) (descriptor : String) :
    (addField field descriptor).Clean s fun a e => Repeats (addField field descriptor) s a e := by
  intro herrors
  unfold addField Check.run at herrors ⊢
  dsimp only at herrors ⊢
  cases hinfo : s.stub.info.addField field with
  | error error =>
    rw [hinfo] at herrors
    cases herrors
  | ok info =>
    refine ⟨.refl _, hs, fun t _ => ?_⟩
    unfold Answers Check.run
    dsimp only
    rw [hinfo]

theorem addMethod_repeats (hs : s.registry.Closed) (method : MethodEntry) (image : MethodImage) :
    (addMethod method image).Clean s fun a e => Repeats (addMethod method image) s a e := by
  intro herrors
  unfold addMethod Check.run at herrors ⊢
  dsimp only at herrors ⊢
  cases hinfo : s.stub.info.addMethod method with
  | error error =>
    rw [hinfo] at herrors
    cases herrors
  | ok info =>
    refine ⟨.refl _, hs, fun t _ => ?_⟩
    unfold Answers Check.run
    dsimp only
    rw [hinfo]

theorem forM_repeats {α : Type} {step : α → Check StubState PUnit} (hs : s.registry.Closed)
    (items : List α) (h : ∀ a (s : StubState), s.registry.Closed →
      (step a).Clean s fun out e => Repeats (step a) s out e) :
    (items.forM step).Clean s fun out e => Repeats (items.forM step) s out e := by
  induction items generalizing s with
  | nil => exact clean_pure (.pure hs)
  | cons first rest ih =>
    exact clean_bind (h first s hs) fun _ m hone => (ih hone.closed).mono fun _ e hrest =>
      hone.bind hrest

end StubState

/-! ## Fields -/

namespace Modifiers

theorem union_assoc (mods one two : Modifiers) : mods ∪ one ∪ two = mods ∪ (one ∪ two) :=
  congrArg Modifiers.mk (UInt16.or_assoc mods.bits one.bits two.bits)

theorem meets_union {mods other flags : Modifiers} (h : other.meets flags = false) :
    (mods ∪ other).meets flags = mods.meets flags := by
  have hnone : other.bits &&& flags.bits = 0 := by simpa [meets] using h
  have hbits : (mods.bits ||| other.bits) &&& flags.bits = mods.bits &&& flags.bits := by
    apply UInt16.toBitVec_inj.mp
    have hzero := congrArg UInt16.toBitVec hnone
    simp only [UInt16.toBitVec_or, UInt16.toBitVec_and] at hzero ⊢
    rw [BitVec.and_or_distrib_right, hzero]
    exact BitVec.or_zero
  exact congrArg (· != 0) hbits

end Modifiers

/-- The modifiers of a field in its class. -/
def FieldDecl.stubModifiers (inInterface : Bool) (mods : Modifiers) : Modifiers :=
  if inInterface then mods ∪ Modifiers.accPublic ∪ Modifiers.accStatic ∪ Modifiers.accFinal else mods

theorem FieldDecl.stubModifiers_again (inInterface : Bool) (mods : Modifiers) :
    stubModifiers inInterface (stubModifiers inInterface mods) = stubModifiers inInterface mods := by
  unfold stubModifiers
  cases inInterface with
  | false => rfl
  | true =>
    simp only [if_true, Modifiers.union_assoc]
    exact congrArg (mods ∪ ·) (by decide)

theorem FieldDecl.stub_repeats {s : StubState} (hs : s.registry.Closed) (field : FieldDecl) :
    field.stub.Clean s fun out e => StubState.Repeats out.stub s out e := by
  unfold stub
  refine clean_bind (onRegistry_repeats hs (resolveName_finds true field.type)
    (resolveName_settles hs true field.type)) fun ty m hty => ?_
  obtain ⟨-, hty, hknown⟩ := hty
  refine clean_read_bind (clean_read_bind (clean_bind (forM_repeats hty.closed field.names
    fun name s hs => addField_repeats hs _ _) fun _ e hadds => clean_pure ?_))
  have hmods := stubModifiers_again m.stub.info.isInterface field.mods
  unfold stubModifiers at hmods
  refine hty.bind ((Repeats.read hty.closed fun _ _ => rfl).bind
    ((Repeats.read hty.closed fun t ht => ht.descriptor (hknown ty List.mem_cons_self)).bind ?_))
  dsimp only
  rw [hmods]
  exact hadds.bind (.pure hadds.closed)

/-! ## Methods -/

namespace MethodDecl

theorem stubModifiers_again (inInterface : Bool) {method now : MethodDecl}
    (hmods : now.mods = (method.stubModifiers inInterface).1) (hline : now.line = method.line) :
    now.stubModifiers inInterface = method.stubModifiers inInterface := by
  unfold stubModifiers at hmods ⊢
  cases inInterface with
  | false => exact Prod.ext hmods rfl
  | true =>
    simp only [if_true] at hmods ⊢
    rw [hmods, hline]
    refine Prod.ext ?_ ?_
    · simp only [Modifiers.union_assoc]
      exact congrArg (method.mods ∪ ·) (by decide)
    · rw [Modifiers.meets_union (by decide), Modifiers.meets_union (by decide)]

/-- A method that was stubbed, and perhaps analyzed since, is stubbed alike. -/
theorem stub_repeats {s : StubState} (hs : s.registry.Closed) (method : MethodDecl) :
    method.stub.Clean s fun out e => ∀ now, out.SameStub now →
      StubState.Repeats now.stub s now.restubbed e := by
  rw [stub_eq]
  refine clean_read_bind (clean_bind (clean_reportAll (S := fun _ e => e = s
    ∧ (method.stubModifiers s.stub.info.isInterface).2 = []) fun herrors => ⟨rfl, herrors⟩) ?_)
  rintro _ m ⟨heq, hmods⟩
  subst m
  generalize hinterface : s.stub.info.isInterface = inInterface at hmods ⊢
  unfold stubAs
  refine clean_bind (onRegistry_repeats hs method.resolveSignature_finds
    (method.resolveSignature_settles hs)) fun signature m hsignature => ?_
  obtain ⟨hstub, hsignature, hknown⟩ := hsignature
  refine clean_bind (clean_reportAll (S := fun _ e => e = m ∧ modifierError?
    (method.stubModifiers inInterface).1 method.body.isSome inInterface = none)
    fun herrors => ⟨rfl, by simpa using herrors⟩) ?_
  rintro _ m' ⟨heq, hbroken⟩
  subst m'
  refine clean_read_bind (clean_bind (addMethod_repeats hsignature.closed _ _)
    fun _ e hadds => clean_pure ?_)
  rintro now ⟨body, frame, state, rfl, hbody⟩
  have hagain : stubModifiers inInterface { method with
      mods := (method.stubModifiers inInterface).1, signature := some signature, body, frame, state }
      = method.stubModifiers inInterface := stubModifiers_again inInterface rfl rfl
  rw [stub_eq]
  refine (Repeats.read hs fun _ _ => rfl).bind ?_
  dsimp only [StubState.info]
  rw [hinterface, hagain]
  refine (Repeats.reportAll hs hmods).bind (hsignature.bind ((Repeats.reportAll hsignature.closed
    ?_).bind ((Repeats.read hsignature.closed fun t ht => ?_).bind (hadds.bind (.pure hadds.closed)))))
  · dsimp only at hbody ⊢
    rw [hbody, hbroken]
    rfl
  · exact ht.exceptionNames fun ty hty => hknown ty (signature.exceptions_subset hty)

end MethodDecl

/-! ## Members -/

/-- A member at some time, and at a later one: a field is left alone, and of a method a relation is
known. -/
inductive Member.Later (R : MethodDecl → MethodDecl → Prop) : Member → Member → Prop
  | field (decl : FieldDecl) : Later R (.field decl) (.field decl)
  | method {before after : MethodDecl} (h : R before after) :
      Later R (.method before) (.method after)

/-- A member with its method ready for its analysis again. -/
def Member.restubbed : Member → Member
  | field decl => field decl
  | method decl => method decl.restubbed

abbrev Member.AnyLater : List Member → List Member → Prop :=
  List.Forall₂ (Member.Later fun _ _ => True)

abbrev Member.SameStubs : List Member → List Member → Prop :=
  List.Forall₂ (Member.Later MethodDecl.SameStub)

theorem Member.later_refl {R : MethodDecl → MethodDecl → Prop} (hR : ∀ method, R method method)
    (members : List Member) : List.Forall₂ (Member.Later R) members members :=
  List.forall₂_same.mpr fun member _ => by
    cases member with
    | field decl => exact .field decl
    | method decl => exact .method (hR decl)

theorem Member.AnyLater.after {one two three : List Member} (h : Member.AnyLater one two)
    (h' : Member.SameStubs two three) : Member.AnyLater one three := by
  induction h generalizing three with
  | nil =>
    cases h'
    exact .nil
  | cons hfirst _ ih =>
    cases h' with
    | cons hfirst' hrest' =>
      refine .cons ?_ (ih hrest')
      cases hfirst with
      | field decl =>
        cases hfirst'
        exact .field decl
      | method _ =>
        cases hfirst'
        exact .method trivial

theorem stubFields_repeats {s : StubState} (hs : s.registry.Closed) (members : List Member) :
    (stubFields members).Clean s fun out e => ∀ now, Member.AnyLater out now →
      StubState.Repeats (stubFields now) s now e := by
  induction members generalizing s with
  | nil =>
    refine clean_pure fun now hnow => ?_
    cases hnow
    exact .pure hs
  | cons first rest ih =>
    cases first with
    | field field =>
      refine clean_bind (FieldDecl.stub_repeats hs field) fun one m hone =>
        clean_bind (ih hone.closed) fun others e hothers => clean_pure fun now hnow => ?_
      cases hnow with
      | cons hfirst hrest =>
        cases hfirst
        have hagain := hothers _ hrest
        exact hone.bind (hagain.bind (.pure hagain.closed))
    | method method =>
      refine clean_bind (ih hs) fun others e hothers => clean_pure fun now hnow => ?_
      cases hnow with
      | cons hfirst hrest =>
        cases hfirst
        have hagain := hothers _ hrest
        exact hagain.bind (.pure hagain.closed)

theorem stubMethods_anyLater (members : List Member) :
    (stubMethods members).Gives (Member.AnyLater members) := by
  induction members with
  | nil => exact gives_pure .nil
  | cons first rest ih =>
    cases first with
    | field field => exact gives_bind ih fun others hothers => gives_pure (.cons (.field field) hothers)
    | method method =>
      exact gives_then fun one => gives_bind ih fun others hothers =>
        gives_pure (.cons (.method trivial) hothers)

theorem stubMethods_repeats {s : StubState} (hs : s.registry.Closed) (members : List Member) :
    (stubMethods members).Clean s fun out e => ∀ now, Member.SameStubs out now →
      StubState.Repeats (stubMethods now) s (now.map Member.restubbed) e := by
  induction members generalizing s with
  | nil =>
    refine clean_pure fun now hnow => ?_
    cases hnow
    exact .pure hs
  | cons first rest ih =>
    cases first with
    | field field =>
      refine clean_bind (ih hs) fun others e hothers => clean_pure fun now hnow => ?_
      cases hnow with
      | cons hfirst hrest =>
        cases hfirst
        have hagain := hothers _ hrest
        exact hagain.bind (.pure hagain.closed)
    | method method =>
      refine clean_bind (MethodDecl.stub_repeats hs method) fun one m hone =>
        clean_bind (ih (hone one (.refl one)).closed) fun others e hothers =>
        clean_pure fun now hnow => ?_
      cases hnow with
      | cons hfirst hrest =>
        cases hfirst with
        | method hsame =>
          have hagain := hothers _ hrest
          exact (hone _ hsame).bind (hagain.bind (.pure hagain.closed))

theorem withConstructor_repeats {s : StubState} (hs : s.registry.Closed) (options : Options) :
    StubState.Repeats (Check.modify (StubState.withConstructor options)) s ()
      (s.withConstructor options) := by
  have hregistry : (s.withConstructor options).registry = s.registry := by
    unfold StubState.withConstructor
    split <;> rfl
  refine ⟨hregistry ▸ .refl s.registry, hregistry ▸ hs, fun t _ => ?_⟩
  have hsame : StubState.withConstructor options ⟨t, s.stub⟩
      = ⟨t, (s.withConstructor options).stub⟩ := by
    unfold StubState.withConstructor
    split <;> rfl
  exact congrArg (Checked.mk () · []) hsame

/-- The members of a class that were stubbed, and perhaps analyzed since, are stubbed alike. -/
theorem stubMembers_repeats {s : StubState} (hs : s.registry.Closed) (options : Options)
    (members : List Member) :
    (stubMembers options members).Clean s fun out e => ∀ now, Member.SameStubs out now →
      StubState.Repeats (stubMembers options now) s (now.map Member.restubbed) e := by
  rw [stubMembers_eq]
  refine clean_bind (stubFields_repeats hs members) fun fields m hfields => ?_
  have hclosed := (hfields fields (Member.later_refl (fun _ => trivial) fields)).closed
  have hmiddle := withConstructor_repeats hclosed options
  refine clean_bind (clean_modify (S := fun _ e => e = m.withConstructor options) rfl) ?_
  rintro _ e rfl
  refine ((stubMethods_repeats hmiddle.closed fields).and_value
    (stubMethods_anyLater fields _)).mono fun out e hout now hnow => ?_
  obtain ⟨hout, hlater⟩ := hout
  rw [stubMembers_eq]
  exact (hfields now (hlater.after hnow)).bind (hmiddle.bind (hout now hnow))

end ClassCompiler
