import ClassCompiler.Proofs.Unit.Learned
import ClassCompiler.Proofs.Unit.Turns

/-!
# What stubs refer to

Stubbing resolves the types of a class before it puts them anywhere, with `any` for one that is not
found. So the registry that comes out of it knows all types of all stubs, with errors or without:
those of the fields and methods that bodies see, and those of every signature.

* `StubState.Knowing`, `StubState.Learns`
* `stubClasses_learns`
-/

namespace ClassCompiler

open Check

/-! ## Declared classes -/

theorem contains_importClasses {registry : Registry} {ty : Ty} (h : registry.contains ty = true)
    (names : List String) : ((importClasses names).run registry).state.contains ty = true := by
  induction names generalizing registry with
  | nil => exact h
  | cons first rest ih =>
    refine ih ?_
    unfold Check.run
    dsimp only
    split
    · next hfound =>
      obtain ⟨_, -, heq⟩ := Option.map_eq_some_iff.mp hfound
      cases heq
      exact h
    · exact h

theorem contains_declareClasses {registry : Registry} {ty : Ty} (h : registry.contains ty = true)
    (package : Option String) (seen : List String) (decls : List ClassDecl) :
    ((declareClasses package seen decls).run registry).state.contains ty = true := by
  induction decls generalizing seen registry with
  | nil => exact h
  | cons first rest ih =>
    rw [run_declareClasses_cons]
    refine ih ?_ (first.name :: seen)
    unfold Registry.contains
    rw [ClassDecl.get?_declare]
    split
    · rfl
    · exact h

/-- Declarations leave the types that are known. -/
theorem Compiler.contains_declaredRegistry {registry : Registry} {ty : Ty}
    (unit : CompilationUnit) (h : registry.contains ty = true) :
    (declaredRegistry unit registry).contains ty = true :=
  contains_declareClasses (contains_importClasses h _) _ _ _

/-- The declared classes are known. -/
theorem Compiler.contains_declaredTypes (unit : CompilationUnit) (registry : Registry) :
    ∀ decl ∈ declaredTypes unit, ∃ ty, decl.ty = some ty
      ∧ (declaredRegistry unit registry).contains ty = true := by
  intro decl hdecl
  obtain ⟨given, hgiven, rfl⟩ := List.mem_map.mp hdecl
  have hnames : ∀ other ∈ unit.types, other.internalName unit.package ∈ unit.declaredNames :=
    fun other hother => List.mem_map.mpr ⟨other, hother, rfl⟩
  obtain ⟨entry, hentry, -⟩ := (declareClasses_names _ _ hnames).1 given hgiven
  exact ⟨_, rfl, Registry.contains_iff.mpr ⟨entry, hentry⟩⟩

/-! ## Classes under construction -/

namespace StubState

/-- The registry knows all types of the class. -/
structure Knowing (state : StubState) : Prop where
  closed : state.registry.Closed
  info : state.stub.info.Among fun ty => state.registry.contains ty = true

/-- Types are added, and none of the class is left out. -/
def Learns (before after : StubState) : Prop :=
  before.registry.Below after.registry ∧ (before.Knowing → after.Knowing)

instance : IsPreorder StubState Learns where
  refl _ := ⟨.refl _, fun h => h⟩
  trans _ _ _ h h' := ⟨h.1.trans h'.1, fun hstart => h'.2 (h.2 hstart)⟩

/-- The registry stays as it is, and nothing but the types is added to the class. -/
def Uses (types : List Ty) (before after : StubState) : Prop :=
  after.registry = before.registry ∧ ((∀ ty ∈ types, before.registry.contains ty = true) →
    before.Knowing → after.Knowing)

instance (types : List Ty) : IsPreorder StubState (Uses types) where
  refl _ := ⟨rfl, fun _ h => h⟩
  trans _ _ _ h h' := ⟨h'.1.trans h.1, fun hknown hstart =>
    h'.2 (h.1 ▸ hknown) (h.2 hknown hstart)⟩

theorem onRegistry_learns {α : Type} {step : Check Registry α} {types : α → List Ty}
    (h : step.Finds types) : (onRegistry step).Moves fun s a e => s.Learns e
      ∧ (s.Knowing → ∀ ty ∈ types a, e.registry.contains ty = true) := by
  intro state
  obtain ⟨hbelow, hfound⟩ := h state.registry
  refine ⟨⟨hbelow, fun hstart => ⟨(hfound hstart.closed).1, ?_⟩⟩, fun hstart => ?_⟩
  · exact hstart.info.mono fun ty => hbelow.contains
  · exact (hfound hstart.closed).2

/-- Types are found first, and used then. -/
theorem moves_found {α β : Type} {step : Check Registry α} {types : α → List Ty}
    {next : α → Check StubState β} {P : α → β → Prop} (h : step.Finds types)
    (huses : ∀ a, (next a).Keeps (Uses (types a))) (hgives : ∀ a, (next a).Gives (P a)) :
    (onRegistry step >>= next).Moves fun s b e => s.Learns e
      ∧ ∃ a, P a b ∧ (s.Knowing → ∀ ty ∈ types a, e.registry.contains ty = true) := by
  intro s
  rw [run_bind]
  obtain ⟨⟨hbelow, hkeeps⟩, hknown⟩ := onRegistry_learns h s
  obtain ⟨hsame, hadds⟩ := huses ((onRegistry step).run s).value ((onRegistry step).run s).state
  refine ⟨⟨hsame ▸ hbelow, fun hstart => hadds (hknown hstart) (hkeeps hstart)⟩, _, hgives _ _,
    fun hstart => ?_⟩
  rw [hsame]
  exact hknown hstart

theorem addField_uses (field : FieldEntry) (descriptor : String) :
    (addField field descriptor).Keeps (Uses [field.ty]) := by
  intro state
  unfold addField ClassInfo.addField Check.run
  dsimp only
  by_cases hfound : (state.stub.info.field? field.name).isSome = true
  · rw [if_pos hfound]
    exact refl_of (Uses _) state
  · rw [if_neg hfound]
    refine ⟨rfl, fun hknown hstart => ⟨hstart.closed, hstart.info.ty, fun other hother => ?_,
      hstart.info.params, hstart.info.results⟩⟩
    rcases List.mem_append.mp hother with hother | hother
    · exact hstart.info.fields other hother
    · rw [List.mem_singleton.mp hother]
      exact hknown _ (List.mem_singleton_self _)

theorem addMethod_uses {method : MethodEntry} (image : MethodImage) {types : List Ty}
    (hparams : method.params ⊆ types) (hresult : method.returnTy ∈ types) :
    (addMethod method image).Keeps (Uses types) := by
  intro state
  unfold addMethod ClassInfo.addMethod Check.run
  dsimp only
  by_cases hfound : state.stub.info.hasMethod method.name method.descriptor = true
  · rw [if_pos hfound]
    exact ⟨rfl, fun _ hstart => ⟨hstart.closed, hstart.info⟩⟩
  · rw [if_neg hfound]
    refine ⟨rfl, fun hknown hstart => ⟨hstart.closed, hstart.info.ty, hstart.info.fields,
      fun other hother ty hty => ?_, fun other hother => ?_⟩⟩
    · rcases List.mem_append.mp hother with hother | hother
      · exact hstart.info.params other hother ty hty
      · rw [List.mem_singleton.mp hother] at hty
        exact hknown ty (hparams hty)
    · rcases List.mem_append.mp hother with hother | hother
      · exact hstart.info.results other hother
      · rw [List.mem_singleton.mp hother]
        exact hknown _ hresult

end StubState

open StubState

/-! ## Members -/

theorem FieldDecl.stub_learns (field : FieldDecl) : field.stub.Keeps Learns := by
  unfold stub
  intro state
  refine (moves_found (resolveName_finds true field.type) (fun ty => ?_) (fun _ => gives_any _)
    state).1
  exact keeps_bind (keeps_read _) fun _ => keeps_bind (keeps_read _) fun _ =>
    keeps_bind (keeps_forM _ fun _ => addField_uses _ _) fun _ => keeps_pure _

namespace MethodDecl

theorem SignedIn.below {small large : Registry} {method : MethodDecl} (h : method.SignedIn small)
    (hbelow : small.Below large) : method.SignedIn large := by
  obtain ⟨signature, hsignature, hknown⟩ := h
  exact ⟨signature, hsignature, fun ty hty => hbelow.contains (hknown ty hty)⟩

theorem stubAs_learns (mods : Modifiers) (inInterface : Bool) (method : MethodDecl) :
    (method.stubAs mods inInterface).Moves fun s out e => s.Learns e
      ∧ (s.Knowing → out.SignedIn e.registry) := by
  unfold stubAs
  refine (moves_found (P := fun signature out => out.signature = some signature)
    method.resolveSignature_finds (fun signature => ?_) fun signature => ?_).mono ?_
  · exact keeps_bind (keeps_note _ _) fun _ => keeps_bind (keeps_read _) fun _ =>
      keeps_bind (addMethod_uses _ signature.params_subset signature.returnTy_mem) fun _ =>
      keeps_pure _
  · exact gives_then fun _ => gives_then fun _ => gives_then fun _ => gives_pure rfl
  · intro s out e ⟨hlearns, signature, hsignature, hknown⟩
    exact ⟨hlearns, fun hstart => ⟨signature, hsignature, hknown hstart⟩⟩

theorem stub_learns (method : MethodDecl) : method.stub.Moves fun s out e => s.Learns e
    ∧ (s.Knowing → out.SignedIn e.registry) := by
  intro s
  rw [stub_eq, run_bind, run_bind]
  exact method.stubAs_learns _ s.stub.info.isInterface s

end MethodDecl

theorem stubFields_learns (members : List Member) : (stubFields members).Keeps Learns := by
  induction members with
  | nil => exact keeps_pure _
  | cons first rest ih =>
    cases first with
    | field field =>
      exact keeps_bind field.stub_learns fun _ => keeps_bind ih fun _ => keeps_pure _
    | method method => exact keeps_bind ih fun _ => keeps_pure _

theorem stubMethods_learns (members : List Member) :
    (stubMethods members).Moves fun s out e => s.Learns e
      ∧ (s.Knowing → MethodsHave (MethodDecl.SignedIn e.registry) out) := by
  induction members with
  | nil => exact fun s => ⟨refl_of Learns s, fun _ => methodsHave_nil⟩
  | cons first rest ih =>
    cases first with
    | field field =>
      intro s
      obtain ⟨hlearns, hsigned⟩ := ih s
      exact ⟨hlearns, fun hstart => methodsHave_field (hsigned hstart)⟩
    | method method =>
      intro s
      obtain ⟨hlearns, hone⟩ := method.stub_learns s
      obtain ⟨hlearns', hrest⟩ := ih (method.stub.run s).state
      refine ⟨trans_of Learns hlearns hlearns', fun hstart => methodsHave_method ?_ ?_⟩
      · exact (hone hstart).below hlearns'.1
      · exact hrest (hlearns.2 hstart)

/-! ## Classes -/

theorem ClassDecl.below_stubOutline (ty : Ty) (decl : ClassDecl) (registry : Registry) :
    registry.Below (decl.stubOutline ty registry).registry := by
  obtain ⟨hbelow, -⟩ := decl.resolveSupertypes_finds registry
  exact hbelow.trans (Registry.below_setSupertypes _ ty _ _)

theorem ClassDecl.stubOutline_knowing {decl : ClassDecl} {ty : Ty} {registry : Registry}
    (hclosed : registry.Closed) (hty : registry.contains ty = true) :
    (decl.stubOutline ty registry).Knowing := by
  obtain ⟨-, hfound⟩ := decl.resolveSupertypes_finds registry
  obtain ⟨hclosed', hknown⟩ := hfound hclosed
  refine ⟨hclosed'.setSupertypes ty hknown, (decl.below_stubOutline ty registry).contains hty,
    ?_, ?_, ?_⟩
  · exact fun _ h => (List.not_mem_nil h).elim
  · exact fun _ h => (List.not_mem_nil h).elim
  · exact fun _ h => (List.not_mem_nil h).elim

theorem StubState.withConstructor_learns (options : Options) (state : StubState) :
    state.Learns (state.withConstructor options) := by
  unfold withConstructor
  split
  · exact ⟨.refl _, fun h => ⟨h.closed, h.info⟩⟩
  · exact refl_of Learns state

/-- The registry knows a class and the signatures of its methods. -/
structure ClassDecl.KnownIn (registry : Registry) (decl : ClassDecl) : Prop where
  ty : ∃ ty, decl.ty = some ty ∧ registry.contains ty = true
  signed : MethodsHave (MethodDecl.SignedIn registry) decl.members

theorem ClassDecl.KnownIn.below {small large : Registry} {decl : ClassDecl}
    (h : decl.KnownIn small) (hbelow : small.Below large) : decl.KnownIn large := by
  obtain ⟨ty, hty, hknown⟩ := h.ty
  exact ⟨⟨ty, hty, hbelow.contains hknown⟩,
    h.signed.mono fun method hmethod => hmethod.below hbelow⟩

/-- The registry knows all types of a stub, and all that it knew before. -/
theorem ClassDecl.stub_learns (options : Options) {ty : Ty} {decl : ClassDecl}
    (hty : decl.ty = some ty) :
    (decl.stub options ty).Moves fun s out e => s.Below e ∧ (s.Closed → s.contains ty = true →
      e.Closed ∧ out.2.info.Among (fun ty => e.contains ty = true) ∧ out.1.KnownIn e) := by
  intro registry
  rw [run_stub]
  dsimp only
  have hfields := stubFields_learns decl.members (decl.stubOutline ty registry)
  have hstart : Learns (decl.stubOutline ty registry) (decl.stubStart options ty registry) :=
    trans_of Learns hfields (StubState.withConstructor_learns options _)
  obtain ⟨hlearns, hsigned⟩ := stubMethods_learns
    ((stubFields decl.members).run (decl.stubOutline ty registry)).value
    (decl.stubStart options ty registry)
  have hall := trans_of Learns hstart hlearns
  have hbelow := (decl.below_stubOutline ty registry).trans hall.1
  refine ⟨hbelow, fun hclosed hknown => ?_⟩
  have hknowing := decl.stubOutline_knowing hclosed hknown
  have hdone := hall.2 hknowing
  exact ⟨hdone.closed, hdone.info, ⟨ty, hty, hbelow.contains hknown⟩, hsigned (hstart.2 hknowing)⟩

theorem stubClasses_learns (options : Options) (decls : List ClassDecl) :
    (stubClasses options decls).Moves fun s out e => s.Below e ∧ (s.Closed →
      (∀ decl ∈ decls, ∃ ty, decl.ty = some ty ∧ s.contains ty = true) →
      (∀ stub ∈ out.2, stub.info.Among fun ty => e.contains ty = true)
        ∧ ∀ decl ∈ out.1, decl.KnownIn e) := by
  induction decls with
  | nil => exact fun _ => ⟨.refl _, fun _ _ => ⟨fun _ h => (List.not_mem_nil h).elim,
      fun _ h => (List.not_mem_nil h).elim⟩⟩
  | cons first rest ih =>
    intro s
    cases hty : first.ty with
    | none =>
      obtain ⟨hbelow, -⟩ := ih s
      unfold stubClasses
      rw [hty]
      refine ⟨hbelow, fun _ hdecls => ?_⟩
      obtain ⟨ty, hsome, -⟩ := hdecls first List.mem_cons_self
      cases hty.symm.trans hsome
    | some ty =>
      rw [run_stubClasses_cons options hty]
      obtain ⟨hbelow, hone⟩ := ClassDecl.stub_learns options hty s
      obtain ⟨hbelow', hrest⟩ := ih ((first.stub options ty).run s).state
      refine ⟨hbelow.trans hbelow', fun hclosed hdecls => ?_⟩
      obtain ⟨ty', hsome, hknown⟩ := hdecls first List.mem_cons_self
      cases hty.symm.trans hsome
      obtain ⟨hclosed', hamong, hfirst⟩ := hone hclosed hknown
      obtain ⟨hamong', hothers⟩ := hrest hclosed' fun decl hdecl => by
        obtain ⟨ty', hsome, hknown⟩ := hdecls decl (List.mem_cons_of_mem _ hdecl)
        exact ⟨ty', hsome, hbelow.contains hknown⟩
      refine ⟨fun stub hstub => ?_, fun decl hdecl => ?_⟩
      · rcases List.mem_cons.mp hstub with rfl | hstub
        · exact hamong.mono fun ty => hbelow'.contains
        · exact hamong' stub hstub
      · rcases List.mem_cons.mp hdecl with rfl | hdecl
        · exact hfirst.below hbelow'
        · exact hothers decl hdecl

end ClassCompiler
