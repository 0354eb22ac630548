import ClassCompiler.Proofs.StubAgreement

/-!
# Members that differ

A class under construction refuses a second field of one name and a second method of one name and
descriptor. Its stub and its final class list the same fields, and the same methods behind the
constructor that no declaration makes. That one is checked against nothing, so a class that declares
a constructor of the same descriptor has two of them.

* `ClassStub.Lists`: what a class under construction has, and its stub
* `ClassImage.Lists`: an image with the methods of a declaration
* `Compiler.members_distinct`, `constructor_stands_twice`
-/

namespace ClassCompiler

open Check

/-! ## Names and descriptors -/

/-- What no two methods of a class may share. -/
def MethodEntry.key (method : MethodEntry) : String × String := (method.name, method.descriptor)

def MethodImage.key (method : MethodImage) : String × String := (method.name, method.descriptor)

def MethodDecl.key? (method : MethodDecl) : Option (String × String) :=
  method.signature.map fun signature => (method.name, signature.descriptor)

/-- The methods that a class declares. -/
def ClassDecl.keys (decl : ClassDecl) : List (String × String) :=
  decl.methods.filterMap MethodDecl.key?

def constructorKey : String × String := ("<init>", "()V")

theorem MethodDecl.SameStub.key? {before after : MethodDecl} (h : before.SameStub after) :
    after.key? = before.key? ∧ after.name = before.name := by
  obtain ⟨body, frame, state, rfl, -⟩ := h
  exact ⟨rfl, rfl⟩

/-! ## Classes under construction -/

namespace ClassInfo

variable {info after : ClassInfo}

theorem addField_ok {field : FieldEntry} (h : info.addField field = .ok after) :
    after = { info with fields := info.fields ++ [field] }
      ∧ field.name ∉ info.fields.map FieldEntry.name := by
  unfold addField at h
  split at h
  · cases h
  · next hnone =>
    refine ⟨(Except.ok.inj h).symm, fun hmem => hnone ?_⟩
    obtain ⟨other, hother, heq⟩ := List.mem_map.mp hmem
    exact List.find?_isSome.mpr ⟨other, hother, beq_iff_eq.mpr heq⟩

/-- Methods of one key have one hash, so the second is refused. -/
theorem addMethod_ok {method : MethodEntry} (h : info.addMethod method = .ok after) :
    after = { info with methods := info.methods ++ [method] }
      ∧ method.key ∉ info.methods.map MethodEntry.key := by
  unfold addMethod at h
  split at h
  · cases h
  · next hnone =>
    refine ⟨(Except.ok.inj h).symm, fun hmem => hnone ?_⟩
    obtain ⟨other, hother, heq⟩ := List.mem_map.mp hmem
    obtain ⟨hname, hdescriptor⟩ := Prod.mk.inj heq
    refine List.any_eq_true.mpr ⟨other, hother, ?_⟩
    rw [hname, hdescriptor]
    exact beq_self_eq_true _

end ClassInfo

/-- A class has fields of different names and the methods of the keys, all different. Its stub has
the same fields, and before the methods those of the first keys. -/
structure ClassStub.Lists (made keys : List (String × String)) (stub : ClassStub) : Prop where
  fields : (stub.info.fields.map FieldEntry.name).Nodup
  shown : stub.image.fields.map FieldImage.name = stub.info.fields.map FieldEntry.name
  entries : stub.info.methods.map MethodEntry.key = keys
  images : stub.image.methods.map MethodImage.key = made ++ keys
  distinct : keys.Nodup

section

variable {state : StubState} {made keys : List (String × String)}

theorem clean_onRegistry {α : Type} {step : Check Registry α} {Q : α → StubState → Prop}
    (h : ∀ a registry, Q a { state with registry }) : (StubState.onRegistry step).Clean state Q :=
  fun _ => h _ _

theorem clean_forM {α σ : Type} {I : σ → Prop} {step : α → Check σ PUnit} {items : List α}
    (h : ∀ a s, I s → (step a).Clean s fun _ s => I s) {s : σ} (hs : I s) :
    (items.forM step).Clean s fun _ s => I s := by
  induction items generalizing s with
  | nil => exact clean_pure hs
  | cons first rest ih => exact clean_bind (h first s hs) fun _ _ hnext => ih hnext

theorem addField_lists (field : FieldEntry) (descriptor : String)
    (h : state.stub.Lists made keys) :
    (StubState.addField field descriptor).Clean state fun _ s => s.stub.Lists made keys := by
  intro herrors
  unfold StubState.addField Check.run at herrors ⊢
  dsimp only at herrors ⊢
  cases hadd : state.stub.info.addField field with
  | error error =>
    rw [hadd] at herrors
    cases herrors
  | ok info =>
    obtain ⟨rfl, hnew⟩ := ClassInfo.addField_ok hadd
    refine ⟨?_, ?_, h.entries, h.images, h.distinct⟩
    · rw [List.map_append]
      exact List.nodup_append'.mpr ⟨h.fields, List.nodup_singleton _,
        List.disjoint_singleton.mpr hnew⟩
    · simp only [ClassImage.addField, List.map_append, h.shown]
      rfl

theorem addMethod_lists {method : MethodEntry} {image : MethodImage} (hkey : image.key = method.key)
    (h : state.stub.Lists made keys) : (StubState.addMethod method image).Clean state fun _ s =>
      s.stub.Lists made (keys ++ [method.key]) := by
  intro herrors
  unfold StubState.addMethod Check.run at herrors ⊢
  dsimp only at herrors ⊢
  cases hadd : state.stub.info.addMethod method with
  | error error =>
    rw [hadd] at herrors
    cases herrors
  | ok info =>
    obtain ⟨rfl, hnew⟩ := ClassInfo.addMethod_ok hadd
    refine ⟨h.fields, h.shown, ?_, ?_, ?_⟩
    · simp only [List.map_append, h.entries]
      rfl
    · simp only [ClassImage.addMethod, List.map_append, h.images, List.append_assoc, ← hkey]
      rfl
    · rw [h.entries] at hnew
      exact List.nodup_append'.mpr ⟨h.distinct, List.nodup_singleton _,
        List.disjoint_singleton.mpr hnew⟩

/-! ## Members -/

theorem FieldDecl.stub_lists (field : FieldDecl) (h : state.stub.Lists made keys) :
    field.stub.Clean state fun _ s => s.stub.Lists made keys := by
  unfold stub
  refine clean_bind (clean_onRegistry fun _ registry => ?_) fun ty s hs => clean_read_bind
    (clean_read_bind (clean_bind (clean_forM (fun name s hs => addField_lists _ _ hs) hs)
      fun _ s hs => clean_pure hs))
  exact h

theorem MethodDecl.stub_lists (method : MethodDecl) (h : state.stub.Lists made keys) :
    method.stub.Clean state fun out s => out.name = method.name
      ∧ s.stub.Lists made (keys ++ out.key?.toList) := by
  rw [stub_eq]
  refine clean_read_bind (clean_bind (Q := fun _ s => s.stub.Lists made keys)
    (clean_reportAll fun _ => h) fun _ s hs => ?_)
  unfold stubAs
  refine clean_bind (clean_onRegistry (Q := fun _ s => s.stub.Lists made keys) fun _ _ => hs)
    fun signature s hs => clean_bind (Q := fun _ s => s.stub.Lists made keys)
      (clean_reportAll fun _ => hs) fun _ s hs => clean_read_bind
        (clean_bind (addMethod_lists rfl hs) fun _ s hs => clean_pure ⟨rfl, hs⟩)

theorem stubFields_lists (members : List Member) (h : state.stub.Lists made keys) :
    (stubFields members).Clean state fun out s => s.stub.Lists made keys
      ∧ out.filterMap Member.method? = members.filterMap Member.method? := by
  induction members generalizing state with
  | nil => exact clean_pure ⟨h, rfl⟩
  | cons first rest ih =>
    cases first with
    | field field =>
      exact clean_bind (field.stub_lists h) fun _ s hs => clean_bind (ih hs) fun _ _ hrest =>
        clean_pure hrest
    | method method =>
      exact clean_bind (ih h) fun _ _ hrest => clean_pure ⟨hrest.1, congrArg (method :: ·) hrest.2⟩

theorem stubMethods_lists (members : List Member) (h : state.stub.Lists made keys) :
    (stubMethods members).Clean state fun out s =>
      s.stub.Lists made (keys ++ (out.filterMap Member.method?).filterMap MethodDecl.key?)
        ∧ (out.filterMap Member.method?).map MethodDecl.name
          = (members.filterMap Member.method?).map MethodDecl.name := by
  induction members generalizing state keys with
  | nil =>
    refine clean_pure ⟨?_, rfl⟩
    rw [List.filterMap_nil, List.filterMap_nil, List.append_nil]
    exact h
  | cons first rest ih =>
    cases first with
    | field field => exact clean_bind (ih h) fun _ _ hrest => clean_pure hrest
    | method method =>
      refine clean_bind (method.stub_lists h) fun out s hfirst => clean_bind (ih hfirst.2)
        fun others _ hrest => clean_pure ⟨?_, ?_⟩
      · have hkeys : (((Member.method out :: others).filterMap Member.method?).filterMap
            MethodDecl.key?) = out.key?.toList
              ++ (others.filterMap Member.method?).filterMap MethodDecl.key? := by
          change ((out :: others.filterMap Member.method?).filterMap MethodDecl.key?) = _
          rw [List.filterMap_cons]
          cases out.key? <;> rfl
        rw [hkeys, ← List.append_assoc]
        exact hrest.1
      · change out.name :: _ = method.name :: _
        rw [hfirst.1]
        exact congrArg (method.name :: ·) hrest.2

end

/-! ## Classes -/

/-- The methods that a class has without declaring them. -/
def Options.MayMake (options : Options) (made : List (String × String)) : Prop :=
  made = [] ∨ options.implicitConstructor = true ∧ made = [constructorKey]

/-- A declaration that was stubbed, and its stub. -/
def ClassStub.ListsFor (options : Options) (decl : ClassDecl) (stub : ClassStub) : Prop :=
  ∃ made, options.MayMake made ∧ stub.Lists made decl.keys

theorem stubMembers_lists (options : Options) (members : List Member) {state : StubState}
    (h : state.stub.Lists [] []) : (stubMembers options members).Clean state fun out s =>
      (∃ made, options.MayMake made
        ∧ s.stub.Lists made ((out.filterMap Member.method?).filterMap MethodDecl.key?))
      ∧ (out.filterMap Member.method?).map MethodDecl.name
        = (members.filterMap Member.method?).map MethodDecl.name := by
  unfold stubMembers
  refine clean_bind (stubFields_lists members h) fun fields s hs => ?_
  obtain ⟨hfields, hsame⟩ := hs
  refine clean_bind (Q := fun _ s => ∃ made, options.MayMake made ∧ s.stub.Lists made [])
    (clean_modify ?_) fun _ s hs => ?_
  · dsimp only
    split
    · next hmade =>
      refine ⟨[constructorKey], .inr ⟨(Bool.and_eq_true_iff.mp hmade).1, rfl⟩, hfields.fields,
        hfields.shown, hfields.entries, ?_, hfields.distinct⟩
      simp only [ClassImage.addMethod, List.map_append, hfields.images]
      rfl
    · exact ⟨[], .inl rfl, hfields⟩
  · obtain ⟨made, hmay, hlists⟩ := hs
    rw [← hsame]
    exact (stubMethods_lists fields hlists).mono fun _ _ hout => ⟨⟨made, hmay, hout.1⟩, hout.2⟩

theorem ClassDecl.stub_lists (options : Options) (ty : Ty) (decl : ClassDecl)
    (registry : Registry) :
    (decl.stub options ty).Clean registry fun out _ => out.2.ListsFor options out.1
      ∧ out.1.methods.map MethodDecl.name = decl.methods.map MethodDecl.name := by
  unfold stub
  refine clean_bind (Q := fun _ _ => True) (fun _ => trivial) fun pair s _ => ?_
  refine clean_bind (Q := fun _ _ => True) (fun _ => trivial) fun _ s _ => fun herrors => ?_
  let start : StubState := ⟨s, decl.outline ty pair.1 pair.2 s⟩
  have hstart : start.stub.Lists [] [] := ⟨List.nodup_nil, rfl, rfl, rfl, List.nodup_nil⟩
  obtain ⟨hlists, hnames⟩ := stubMembers_lists options decl.members hstart herrors
  simp only [ClassStub.ListsFor, ClassDecl.keys, ClassDecl.methods_eq]
  exact ⟨hlists, hnames⟩

theorem stubClasses_lists (options : Options) {decls : List ClassDecl}
    (h : ∀ decl ∈ decls, decl.ty.isSome = true) (registry : Registry) :
    (stubClasses options decls).Clean registry fun out _ =>
      List.Forall₂ (fun decl stub => stub.ListsFor options decl) out.1 out.2
        ∧ out.1.map (fun decl => decl.methods.map MethodDecl.name)
          = decls.map fun decl => decl.methods.map MethodDecl.name := by
  induction decls generalizing registry with
  | nil => exact clean_pure ⟨.nil, rfl⟩
  | cons first rest ih =>
    obtain ⟨ty, hty⟩ := Option.isSome_iff_exists.mp (h first List.mem_cons_self)
    unfold stubClasses
    rw [hty]
    refine clean_bind (first.stub_lists options ty registry) fun one s hone => clean_bind
      (ih (fun decl hdecl => h decl (List.mem_cons_of_mem _ hdecl)) s) fun others _ hrest =>
        clean_pure ⟨.cons hone.1 hrest.1, ?_⟩
    rw [List.map_cons, List.map_cons, hone.2, hrest.2]

theorem ClassStub.ListsFor.check {options : Options} {before after : ClassDecl} {stub : ClassStub}
    (h : stub.ListsFor options before) (hrel : before.Relates MethodDecl.SameStub after) :
    stub.ListsFor options after := by
  obtain ⟨made, hmay, hlists⟩ := h
  have hkeys : after.keys = before.keys :=
    filterMap_congr_forall₂ hrel.methods fun _ _ hsame => hsame.key?.1
  exact ⟨made, hmay, hkeys ▸ hlists⟩

/-! ## Images -/

/-- An image has fields of different names, and the declared methods of a class, perhaps behind a
constructor. Only that one can be there twice. -/
structure ClassImage.Lists (options : Options) (decl : ClassDecl) (image : ClassImage) : Prop where
  fields : (image.fields.map FieldImage.name).Nodup
  declared : decl.keys.Nodup
  methods : image.methods.map MethodImage.key = decl.keys
    ∨ options.implicitConstructor = true
      ∧ image.methods.map MethodImage.key = constructorKey :: decl.keys
  distinct : (image.methods.map MethodImage.key).Nodup
    ∨ options.implicitConstructor = true ∧ constructorKey ∈ decl.keys

theorem ClassImage.lists_of_made {options : Options} {decl : ClassDecl} {image : ClassImage}
    (hfields : (image.fields.map FieldImage.name).Nodup) (hdeclared : decl.keys.Nodup)
    {made : List (String × String)} (hmay : options.MayMake made)
    (hmethods : image.methods.map MethodImage.key = made ++ decl.keys) :
    image.Lists options decl := by
  rcases hmay with rfl | ⟨himplicit, rfl⟩
  · exact ⟨hfields, hdeclared, .inl hmethods, .inl (hmethods ▸ hdeclared)⟩
  · refine ⟨hfields, hdeclared, .inr ⟨himplicit, hmethods⟩, ?_⟩
    by_cases htwice : constructorKey ∈ decl.keys
    · exact .inr ⟨himplicit, htwice⟩
    · exact .inl (hmethods ▸ List.nodup_cons.mpr ⟨htwice, hdeclared⟩)

theorem ClassStub.ListsFor.image {options : Options} {decl : ClassDecl} {stub : ClassStub}
    (h : stub.ListsFor options decl) : stub.image.Lists options decl := by
  obtain ⟨made, hmay, hlists⟩ := h
  exact ClassImage.lists_of_made (hlists.shown ▸ hlists.fields) hlists.distinct hmay hlists.images

theorem ClassInfo.mayMake_outline (options : Options) (registry : Registry) (info : ClassInfo) :
    options.MayMake ((info.outline options registry).methods.map MethodImage.key) := by
  rw [methods_outline]
  unfold constructors
  split
  · next himplicit => exact .inr ⟨(Bool.and_eq_true_iff.mp himplicit).1, rfl⟩
  · exact .inl rfl

theorem MethodDecl.Becomes.key? {registry : Registry} {method : MethodDecl} {image : MethodImage}
    (h : method.Becomes registry image) : method.key? = some image.key := by
  obtain ⟨signature, hsignature, -, rfl⟩ := h.image_eq
  unfold MethodDecl.key?
  rw [hsignature]
  rfl

theorem keys_of_become {registry : Registry} {methods : List MethodDecl} {images : List MethodImage}
    (h : List.Forall₂ (MethodDecl.Becomes registry) methods images) :
    methods.filterMap MethodDecl.key? = images.map MethodImage.key := by
  induction h with
  | nil => rfl
  | cons hfirst _ ih => rw [List.filterMap_cons, hfirst.key?, List.map_cons, ih]

/-- A final class has the fields of the class that is found for it, and its own methods. -/
theorem ClassDecl.generate_lists {options : Options} {registry : Registry} {classes : ClassTable}
    {decl : ClassDecl} {image : ClassImage}
    (hclasses : ∀ info ∈ classes.classes, (info.fields.map FieldEntry.name).Nodup)
    (hdeclared : decl.keys.Nodup)
    (h : (decl.generate options registry classes).2 = .ok image) :
    image.relabelled.Lists options decl := by
  unfold ClassDecl.generate at h
  split at h
  · cases h
  · next info hinfo =>
    obtain ⟨ty, -, hclass⟩ := Option.bind_eq_some_iff.mp hinfo
    obtain ⟨hshape, made, hmethods, hbecome⟩ := generateMembers_shape h
    obtain ⟨constants, hrelabelled⟩ := image.exists_relabelled
    have hfields : image.fields.map FieldImage.name = info.fields.map FieldEntry.name := by
      rw [ClassInfo.shape_outline] at hshape
      have hshown := congrArg ClassImage.fields hshape
      rw [show image.fields = image.shape.fields from rfl, hshown]
      simp [ClassInfo.shape, Function.comp_def]
    have hmade : made.map MethodImage.key = decl.keys := by
      rw [← decl.methods_eq] at hbecome
      exact (keys_of_become hbecome).symm
    refine ClassImage.lists_of_made ?_ hdeclared (info.mayMake_outline options registry) ?_
    · rw [hrelabelled]
      exact hfields ▸ hclasses info (ClassTable.mem_of_class? hclass).1
    · rw [ClassImage.methods_relabelled, List.map_map, hmethods, List.map_append, ← hmade]
      rfl

/-! ## Units -/

namespace Compiler

variable {compiler : Compiler} {unit : CompilationUnit} {output : Recorder}

theorem analyzeDeclared_lists (options : Options) (unit : CompilationUnit)
    {declared : List ClassDecl} (h : ∀ decl ∈ declared, decl.ty.isSome = true)
    (registry : Registry) :
    (analyzeDeclared options unit declared).Clean registry fun out _ => ∃ stubs,
      out.2 = { classes := stubTable unit.package stubs, images := stubs.map ClassStub.image }
        ∧ List.Forall₂ (fun decl stub => stub.ListsFor options decl) out.1.types stubs
        ∧ out.1.types.map (fun decl => decl.methods.map MethodDecl.name)
          = declared.map fun decl => decl.methods.map MethodDecl.name := by
  unfold analyzeDeclared
  refine clean_bind (stubClasses_lists options h registry) fun (types, stubs) s hstubbed => ?_
  obtain ⟨hlists, hnames⟩ := hstubbed
  have hchecked := ClassDecl.checkList_relates (fun site method _ => method.check_sameStub site)
    MethodDecl.SameStub.refl (stubTable unit.package stubs) types s
  refine fun _ => ⟨stubs, rfl, ?_, Eq.trans ?_ hnames⟩
  · exact forall₂_of_common (fun _ _ _ hdecl hstub => hstub.check hdecl.1) hchecked hlists
  · refine map_eq_of_forall₂ hchecked fun _ _ hdecl => ?_
    exact map_eq_of_forall₂ hdecl.1.methods fun _ _ hsame => hsame.key?.2

/-- In a unit that compiles, under any options, every stub and every final class has fields of
different names, and its methods are those that the declaration has under their names, all
different, perhaps behind a constructor that no declaration makes. So two methods share name and
descriptor only where a class has that constructor and declares another one of its descriptor. -/
theorem members_distinct (hsuccess : (compiler.compile unit output).isSuccess = true) :
    ∃ finals, (compiler.compile unit output).output.classes = output.classes ++ finals
      ∧ List.Forall₂ (fun decl image => image.Lists compiler.options decl)
        (compiler.analysis unit).value.1.types (compiler.compile unit output).stubs
      ∧ List.Forall₂ (fun decl image => image.Lists compiler.options decl)
        (compiler.analysis unit).value.1.types finals
      ∧ (compiler.analysis unit).value.1.types.map (fun decl => decl.methods.map MethodDecl.name)
        = unit.types.map fun decl => decl.methods.map MethodDecl.name := by
  obtain ⟨herrors, images, hok⟩ := images_of_success hsuccess
  obtain ⟨-, houtput, -, -⟩ := compile_of_images output herrors hok
  have hanalyzed : ((analyzeDeclared compiler.options unit (declaredTypes unit)).run
      (declaredRegistry unit compiler.registry)).errors = [] := by
    unfold analysis at herrors
    rw [errors_analyze, List.append_eq_nil_iff, List.append_eq_nil_iff] at herrors
    exact herrors.2.2
  obtain ⟨stubs, hstubs, hlists, hnames⟩ := analyzeDeclared_lists compiler.options unit
    isSome_ty_declaredTypes (declaredRegistry unit compiler.registry) hanalyzed
  rw [← value_analyze] at hstubs hlists hnames
  refine ⟨images.map ClassImage.relabelled, ?_, ?_, ?_, ?_⟩
  · rw [houtput, Recorder.classes_replayAll]
  · rw [stubs_compile]
    change List.Forall₂ _ _ ((analyze compiler.options unit).run compiler.registry).value.2.images
    rw [hstubs, List.forall₂_map_right_iff]
    exact hlists.imp fun _ _ hstub => hstub.image
  · have hgenerated := generateClasses_forall₂ hok
    have hclasses : ∀ info ∈ (compiler.analysis unit).value.2.classes.classes,
        (info.fields.map FieldEntry.name).Nodup := by
      intro info hinfo
      change info ∈ ((analyze compiler.options unit).run
        compiler.registry).value.2.classes.classes at hinfo
      rw [hstubs, classes_stubTable, List.mem_reverse] at hinfo
      obtain ⟨stub, hstub, rfl⟩ := List.mem_map.mp hinfo
      obtain ⟨decl, -, made, -, hlist⟩ := exists_of_forall₂ hlists hstub
      exact hlist.fields
    have hdeclared : ∀ decl ∈ (compiler.analysis unit).value.1.types, decl.keys.Nodup := by
      intro decl hdecl
      obtain ⟨stub, -, made, -, hlist⟩ := exists_of_forall₂ hlists.flip hdecl
      exact hlist.distinct
    rw [List.forall₂_map_right_iff]
    exact ((List.forall₂_and_left _ _).mpr ⟨hdeclared, hgenerated⟩).imp fun decl image h =>
      ClassDecl.generate_lists hclasses h.1 h.2
  · refine hnames.trans ?_
    unfold declaredTypes
    rw [List.map_map]
    rfl

end Compiler

theorem members_distinct_twice :
    (Compiler.compile {} twiceUnit .empty).isSuccess = true
      ∧ ∃ finals, (Compiler.compile {} twiceUnit .empty).output.classes
          = Recorder.empty.classes ++ finals
        ∧ List.Forall₂ (fun decl image => image.Lists {} decl)
          (Compiler.analysis {} twiceUnit).value.1.types
          (Compiler.compile {} twiceUnit .empty).stubs
        ∧ List.Forall₂ (fun decl image => image.Lists {} decl)
          (Compiler.analysis {} twiceUnit).value.1.types finals
        ∧ (Compiler.analysis {} twiceUnit).value.1.types.map
            (fun decl => decl.methods.map MethodDecl.name) = [["twice"]] := by
  have hsuccess : (Compiler.compile {} twiceUnit .empty).isSuccess = true := by decide +kernel
  exact ⟨hsuccess, Compiler.members_distinct hsuccess⟩

/-! ### Two constructors -/

/-- `class Main` with a method `public void <init>() {}`. -/
def constructorUnit : CompilationUnit where
  file := "Main.java"
  package := none
  imports := []
  types :=
    [{ line := 1
       mods := .accPublic
       name := "Main"
       isInterface := false
       superclass := none
       interfaces := []
       members :=
        [.method
          { line := 2
            mods := .accPublic
            name := "<init>"
            returnType := ⟨"void", 0, 2⟩
            params := []
            exceptions := []
            body := some ⟨[], 2⟩ }] }]

/-- The stub and the final class hold the declared constructor and the other one. -/
theorem constructor_stands_twice :
    (Compiler.compile {} constructorUnit .empty).isSuccess = true
      ∧ (∃ image ∈ (Compiler.compile {} constructorUnit .empty).stubs,
        ¬ (image.methods.map MethodImage.key).Nodup)
      ∧ ∃ image ∈ (Compiler.compile {} constructorUnit .empty).output.classes,
        ¬ (image.methods.map MethodImage.key).Nodup := by
  decide +kernel

end ClassCompiler
