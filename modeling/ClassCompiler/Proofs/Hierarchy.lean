import ClassCompiler.Proofs.Unit.Known
import ClassCompiler.Proofs.Unit.Outlines

/-!
# Inherited members

A look-up of a member searches the classes of the unit among the ancestors of a type, and
assignability searches the same ancestors for a type. A class of a unit is no array, no primitive
and not `Object`, so for it assignability has no rule besides this search. Hence the members of a
class can be reached from a type just when values of the type can be stored where the class is
expected, whatever the supertypes are, cycles and types from outside of the unit included.

* `Registry.nodup_ancestors`, `Registry.ancestors_eq_cons`: each ancestor once, the type first
* `StubState.Gains`: the fields that stubbing gives to a class
* `ClassTable.filter_hierarchy`: a class among the ancestors of a type
* `CompilationUnit.inherited_members`
-/

namespace ClassCompiler

open Check

/-! ## The search -/

namespace Registry

variable {registry : Registry}

theorem nodup_visit {fuel : Nat} {seen pending : List Ty} (h : seen.Nodup) :
    (registry.visit fuel seen pending).Nodup := by
  induction fuel generalizing seen pending with
  | zero => exact h
  | succ fuel ih =>
    cases pending with
    | nil => exact h
    | cons ty pending =>
      rw [visit]
      split
      · exact ih h
      · next hnew => exact ih (List.nodup_cons.mpr ⟨by simpa using hnew, h⟩)

theorem nodup_ancestors (registry : Registry) (ty : Ty) : (registry.ancestors ty).Nodup :=
  List.nodup_reverse.mpr (nodup_visit List.nodup_nil)

theorem suffix_visit (fuel : Nat) (seen pending : List Ty) :
    seen <:+ registry.visit fuel seen pending := by
  induction fuel generalizing seen pending with
  | zero => exact List.suffix_refl seen
  | succ fuel ih =>
    cases pending with
    | nil => exact List.suffix_refl seen
    | cons ty pending =>
      rw [visit]
      split
      · exact ih seen pending
      · exact (List.suffix_cons ty seen).trans (ih _ _)

/-- The search starts with the type itself. -/
theorem ancestors_eq_cons (registry : Registry) (ty : Ty) :
    ∃ rest, registry.ancestors ty = ty :: rest := by
  unfold ancestors visitBound
  rw [Nat.add_comm, visit, if_neg (by simp)]
  obtain ⟨later, hlater⟩ := registry.suffix_visit
    (registry.entries.values.flatMap fun entry => entry.supertypes).length [ty]
    (registry.supertypes ty ++ [])
  exact ⟨later.reverse, by rw [← hlater, List.reverse_append]; rfl⟩

/-- What is left of assignability to a type that no rule is about. -/
theorem isAssignableFrom_of_ordinary {target source : Ty} (htarget : target.isReserved = false)
    (hobject : target ≠ .object) (harray : registry.elementType? target = none)
    (hsource : source.isReference = true) (hnull : source ≠ .null) :
    registry.isAssignableFrom target source = (registry.ancestors source).contains target := by
  unfold Ty.isReserved at htarget
  simp only [Bool.or_eq_false_iff, beq_eq_false_iff_ne] at htarget
  obtain ⟨⟨hprim, hany⟩, -⟩ := htarget
  obtain ⟨hprim', hany'⟩ := Ty.isReference_iff.mp hsource
  unfold isAssignableFrom
  rw [isAssignableWithin_plain (.inl harray)]
  by_cases hsame : target = source
  · subst hsame
    obtain ⟨rest, hrest⟩ := registry.ancestors_eq_cons target
    rw [if_pos (.inl rfl), hrest]
    simp
  · have hplain : source.isPrimitive = false := Ty.isPrimitive_eq_false_iff.mpr hprim'
    rw [if_neg (by simp [hsame, hany, hany']), if_neg hnull, hprim, hplain, Bool.or_self,
      if_neg Bool.false_ne_true, if_neg hobject]

end Registry

namespace ClassTable

variable {table : ClassTable} {registry : Registry}

/-- A class that is found at its handle stands among the ancestors of a type once, if at all. -/
theorem filter_hierarchy {info : ClassInfo} (h : table.class? info.ty = some info) (ty : Ty) :
    (table.hierarchy registry ty).filter (fun other => other.ty == info.ty)
      = if (registry.ancestors ty).contains info.ty then [info] else [] := by
  have hnodup := registry.nodup_ancestors ty
  unfold hierarchy
  generalize registry.ancestors ty = ancestors at hnodup
  induction ancestors with
  | nil => rfl
  | cons first rest ih =>
    rw [List.nodup_cons] at hnodup
    have hrest := ih hnodup.2
    by_cases hfirst : first = info.ty
    · subst hfirst
      rw [if_neg (by simpa using hnodup.1)] at hrest
      rw [List.filterMap_cons_some h, List.filter_cons_of_pos (by simp), hrest, if_pos (by simp)]
    · have hcontains : (first :: rest).contains info.ty = rest.contains info.ty := by
        simp [Ne.symm hfirst]
      rw [hcontains, ← hrest]
      cases hclass : table.class? first with
      | none => rw [List.filterMap_cons_none hclass]
      | some other =>
        have hother : other.ty ≠ info.ty := (mem_of_class? hclass).2 ▸ hfirst
        rw [List.filterMap_cons_some hclass, List.filter_cons_of_neg (by simpa using hother)]

/-- The search for members starts with the class of the type itself. -/
theorem hierarchy_eq_cons {info : ClassInfo} (h : table.class? info.ty = some info) :
    ∃ rest, table.hierarchy registry info.ty = info :: rest := by
  obtain ⟨rest, hrest⟩ := registry.ancestors_eq_cons info.ty
  unfold hierarchy
  rw [hrest, List.filterMap_cons_some h]
  exact ⟨_, rfl⟩

theorem isSome_field? {info : ClassInfo} {name : String} :
    (info.field? name).isSome = true ↔ name ∈ info.fields.map FieldEntry.name := by
  unfold ClassInfo.field?
  simp [List.find?_isSome]

theorem isSome_lookupField? {ty : Ty} {name : String} :
    (table.lookupField? registry ty name).isSome = true
      ↔ ∃ info ∈ table.hierarchy registry ty, name ∈ info.fields.map FieldEntry.name := by
  unfold lookupField?
  rw [List.findSome?_isSome_iff]
  simp only [Option.isSome_map, isSome_field?]

/-- A field that a class declares itself comes first. -/
theorem lookupField?_own {info : ClassInfo} {name : String}
    (h : table.class? info.ty = some info) (hname : name ∈ info.fields.map FieldEntry.name) :
    ∃ ref, table.lookupField? registry info.ty name = some ref ∧ ref.owner = info.ty := by
  obtain ⟨rest, hrest⟩ : ∃ rest, table.hierarchy registry info.ty = info :: rest :=
    hierarchy_eq_cons h
  obtain ⟨field, hfield⟩ := Option.isSome_iff_exists.mp (isSome_field?.mpr hname)
  refine ⟨⟨info.ty, field.ty, field.mods.isStatic⟩, ?_, rfl⟩
  unfold lookupField?
  rw [hrest, List.findSome?_cons, hfield]
  rfl

end ClassTable

/-! ## Fields of a class -/

def Member.fieldNames : Member → List String
  | field decl => decl.names
  | method _ => []

/-- The names of the fields that a class declares. -/
def ClassDecl.fieldNames (decl : ClassDecl) : List String := decl.members.flatMap Member.fieldNames

namespace StubState

/-- The class stays the class of its type, and has fields of the names besides those it had. -/
def Gains (names : List String) (before after : StubState) : Prop :=
  after.stub.info.ty = before.stub.info.ty
    ∧ ∀ name, name ∈ after.stub.info.fields.map FieldEntry.name
      ↔ name ∈ before.stub.info.fields.map FieldEntry.name ∨ name ∈ names

theorem gains_bind {α β : Type} {n m : List String} {first : Check StubState α}
    {next : α → Check StubState β} (h : first.Moves fun s _ e => Gains n s e)
    (hnext : ∀ a, (next a).Moves fun s _ e => Gains m s e) :
    (first >>= next).Moves fun s _ e => Gains (n ++ m) s e := by
  refine (moves_bind h hnext).mono ?_
  rintro s _ e ⟨_, middle, hone, htwo⟩
  refine ⟨htwo.1.trans hone.1, fun name => ?_⟩
  rw [htwo.2, hone.2, List.mem_append, or_assoc]

theorem gains_of_info {α : Type} {step : Check StubState α}
    (h : ∀ s, (step.run s).state.stub.info.ty = s.stub.info.ty
      ∧ (step.run s).state.stub.info.fields = s.stub.info.fields) :
    step.Moves fun s _ e => Gains [] s e := by
  intro s
  refine ⟨(h s).1, fun name => ?_⟩
  rw [(h s).2]
  simp

theorem gains_pure {α : Type} (a : α) :
    (pure a : Check StubState α).Moves fun s _ e => Gains [] s e :=
  gains_of_info fun _ => ⟨rfl, rfl⟩

/-- A second field of one name is no loss. -/
theorem addField_gains (field : FieldEntry) (descriptor : String) :
    (addField field descriptor).Moves fun s _ e => Gains [field.name] s e := by
  intro s
  unfold addField ClassInfo.addField Check.run
  dsimp only
  by_cases hfound : (s.stub.info.field? field.name).isSome = true
  · rw [if_pos hfound]
    refine ⟨rfl, fun name => ?_⟩
    have hmem := ClassTable.isSome_field?.mp hfound
    refine ⟨.inl, fun h => h.elim id fun hname => ?_⟩
    rw [List.mem_singleton.mp hname]
    exact hmem
  · rw [if_neg hfound]
    refine ⟨rfl, fun name => ?_⟩
    rw [List.map_append, List.mem_append]
    rfl

theorem addMethod_gains (method : MethodEntry) (image : MethodImage) :
    (addMethod method image).Moves fun s _ e => Gains [] s e := by
  refine gains_of_info fun s => ?_
  unfold addMethod ClassInfo.addMethod Check.run
  dsimp only
  by_cases hfound : s.stub.info.hasMethod method.name method.descriptor = true
  · rw [if_pos hfound]
    exact ⟨rfl, rfl⟩
  · rw [if_neg hfound]
    exact ⟨rfl, rfl⟩

end StubState

open StubState

/-- A step on the registry, or one that does not change the state. -/
theorem gains_onRegistry {α : Type} (step : Check Registry α) :
    (onRegistry step).Moves fun s _ e => Gains [] s e := gains_of_info fun _ => ⟨rfl, rfl⟩

theorem gains_read {α : Type} (view : StubState → α) :
    (Check.read view).Moves fun s _ e => Gains [] s e := gains_of_info fun _ => ⟨rfl, rfl⟩

theorem gains_reportAll (errors : List CompileError) :
    (Check.reportAll errors : Check StubState Unit).Moves fun s _ e => Gains [] s e :=
  gains_of_info fun _ => ⟨rfl, rfl⟩

theorem gains_forM {step : String → Check StubState PUnit} (names : List String)
    (h : ∀ name, (step name).Moves fun s _ e => Gains [name] s e) :
    (names.forM step).Moves fun s _ e => Gains names s e := by
  induction names with
  | nil => exact gains_pure ()
  | cons first rest ih => exact gains_bind (h first) fun _ => ih

theorem FieldDecl.stub_gains (field : FieldDecl) :
    field.stub.Moves fun s _ e => Gains field.names s e := by
  unfold stub
  refine (gains_bind (gains_onRegistry _) fun ty => gains_bind (gains_read _) fun info =>
    gains_bind (gains_read _) fun descriptor => gains_bind (m := [])
      (gains_forM field.names fun name => addField_gains _ _) fun _ => gains_pure _).mono ?_
  simp only [List.nil_append, List.append_nil]
  exact fun _ _ _ h => h

theorem MethodDecl.stub_gains (method : MethodDecl) :
    method.stub.Moves fun s _ e => Gains [] s e := by
  rw [stub_eq]
  refine gains_bind (gains_read _) fun info => gains_bind (gains_reportAll _) fun _ => ?_
  unfold stubAs
  exact gains_bind (gains_onRegistry _) fun signature => gains_bind (gains_reportAll _) fun _ =>
    gains_bind (gains_read _) fun exceptions => gains_bind (addMethod_gains _ _) fun _ =>
      gains_pure _

theorem stubFields_gains (members : List Member) :
    (stubFields members).Moves fun s _ e => Gains (members.flatMap Member.fieldNames) s e := by
  induction members with
  | nil => exact gains_pure _
  | cons first rest ih =>
    cases first with
    | field field =>
      refine (gains_bind field.stub_gains fun _ => gains_bind (m := []) ih fun _ =>
        gains_pure _).mono fun _ _ _ h => ?_
      rwa [List.append_nil] at h
    | method method =>
      refine (gains_bind (m := []) ih fun _ => gains_pure _).mono fun _ _ _ h => ?_
      rwa [List.append_nil] at h

theorem stubMethods_gains (members : List Member) :
    (stubMethods members).Moves fun s _ e => Gains [] s e := by
  induction members with
  | nil => exact gains_pure _
  | cons first rest ih =>
    cases first with
    | field field => exact gains_bind ih fun _ => gains_pure _
    | method method =>
      exact gains_bind method.stub_gains fun _ => gains_bind ih fun _ => gains_pure _

theorem stubMembers_gains (options : Options) (members : List Member) :
    (stubMembers options members).Moves fun s _ e =>
      Gains (members.flatMap Member.fieldNames) s e := by
  unfold stubMembers
  refine (gains_bind (stubFields_gains members) fun fields => gains_bind (m := [])
    (gains_of_info fun s => ?_) fun _ => stubMethods_gains fields).mono fun _ _ _ h => ?_
  · rw [run_modify]
    dsimp only
    split <;> exact ⟨rfl, rfl⟩
  · rwa [List.append_nil, List.append_nil] at h

/-- A stubbed class has the handle of its declaration and the fields that it declares. -/
structure ClassStub.Shapes (package : Option String) (decl : ClassDecl) (stub : ClassStub) :
    Prop where
  ty : stub.info.ty = decl.handle package
  fields : ∀ name, name ∈ stub.info.fields.map FieldEntry.name ↔ name ∈ decl.fieldNames

theorem ClassDecl.stub_shapes (options : Options) (package : Option String) (decl : ClassDecl) :
    ((decl.declared package).stub options (decl.handle package)).Gives fun out =>
      out.2.Shapes package decl := by
  unfold stub
  refine gives_then fun (superclass, interfaces) => gives_then fun _ => fun registry => ?_
  obtain ⟨hty, hfields⟩ := stubMembers_gains options decl.members
    ⟨registry, (decl.declared package).outline (decl.handle package) superclass interfaces registry⟩
  refine ⟨hty, fun name => (hfields name).trans ?_⟩
  simp [outline, fieldNames]

theorem stubClasses_shapes (options : Options) (package : Option String) (decls : List ClassDecl) :
    (stubClasses options (decls.map (ClassDecl.declared package))).Gives fun out =>
      List.Forall₂ (fun decl stub => stub.Shapes package decl) decls out.2 := by
  induction decls with
  | nil => exact gives_pure .nil
  | cons first rest ih =>
    exact gives_bind (first.stub_shapes options package) fun one hone => gives_bind ih
      fun others hothers => gives_pure (.cons hone hothers)

/-! ## Units -/

namespace CompilationUnit

open Compiler

variable {unit : CompilationUnit} {options : Options} {start : Registry}

/-- The classes of a stubbed unit have the handles and the fields of its declarations, and are found
at their handles. -/
theorem class?_stub (hnames : (unit.types.map ClassDecl.name).Nodup)
    (hapart : HandlesApart unit.declaredNames) {decl : ClassDecl} (hdecl : decl ∈ unit.types) :
    ∃ info, ((unit.stub options).run start).value.2.classes.class? (decl.handle unit.package)
        = some info ∧ info.ty = decl.handle unit.package
      ∧ ∀ name, name ∈ info.fields.map FieldEntry.name ↔ name ∈ decl.fieldNames := by
  have hshapes := stubClasses_shapes options unit.package unit.types (declaredRegistry unit start)
  obtain ⟨stub, hstub, hshape⟩ := exists_of_forall₂ hshapes.flip hdecl
  have htys := map_eq_of_forall₂ hshapes (f := ClassDecl.handle unit.package)
    (g := fun stub => stub.info.ty) fun _ _ h => h.ty
  refine ⟨stub.info, ?_, hshape.ty, hshape.fields⟩
  rw [run_stub, ← hshape.ty]
  refine ClassTable.class?_of_mem ?_ ?_
  · rw [classes_stubTable, List.map_reverse, List.nodup_reverse, List.map_map]
    exact htys ▸ nodup_handles hnames hapart
  · rw [classes_stubTable, List.mem_reverse]
    exact List.mem_map_of_mem hstub

/-- Every class of the table stands for a declaration. -/
theorem exists_decl_of_class? {ty : Ty} {info : ClassInfo}
    (h : ((unit.stub options).run start).value.2.classes.class? ty = some info) :
    ∃ decl ∈ unit.types, ty = decl.handle unit.package := by
  have hshapes := stubClasses_shapes options unit.package unit.types (declaredRegistry unit start)
  obtain ⟨hmem, rfl⟩ := ClassTable.mem_of_class? h
  rw [run_stub, classes_stubTable, List.mem_reverse] at hmem
  obtain ⟨stub, hstub, rfl⟩ := List.mem_map.mp hmem
  obtain ⟨decl, hdecl, hshape⟩ := exists_of_forall₂ hshapes hstub
  exact ⟨decl, hdecl, hshape.ty⟩

/-- A class of the unit stays what it was declared as. -/
theorem elementType?_stub (hnames : (unit.types.map ClassDecl.name).Nodup)
    (hapart : HandlesApart unit.declaredNames) {decl : ClassDecl} (hdecl : decl ∈ unit.types) :
    ((unit.stub options).run start).state.elementType? (decl.handle unit.package) = none := by
  have hentry : (declaredRegistry unit start).get? (decl.handle unit.package)
      = some (decl.entry unit.package) := by
    unfold declaredRegistry
    rw [state_declareClasses]
    exact Table.get?_insertAll_of_mem (nodup_handles hnames hapart) hdecl
  have hbelow := (stubClasses_learns options (unit.types.map (ClassDecl.declared unit.package))
    (declaredRegistry unit start)).1
  have hkind := hbelow.kind? (congrArg (Option.map TypeEntry.kind) hentry)
  rw [run_stub, Registry.elementType?_eq_none_iff]
  intro element harray
  rw [show _ = some (TypeKind.array element) from harray] at hkind
  revert hkind
  unfold ClassDecl.entry
  dsimp only
  split <;> exact fun h => by cases h

/-- Values of a type can be stored where a class of the unit is expected, if the type inherits from
it. -/
theorem isAssignableFrom_stub (hnames : (unit.types.map ClassDecl.name).Nodup)
    (hordinary : ∀ name ∈ unit.declaredNames, name ∉ "java/lang/Object" :: reservedNames)
    (hapart : HandlesApart ("java/lang/Object" :: reservedNames ++ unit.declaredNames)) {ty : Ty}
    (hty : ty.isReference = true) (hnull : ty ≠ .null) {decl : ClassDecl}
    (hdecl : decl ∈ unit.types) :
    ((unit.stub options).run start).state.isAssignableFrom (decl.handle unit.package) ty
      = (((unit.stub options).run start).state.ancestors ty).contains
        (decl.handle unit.package) := by
  have hdeclared : HandlesApart unit.declaredNames := fun one hone two htwo =>
    hapart one (List.mem_append_right _ hone) two (List.mem_append_right _ htwo)
  have hmem : decl.internalName unit.package ∈ unit.declaredNames := List.mem_map_of_mem hdecl
  have hname := hordinary _ hmem
  rw [List.mem_cons, not_or] at hname
  refine Registry.isAssignableFrom_of_ordinary ?_ ?_ (elementType?_stub hnames hdeclared hdecl)
    hty hnull
  · exact hapart.isReserved
      (fun name hname => List.mem_append_left _ (List.mem_cons_of_mem _ hname))
      (List.mem_append_right _ hmem) hname.2
  · exact fun heq => hname.1 (hapart _ (List.mem_append_right _ hmem) _
      (List.mem_append_left _ List.mem_cons_self) heq)

/-- After a unit is stubbed, whatever was known before, the search for members from a type meets a
class of the unit just when values of the type can be stored where the class is expected, and then
once. It starts with the type itself, if that is a class of the unit. So a field is found just when
such a class declares one of its name, and a field that the type declares comes first. -/
theorem inherited_members (unit : CompilationUnit) (options : Options) (start : Registry)
    (hnames : (unit.types.map ClassDecl.name).Nodup)
    (hordinary : ∀ name ∈ unit.declaredNames, name ∉ "java/lang/Object" :: reservedNames)
    (hapart : HandlesApart ("java/lang/Object" :: reservedNames ++ unit.declaredNames)) {ty : Ty}
    (hty : ty.isReference = true) (hnull : ty ≠ .null) :
    let done := (unit.stub options).run start
    let table := done.value.2.classes
    (∀ decl ∈ unit.types, ∃ info, table.class? (decl.handle unit.package) = some info
        ∧ info.ty = decl.handle unit.package
        ∧ (∀ name, (info.field? name).isSome = true ↔ name ∈ decl.fieldNames)
        ∧ (table.hierarchy done.state ty).filter (fun other => other.ty == info.ty)
          = (if done.state.isAssignableFrom info.ty ty then [info] else [])
        ∧ (info.ty = ty → ∃ rest, table.hierarchy done.state ty = info :: rest))
      ∧ (∀ info ∈ table.hierarchy done.state ty, ∃ decl ∈ unit.types,
          table.class? (decl.handle unit.package) = some info)
      ∧ (∀ name, (table.lookupField? done.state ty name).isSome = true ↔ ∃ decl ∈ unit.types,
          done.state.isAssignableFrom (decl.handle unit.package) ty = true
            ∧ name ∈ decl.fieldNames)
      ∧ ∀ decl ∈ unit.types, decl.handle unit.package = ty → ∀ name ∈ decl.fieldNames,
          ∃ ref, table.lookupField? done.state ty name = some ref ∧ ref.owner = ty := by
  intro done table
  have hdeclared : HandlesApart unit.declaredNames := fun one hone two htwo =>
    hapart one (List.mem_append_right _ hone) two (List.mem_append_right _ htwo)
  have hassigns : ∀ decl ∈ unit.types,
      done.state.isAssignableFrom (decl.handle unit.package) ty
        = (done.state.ancestors ty).contains (decl.handle unit.package) :=
    fun decl hdecl => isAssignableFrom_stub hnames hordinary hapart hty hnull hdecl
  have hclass : ∀ decl ∈ unit.types, ∃ info, table.class? (decl.handle unit.package) = some info
      ∧ info.ty = decl.handle unit.package
      ∧ ∀ name, name ∈ info.fields.map FieldEntry.name ↔ name ∈ decl.fieldNames :=
    fun decl hdecl => class?_stub hnames hdeclared hdecl
  refine ⟨fun decl hdecl => ?_, fun info hinfo => ?_, fun name => ?_, ?_⟩
  · obtain ⟨info, hfound, hown, hfields⟩ := hclass decl hdecl
    have hself : table.class? info.ty = some info := hown ▸ hfound
    refine ⟨info, hfound, hown, fun name => ClassTable.isSome_field?.trans (hfields name), ?_, ?_⟩
    · rw [ClassTable.filter_hierarchy hself, hown, hassigns decl hdecl]
    · rintro rfl
      exact ClassTable.hierarchy_eq_cons hself
  · obtain ⟨ancestor, -, hfound⟩ := List.mem_filterMap.mp hinfo
    obtain ⟨decl, hdecl, rfl⟩ := exists_decl_of_class? hfound
    exact ⟨decl, hdecl, hfound⟩
  · rw [ClassTable.isSome_lookupField?]
    constructor
    · rintro ⟨info, hinfo, hname⟩
      obtain ⟨ancestor, hancestor, hfound⟩ := List.mem_filterMap.mp hinfo
      obtain ⟨decl, hdecl, rfl⟩ := exists_decl_of_class? hfound
      obtain ⟨info', hfound', -, hfields⟩ := hclass decl hdecl
      cases hfound.symm.trans hfound'
      exact ⟨decl, hdecl, (hassigns decl hdecl).trans (List.contains_iff_mem.mpr hancestor),
        (hfields name).mp hname⟩
    · rintro ⟨decl, hdecl, hassign, hname⟩
      obtain ⟨info, hfound, -, hfields⟩ := hclass decl hdecl
      rw [hassigns decl hdecl] at hassign
      exact ⟨info, List.mem_filterMap.mpr ⟨_, List.contains_iff_mem.mp hassign, hfound⟩,
        (hfields name).mpr hname⟩
  · rintro decl hdecl rfl name hname
    obtain ⟨info, hfound, hown, hfields⟩ := hclass decl hdecl
    rw [← hown]
    exact ClassTable.lookupField?_own (hown ▸ hfound) ((hfields name).mpr hname)

end CompilationUnit

/-- `interface I { int k; }`, `class A extends B { int a; }`, and
`class B extends A implements I {}`. -/
def cycleUnit : CompilationUnit where
  file := "Main.java"
  package := none
  imports := []
  types :=
    [{ line := 1
       mods := .empty
       name := "I"
       isInterface := true
       superclass := none
       interfaces := []
       members := [.field { line := 1, mods := .empty, type := ⟨"int", 0, 1⟩, names := ["k"] }] },
      { line := 2
        mods := .empty
        name := "A"
        isInterface := false
        superclass := some ⟨"B", 0, 2⟩
        interfaces := []
        members := [.field { line := 2, mods := .empty, type := ⟨"int", 0, 2⟩, names := ["a"] }] },
      { line := 3
        mods := .empty
        name := "B"
        isInterface := false
        superclass := some ⟨"A", 0, 3⟩
        interfaces := [⟨"I", 0, 3⟩]
        members := [] }]

theorem inherited_members_cycle :
    (cycleUnit.types.map ClassDecl.name).Nodup
      ∧ (∀ name ∈ cycleUnit.declaredNames, name ∉ "java/lang/Object" :: reservedNames)
      ∧ HandlesApart ("java/lang/Object" :: reservedNames ++ cycleUnit.declaredNames)
      ∧ (Ty.named "A").isReference = true ∧ Ty.named "A" ≠ .null
      ∧ (((cycleUnit.stub {}).run .builtin).value.2.classes.lookupField?
          ((cycleUnit.stub {}).run .builtin).state (Ty.named "A") "k").isSome = true
      ∧ ∃ ref, ((cycleUnit.stub {}).run .builtin).value.2.classes.lookupField?
          ((cycleUnit.stub {}).run .builtin).state (Ty.named "A") "a" = some ref
        ∧ ref.owner = Ty.named "A" := by
  have hnames : (cycleUnit.types.map ClassDecl.name).Nodup := by decide
  have hordinary :
      ∀ name ∈ cycleUnit.declaredNames, name ∉ "java/lang/Object" :: reservedNames := by decide
  have hapart : HandlesApart ("java/lang/Object" :: reservedNames ++ cycleUnit.declaredNames) := by
    decide +kernel
  have hty : (Ty.named "A").isReference = true := by decide +kernel
  have hnull : Ty.named "A" ≠ .null := by decide +kernel
  obtain ⟨-, -, hfield, hown⟩ :=
    CompilationUnit.inherited_members cycleUnit {} .builtin hnames hordinary hapart hty hnull
  refine ⟨hnames, hordinary, hapart, hty, hnull, (hfield "k").mpr ?_,
    hown _ (List.mem_cons_of_mem _ List.mem_cons_self) rfl "a" (by decide)⟩
  exact ⟨_, List.mem_cons_self, by decide +kernel, by decide⟩

end ClassCompiler
