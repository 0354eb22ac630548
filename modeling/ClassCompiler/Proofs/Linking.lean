import ClassCompiler.Proofs.Body.Links
import ClassCompiler.Proofs.Code.Members
import ClassCompiler.Proofs.StubAgreement

/-!
# Emitted members link

Whatever an instruction in the classes of a unit names is there: apart from the constructors of
superclasses and the calls on string builders, the owner is a class of the same unit, and its final
class has a field or a method of that name and descriptor. The instruction is the one for this
member. A reference comes from the class that bodies see, and the final class from its declaration;
stubs tie the two together.

* `MemberUse.Links`: the member that an instruction names
* `Compiler.members_link`
-/

namespace ClassCompiler

open Check

/-! ## Links -/

/-- The field that an access names, and the access is the one for it. -/
structure FieldImage.Accepts (field : FieldImage) (use : MemberUse) : Prop where
  name : field.name = use.name
  descriptor : field.descriptor = use.descriptor
  access : use.op ∈ [.getstatic, .putstatic, .getfield, .putfield]
  static : use.op ∈ [.getstatic, .putstatic] ↔ field.mods.isStatic = true

/-- The method that a call names, and the call is the one for it. -/
structure MethodImage.Accepts (inInterface : Bool) (method : MethodImage) (use : MemberUse) :
    Prop where
  name : method.name = use.name
  descriptor : method.descriptor = use.descriptor
  call : use.op ∈ [.invokestatic, .invokespecial, .invokeinterface, .invokevirtual]
  static : use.op = .invokestatic ↔ method.mods.isStatic = true
  special : method.mods.isStatic = false →
    (use.op = .invokespecial ↔ method.mods.isPrivate = true)
  interface : method.mods.isStatic = false →
    (use.op = .invokeinterface ↔ method.mods.isPrivate = false ∧ inInterface = true)

/-- A declaration of the unit and its class among the final ones have the member. -/
def MemberUse.Links (unit : CompilationUnit) (finals : List ClassImage) (use : MemberUse) : Prop :=
  ∃ decl ∈ unit.types, ∃ final ∈ finals, decl.internalName unit.package = use.owner
    ∧ final.name = use.owner
    ∧ ((∃ field ∈ final.fields, field.Accepts use)
      ∨ ∃ method ∈ final.methods, method.Accepts decl.isInterface use)

def MemberUse.IsConstructorCall (use : MemberUse) : Prop :=
  use.op = .invokespecial ∧ use.name = "<init>"

theorem MethodRef.invokeOp_iff (ref : MethodRef) :
    ExprCode.invokeOp ref ∈ [.invokestatic, .invokespecial, .invokeinterface, .invokevirtual]
      ∧ (ExprCode.invokeOp ref = .invokestatic ↔ ref.isStatic = true)
      ∧ (ref.isStatic = false → (ExprCode.invokeOp ref = .invokespecial ↔ ref.isPrivate = true))
      ∧ (ref.isStatic = false → (ExprCode.invokeOp ref = .invokeinterface
        ↔ ref.isPrivate = false ∧ ref.ownerIsInterface = true)) := by
  unfold ExprCode.invokeOp
  cases ref.isStatic <;> cases ref.isPrivate <;> cases ref.ownerIsInterface <;> simp

/-! ## Classes that bodies see, and final classes -/

/-- The final class has what the class that bodies see has. -/
structure ClassInfo.Becomes (last : Registry) (info : ClassInfo) (final : ClassImage) : Prop where
  name : final.name = info.internalName
  fields : final.fields = info.fields.map fun field =>
    ⟨field.mods, field.name, last.descriptor field.ty⟩
  methods : ∀ entry ∈ info.methods, ∃ method ∈ final.methods, method.mods = entry.mods
    ∧ method.name = entry.name ∧ method.descriptor = entry.descriptor

theorem ClassStub.Shows.becomes {options : Options} {last : Registry} {decl : ClassDecl}
    {stub : ClassStub} {classes : ClassTable} {image : ClassImage}
    (h : stub.Shows options last decl) (hclass : classes.class? stub.info.ty = some stub.info)
    (hok : (decl.generate options last classes).2 = .ok image) :
    stub.info.Becomes last image.relabelled := by
  obtain ⟨hshape, made, hmade, hbecome⟩ := h.generate hclass hok
  have hinfo : image.shape = stub.info.shape last := hshape.trans h.shape
  have hname : image.name = stub.info.internalName := congrArg ClassImage.name hinfo
  have hfields := congrArg ClassImage.fields hinfo
  refine ⟨image.name_relabelled.trans hname, image.fields_relabelled.trans hfields,
    fun entry hentry => ?_⟩
  rw [h.entries] at hentry
  obtain ⟨method, hmethod, hshown⟩ := List.mem_filterMap.mp hentry
  obtain ⟨made', hmem, hbecomes⟩ : ∃ made' ∈ made, method.Becomes last made' :=
    exists_of_forall₂ hbecome.flip hmethod
  obtain ⟨signature, hsignature, -, rfl⟩ := hbecomes.image_eq
  unfold MethodDecl.entry? at hshown
  rw [hsignature] at hshown
  cases hshown
  rw [ClassImage.methods_relabelled, hmade]
  exact ⟨_, List.mem_map_of_mem (List.mem_append_right _ hmem), rfl, rfl, rfl⟩

section

variable {last : Registry} {info : ClassInfo} {final : ClassImage}

theorem ClassInfo.Becomes.field (h : info.Becomes last final) {entry : FieldEntry}
    (hentry : entry ∈ info.fields) {use : MemberUse} {op : OpCode}
    (huse : use = ⟨op, final.name, entry.name, last.descriptor entry.ty⟩)
    (hop : op ∈ if entry.mods.isStatic then [OpCode.getstatic, .putstatic]
      else [.getfield, .putfield]) : ∃ field ∈ final.fields, field.Accepts use := by
  subst huse
  refine ⟨⟨entry.mods, entry.name, last.descriptor entry.ty⟩, ?_, rfl, rfl, ?_, ?_⟩
  · rw [h.fields]
    exact List.mem_map_of_mem hentry
  · split at hop <;> rcases List.mem_pair.mp hop with rfl | rfl <;> simp
  · cases hstatic : entry.mods.isStatic with
    | true =>
      rw [hstatic] at hop
      exact iff_of_true hop rfl
    | false =>
      rw [hstatic] at hop
      refine iff_of_false (fun hmem => ?_) Bool.false_ne_true
      rcases List.mem_pair.mp hop with rfl | rfl <;> simp at hmem

theorem ClassInfo.Becomes.method (h : info.Becomes last final) {entry : MethodEntry}
    (hentry : entry ∈ info.methods) (ref : MethodRef) (hstatic : ref.isStatic = entry.isStatic)
    (hprivate : ref.isPrivate = entry.mods.isPrivate) {use : MemberUse}
    (huse : use = ⟨ExprCode.invokeOp ref, final.name, entry.name, entry.descriptor⟩) :
    ∃ method ∈ final.methods, method.Accepts ref.ownerIsInterface use := by
  subst huse
  obtain ⟨method, hmethod, hmods, hname, hdescriptor⟩ := h.methods entry hentry
  have hstatic' : method.mods.isStatic = ref.isStatic := by
    rw [hmods, hstatic]
    rfl
  have hprivate' : method.mods.isPrivate = ref.isPrivate := by rw [hmods, hprivate]
  obtain ⟨hcall, hinvokestatic, hspecial, hinterface⟩ := ref.invokeOp_iff
  rw [← hstatic'] at hinvokestatic hspecial hinterface
  rw [← hprivate'] at hspecial hinterface
  exact ⟨method, hmethod, hname, hdescriptor, hcall, hinvokestatic, hspecial, hinterface⟩

end

/-! ## Units -/

namespace Compiler

variable {compiler : Compiler} {unit : CompilationUnit} {output : Recorder}

theorem analysis_bound (compiler : Compiler) (unit : CompilationUnit) :
    ∀ method ∈ (compiler.analysis unit).value.1.methods, ∀ d ∈ method.nodes,
      d.Bound (compiler.analysis unit).value.2.classes := by
  refine analyze_have _ _ _ fun owner parsed method hstub => ?_
  obtain ⟨signature, hsignature⟩ := hstub.signature
  exact MethodDecl.check_everywhere ⟨_, owner⟩ (fun registry e => e.check_bound _) hsignature

/-- A class of the unit keeps its internal name. -/
theorem internalName_info (hnames : HandlesApart unit.declaredNames) {info : ClassInfo}
    (hinfo : info ∈ (compiler.analysis unit).value.2.classes.classes) :
    (compiler.analysis unit).state.internalName info.ty = info.internalName := by
  obtain ⟨hmem, hty⟩ := CompilationUnit.stub_named compiler.options unit compiler.registry info hinfo
  obtain ⟨decl, hdecl, hname⟩ := List.mem_map.mp hmem
  have hdeclared : (declaredRegistry unit compiler.registry).Names unit.declaredNames info.ty := by
    rw [hty, ← hname]
    exact (declareClasses_names _ _ fun other hother =>
      List.mem_map.mpr ⟨other, hother, rfl⟩).1 decl hdecl
  obtain ⟨entry, hentry, hlisted, hhandle⟩ :=
    hdeclared.below (declaredRegistry_below compiler unit)
  have hsame := hnames entry.internalName hlisted info.internalName hmem (hhandle.trans hty)
  unfold Registry.internalName
  rw [hentry]
  exact hsame

/-- A class that bodies see has a declaration in the unit, and a final class. -/
theorem info_becomes (hclosed : compiler.registry.Closed) (hnames : HandlesApart unit.declaredNames)
    (herrors : (compiler.analysis unit).errors = []) {images : List ClassImage}
    (hok : (compiler.generation unit).2 = .ok images) {info : ClassInfo}
    (hinfo : info ∈ (compiler.analysis unit).value.2.classes.classes) :
    ∃ decl ∈ unit.types, ∃ final ∈ images.map ClassImage.relabelled,
      decl.internalName unit.package = info.internalName ∧ decl.isInterface = info.isInterface
        ∧ info.Becomes (compiler.analysis unit).state final := by
  obtain ⟨stubs, hstubs, hshows, hheaders⟩ := analysis_stubs hclosed herrors
  have hclass := class?_analysis hclosed hnames herrors info hinfo
  obtain ⟨hmem, hty⟩ := CompilationUnit.stub_named compiler.options unit compiler.registry info hinfo
  obtain ⟨stub, hstub, rfl⟩ : ∃ stub ∈ stubs, stub.info = info := by
    rw [hstubs, classes_stubTable, List.mem_reverse] at hinfo
    exact List.mem_map.mp hinfo
  obtain ⟨decl, hdecl, hshow⟩ := exists_of_forall₂ hshows hstub
  obtain ⟨image, himage, hmake⟩ : ∃ image ∈ images,
      (decl.generate compiler.options (compiler.analysis unit).state
        (compiler.analysis unit).value.2.classes).2 = .ok image :=
    exists_of_forall₂ (generateClasses_forall₂ hok).flip hdecl
  have hheader : decl.header ∈ (declaredTypes unit).map ClassDecl.header :=
    hheaders ▸ List.mem_map_of_mem hdecl
  obtain ⟨declared, hdeclared, hsame⟩ := List.mem_map.mp hheader
  obtain ⟨parsed, hparsed, rfl⟩ := List.mem_map.mp hdeclared
  have hhandle : Ty.named (parsed.internalName unit.package) = Ty.named stub.info.internalName := by
    have htys := ClassDecl.ty_of_header hsame
    rw [hshow.ty, hty] at htys
    exact Option.some.inj htys
  refine ⟨parsed, hparsed, image.relabelled, List.mem_map_of_mem himage,
    hnames _ (List.mem_map_of_mem hparsed) _ hmem hhandle, ?_, hshow.becomes hclass hmake⟩
  exact (ClassDecl.isInterface_of_header hsame).trans hshow.isInterface.symm

section

variable (hclosed : compiler.registry.Closed) (hnames : HandlesApart unit.declaredNames)
  (herrors : (compiler.analysis unit).errors = []) {images : List ClassImage}
  (hok : (compiler.generation unit).2 = .ok images)

include hclosed hnames herrors hok

theorem field_links {name : String} {ref : FieldRef}
    (h : ref.IsOf (compiler.analysis unit).value.2.classes name) {op : OpCode}
    (hop : op ∈ if ref.isStatic then [OpCode.getstatic, .putstatic] else [.getfield, .putfield]) :
    (ref.use (compiler.analysis unit).state op name).Links unit
      (images.map ClassImage.relabelled) := by
  obtain ⟨info, hinfo, field, hfield, rfl, rfl⟩ := h
  obtain ⟨decl, hdecl, final, hfinal, hname, -, hbecomes⟩ :=
    info_becomes hclosed hnames herrors hok hinfo
  have howner := internalName_info hnames hinfo
  refine ⟨decl, hdecl, final, hfinal, hname.trans howner.symm, hbecomes.name.trans howner.symm,
    .inl (hbecomes.field hfield ?_ hop)⟩
  unfold FieldRef.use
  rw [hbecomes.name, howner]

theorem method_links {name : String} {ref : MethodRef}
    (h : ref.IsOf (compiler.analysis unit).value.2.classes name) :
    (ref.use (compiler.analysis unit).state name).Links unit
      (images.map ClassImage.relabelled) := by
  obtain ⟨info, hinfo, method, hmethod, rfl, hcopy⟩ := h
  obtain ⟨decl, hdecl, final, hfinal, hname, hinterface, hbecomes⟩ :=
    info_becomes hclosed hnames herrors hok hinfo
  have howner : (compiler.analysis unit).state.internalName ref.owner = info.internalName := by
    rw [hcopy]
    exact internalName_info hnames hinfo
  have hlinked : ∃ found ∈ final.methods, found.Accepts ref.ownerIsInterface
      (ref.use (compiler.analysis unit).state method.name) := by
    refine hbecomes.method hmethod ref (by rw [hcopy]) (by rw [hcopy]) ?_
    unfold MethodRef.use
    rw [hbecomes.name, howner, hcopy]
  have hdecl' : decl.isInterface = ref.ownerIsInterface := by rw [hinterface, hcopy]
  rw [← hdecl'] at hlinked
  exact ⟨decl, hdecl, final, hfinal, hname.trans howner.symm, hbecomes.name.trans howner.symm,
    .inr hlinked⟩

/-- Whatever a node is the reason for, links. -/
theorem bound_links {d : Expr} (h : d.Bound (compiler.analysis unit).value.2.classes) :
    ∀ use ∈ d.uses (compiler.analysis unit).state,
      use.Links unit (images.map ClassImage.relabelled) := by
  intro use huse
  cases d with
  | name n text binding =>
    rcases binding with _ | slot | ref
    · exact (List.not_mem_nil huse).elim
    · exact (List.not_mem_nil huse).elim
    · have hplace : use ∈ (if ref.isStatic then Place.static ref text
          else .member ref text).uses (compiler.analysis unit).state := huse
      have hlink (op : OpCode) := @field_links _ _ hclosed hnames herrors _ hok _ _ h op
      by_cases hstatic : ref.isStatic = true
      · rw [if_pos hstatic] at hplace hlink
        rcases List.mem_pair.mp hplace with rfl | rfl <;> exact hlink _ (by simp)
      · rw [if_neg hstatic] at hplace hlink
        rcases List.mem_pair.mp hplace with rfl | rfl <;> exact hlink _ (by simp)
  | field n target text ref =>
    cases ref with
    | none => exact (List.not_mem_nil huse).elim
    | some ref =>
      obtain ⟨hof, hinstance⟩ := h
      have hlink (op : OpCode) := @field_links _ _ hclosed hnames herrors _ hok _ _ hof op
      rw [hinstance] at hlink
      rcases List.mem_pair.mp huse with rfl | rfl <;> exact hlink _ (by simp)
  | call n target text args method =>
    cases method with
    | none => exact (List.not_mem_nil huse).elim
    | some method =>
      rw [List.mem_singleton.mp huse]
      exact method_links hclosed hnames herrors hok h
  | _ => exact (List.not_mem_nil huse).elim

end

/-- Every field access and every call in the classes of a unit that compiles links to a member of these
classes, the constructors of superclasses and the string builders apart. -/
theorem members_link (hclosed : compiler.registry.Closed)
    (hnames : HandlesApart unit.declaredNames)
    (hsuccess : (compiler.compile unit output).isSuccess = true) :
    ∃ finals, (compiler.compile unit output).output.classes = output.classes ++ finals
      ∧ ∀ final ∈ finals, ∀ method ∈ final.methods, ∀ op owner name descriptor,
        .member op owner name descriptor ∈ method.code →
          (⟨op, owner, name, descriptor⟩ : MemberUse).IsConstructorCall
            ∨ ⟨op, owner, name, descriptor⟩ ∈ builderUses
            ∨ (⟨op, owner, name, descriptor⟩ : MemberUse).Links unit finals := by
  obtain ⟨herrors, images, hok⟩ := images_of_success hsuccess
  obtain ⟨-, houtput, -, -⟩ := compile_of_images output herrors hok
  refine ⟨images.map ClassImage.relabelled, ?_, fun final hfinal method hmethod op owner name
    descriptor hinstr => ?_⟩
  · rw [houtput, Recorder.classes_replayAll]
  obtain ⟨image, himage, rfl⟩ := List.mem_map.mp hfinal
  rw [ClassImage.methods_relabelled] at hmethod
  obtain ⟨made, hmade, rfl⟩ := List.mem_map.mp hmethod
  have hcode : .member op owner name descriptor ∈ made.code := mem_relabelCode.mp hinstr
  obtain ⟨decl, hdecl, hmethods⟩ := generateClasses_methods hok image himage
  rcases hmethods made hmade with rfl | ⟨declared, hdeclared, hbecomes⟩
  · have hcall : op = .invokespecial ∧ owner = image.superName ∧ name = "<init>"
        ∧ descriptor = "()V" := by simpa [implicitConstructor] using hcode
    exact .inl ⟨hcall.1, hcall.2.2.1⟩
  · obtain ⟨signature, -, -, rfl⟩ := MethodDecl.Becomes.image_eq hbecomes
    have hmem := CompilationUnit.mem_methods.mpr ⟨decl, hdecl, hdeclared⟩
    have hnamed := MethodDecl.bodyCode_names
      (U := fun use => use ∈ builderUses ∨ use.Links unit (images.map ClassImage.relabelled))
      (fun use huse => .inl huse)
      { registry := (compiler.analysis unit).state, returnTy := signature.returnTy }
      fun d hd use huse => .inr (bound_links hclosed hnames herrors hok
        (analysis_bound compiler unit declared hmem d hd) use huse)
    exact .inr (hnamed 0 _ hcode _ rfl)

end Compiler

/-- `class Counter { int value; private int step() { return 1; } int next() { return value += step(); } }` -/
def counterUnit : CompilationUnit where
  file := "Counter.java"
  package := none
  imports := []
  types :=
    [{ line := 1
       mods := .accPublic
       name := "Counter"
       isInterface := false
       superclass := none
       interfaces := []
       members :=
        [.field { line := 2, mods := .empty, type := ⟨"int", 0, 2⟩, names := ["value"] },
          .method
            { line := 3
              mods := .accPrivate
              name := "step"
              returnType := ⟨"int", 0, 3⟩
              params := []
              exceptions := []
              body := some ⟨[.ret (some (.literal { line := 3 } (.int 1))) 3], 3⟩ },
          .method
            { line := 4
              mods := .empty
              name := "next"
              returnType := ⟨"int", 0, 4⟩
              params := []
              exceptions := []
              body := some ⟨[.ret (some (.assign { line := 4 } (.compound .add)
                (.name { line := 4 } "value" none) (.call { line := 4 } none "step" [] none))) 4],
                4⟩ }] }]

theorem members_link_counter :
    Registry.builtin.Closed ∧ HandlesApart counterUnit.declaredNames
      ∧ (Compiler.compile {} counterUnit .empty).isSuccess = true
      ∧ ∃ finals, (Compiler.compile {} counterUnit .empty).output.classes
          = Recorder.empty.classes ++ finals
        ∧ ∀ final ∈ finals, ∀ method ∈ final.methods, ∀ op owner name descriptor,
          .member op owner name descriptor ∈ method.code →
            (⟨op, owner, name, descriptor⟩ : MemberUse).IsConstructorCall
              ∨ ⟨op, owner, name, descriptor⟩ ∈ builderUses
              ∨ (⟨op, owner, name, descriptor⟩ : MemberUse).Links counterUnit finals := by
  have hnames : HandlesApart counterUnit.declaredNames := by decide +kernel
  have hsuccess : (Compiler.compile {} counterUnit .empty).isSuccess = true := by decide +kernel
  exact ⟨Registry.closed_builtin, hnames, hsuccess,
    Compiler.members_link Registry.closed_builtin hnames hsuccess⟩

example : ((Compiler.compile {} counterUnit .empty).output.classes.flatMap fun image =>
    image.methods.flatMap fun method => method.code.filterMap Instr.use?).map MemberUse.op
      = [.invokespecial, .getfield, .invokespecial, .putfield] := by decide +kernel

end ClassCompiler
