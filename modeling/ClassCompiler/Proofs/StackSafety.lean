import ClassCompiler.Proofs.Code.StmtStack
import ClassCompiler.Proofs.Compiler
import ClassCompiler.Proofs.Unit.Marks
import Mathlib.Data.List.Pairwise

/-!
# Stack safety of generated code

All runs of all methods of a unit that was accepted, on a machine that knows the kinds of the values
on its stack. Every instruction finds operands of the kinds that it takes; a local slot is loaded,
stored and stepped with the kind of the one local that owns it; a method returns what it declares.
And each piece of code keeps to its contract: the value of an expression comes on top, jumps and
statements leave the stack as it was.

* `Emit.StackSafe`: the contract of a piece on all of its runs
* `MethodDecl.StackSafe`: what is shown of a method
* `Compiler.stack_safe`
-/

namespace ClassCompiler

open Emit

/-! ## Pieces -/

/-- The piece can be generated. On every run of its code from the one stack on, each instruction is
in order; the code ends with the other stack, and is left for the labels only, with that stack. -/
def Emit.StackSafe (ctx : BodyCtx) (piece : Emit Unit) (before after : List Kind)
    (labels : List Label) : Prop :=
  ∀ next, (∀ label ∈ labels, label.id < next) → (piece.run next).result = .ok ()
    ∧ stackMachine.Safe (Instr.InOrder ctx) (piece.run next).code before (· = after)
      fun label stack => label ∈ labels ∧ stack = after

theorem Emit.Turns.stackSafe {ctx : BodyCtx} {piece : Emit Unit} {before after : List Kind}
    (labels : List Label) (h : piece.Turns ctx (expecting after labels) before after)
    (hpiece : piece.Succeeds) : piece.StackSafe ctx before after labels := by
  intro next hlabels
  have hspec : ∀ t ∈ (expecting after labels).map fun t => (t.1, fun stack => stack = t.2),
      t.1.id < next ∧ (fun stack : List Kind => stack = after) = t.2 := by
    intro t ht
    obtain ⟨_, hexpected, rfl⟩ := List.mem_map.mp ht
    obtain ⟨label, hlabel, rfl⟩ := List.mem_map.mp hexpected
    exact ⟨hlabels label hlabel, rfl⟩
  have hsafe := Meets.safe h hpiece (fun _ stack => stack = after) hspec rfl
  refine ⟨(h next (fun _ stack => stack = after) hspec).1, hsafe.ok, hsafe.post,
    fun n target state hruns => ?_⟩
  obtain ⟨condition, hmem, hcondition⟩ := hsafe.exits n target state hruns
  obtain ⟨_, hexpected, heq⟩ := List.mem_map.mp hmem
  obtain ⟨label, hlabel, rfl⟩ := List.mem_map.mp hexpected
  cases heq
  exact ⟨hlabel, hcondition⟩

/-! ## Methods -/

/-- The forms that load the receiver of the method: `this`, and the members that are reached through
it without a word. -/
def Expr.LoadsReceiver : Expr → Prop
  | self _ => True
  | name _ _ (some (.field ref)) => ref.isStatic = false
  | call _ none _ _ (some method) => method.isStatic = false
  | _ => False

theorem Expr.Accepted.isStatic_of_loadsReceiver {ctx : BodyCtx} {e : Expr} {ty : Ty}
    (h : e.Accepted ctx ty) (hloads : e.LoadsReceiver) : ctx.isStatic = false := by
  cases h with
  | self _ _ hthis => exact hthis
  | ownField _ _ hthis =>
    refine hthis.resolve_left fun hstatic => ?_
    rw [show _ = false from hloads] at hstatic
    cases hstatic
  | @call n target _ _ method _ _ _ _ hthis =>
    cases target with
    | none =>
      refine (hthis rfl).resolve_left fun hstatic => ?_
      rw [show method.isStatic = false from hloads] at hstatic
      cases hstatic
    | some => exact hloads.elim
  | _ => exact hloads.elim

/-- Two locals that share no slot. -/
def Local.Apart (v w : Local) : Prop :=
  v.slot + v.ty.slots ≤ w.slot ∨ w.slot + w.ty.slots ≤ v.slot

instance : Std.Symm Local.Apart := ⟨fun _ _ h => h.symm⟩

namespace MethodDecl

/-- What is shown of a method of a class, with the registry that its code is generated from. -/
structure StackSafe (registry : Registry) (owner : Ty) (method : MethodDecl)
    (signature : MethodSignature) (frame : FrameInfo) : Prop where
  signature_eq : method.signature = some signature
  frame_eq : method.frame = some frame
  /-- The whole code, from an empty stack. -/
  body : (method.bodyCode { registry, returnTy := signature.returnTy }).StackSafe
    (method.ctx registry owner signature.returnTy) [] [] []
  /-- An expression, its value used or dropped. -/
  value : ∀ e ∈ method.nodes, ∃ ty, e.ty = some ty ∧ ∀ stack,
    (e.code registry).value.StackSafe (method.ctx registry owner signature.returnTy) stack
      (e.leaves ty ++ stack) []
  /-- A jump on an expression. -/
  branch : ∀ e ∈ method.nodes, e.ty = some .boolean → e.isStatement = false →
    ∀ target onTrue stack, ((e.code registry).branch target onTrue).StackSafe
      (method.ctx registry owner signature.returnTy) stack stack [target]
  /-- A statement, inside a loop with its labels or outside. -/
  stmt : ∀ inLoop s, method.Has inLoop s → ∀ loop : Option LoopLabels,
    (inLoop = true → loop.isSome) → ∀ stack,
    (s.code { registry, returnTy := signature.returnTy } loop).StackSafe
      (method.ctx registry owner signature.returnTy) stack stack (loopTargets loop)
  /-- One local owns the slots that an instruction uses, and they are in the frame. -/
  access : frame.maxLocals < Scope.maxSlot → ∀ n i rest stack a,
    stackMachine.Runs ((method.bodyCode { registry, returnTy := signature.returnTy }).run 0).code n
      (.running ((method.bodyCode { registry, returnTy := signature.returnTy }).run 0).code [])
      (.running (i :: rest) stack) → i.access? = some a →
    a.slot + a.kind.words ≤ frame.maxLocals ∧ ∃ v ∈ method.locals registry owner,
      v.slot = a.slot ∧ v.ty.kind = a.kind ∧ ∀ w ∈ method.locals registry owner, w ≠ v → v.Apart w
  receiver : ∀ e ∈ method.nodes, e.LoadsReceiver → method.mods.isStatic = false

variable {registry : Registry} {owner : Ty} {method : MethodDecl} {signature : MethodSignature}
  {frame : FrameInfo}

/-- Nothing inside an expression of the method is marked. -/
theorem Marked.nodes (hmark : method.Marked)
    (h : method.Analyzed registry owner signature frame) :
    ∀ e ∈ method.nodes, ∃ isStatement, e.Marked isStatement := by
  intro e he
  obtain ⟨inLoop, s, hs, root, hroot, he⟩ := exists_has he
  have haccepted := h.has hs
  obtain ⟨body, hbody, top, htop, hinside⟩ := hs
  obtain ⟨isStatement, hmarked⟩ :=
    ((hmark body hbody top htop).inside hinside).roots haccepted root hroot
  rcases hmarked.nodes he with rfl | hunmarked
  · exact ⟨isStatement, hmarked⟩
  · exact ⟨false, hunmarked.marked⟩

theorem exists_owner {locals : List Local} {size : Nat}
    (hlayout : (∀ v ∈ locals, v.slot + v.ty.slots ≤ size)
      ∧ locals.Pairwise fun v w => v.slot + v.ty.slots ≤ w.slot) {a : Access} {ty : Ty}
    (hvalue : ty.IsValue) (hlocal : ⟨a.slot, ty⟩ ∈ locals) (hkind : ty.kind = a.kind) :
    a.slot + a.kind.words ≤ size ∧ ∃ v ∈ locals, v.slot = a.slot ∧ v.ty.kind = a.kind
      ∧ ∀ w ∈ locals, w ≠ v → v.Apart w := by
  have hbound := hlayout.1 _ hlocal
  dsimp only at hbound
  rw [Ty.slots_of_ne_void hvalue.2, hkind] at hbound
  refine ⟨hbound, ⟨a.slot, ty⟩, hlocal, rfl, hkind, fun w hw hne => ?_⟩
  have hapart : locals.Pairwise Local.Apart := hlayout.2.imp fun h => .inl h
  exact hapart.forall hlocal hw (Ne.symm hne)

theorem Analyzed.stackSafe (h : method.Analyzed registry owner signature frame)
    (howner : owner.isReference = true) (hregistry : registry.Sound) (hmark : method.Marked) :
    method.StackSafe registry owner signature frame := by
  have hfits := h.fits howner hregistry
  have hbody := (h.turns howner hregistry hmark).stackSafe [] (h.bodyCode registry)
  have hturns : ∀ e ∈ method.nodes, ∃ ty, e.Accepted (method.ctx registry owner signature.returnTy) ty
      ∧ (e.code registry).Turns (method.ctx registry owner signature.returnTy) e ty := by
    intro e he
    obtain ⟨ty, haccepted⟩ := h.nodes e he
    obtain ⟨isStatement, hmarked⟩ := hmark.nodes h e he
    exact ⟨ty, haccepted, haccepted.turns hregistry hfits.receiver hmarked.below⟩
  refine ⟨h.signature_eq, h.frame_eq, hbody, fun e he => ?_, fun e he hty hused => ?_,
    fun inLoop s hs loop hloop stack => ?_, fun hframe n i rest stack a hruns ha => ?_,
    fun e he hloads => ?_⟩
  · obtain ⟨ty, haccepted, hcode⟩ := hturns e he
    exact ⟨ty, haccepted.ty_eq, fun stack =>
      (hcode.value stack).stackSafe [] (haccepted.succeeds registry).value⟩
  · obtain ⟨ty, haccepted, hcode⟩ := hturns e he
    rw [haccepted.ty_eq] at hty
    cases hty
    exact fun target onTrue stack => (hcode.branch hused rfl target onTrue stack).stackSafe
      [target] ((haccepted.succeeds registry).branch target onTrue)
  · have haccepted := h.has hs
    obtain ⟨body, hbody, top, htop, hinside⟩ := hs
    have hmarked := (hmark body hbody top htop).inside hinside
    exact (haccepted.turns hfits hmarked stack loop hloop).stackSafe (loopTargets loop)
      (haccepted.succeeds _ loop hloop)
  · obtain ⟨-, hsafe⟩ := hbody 0 fun _ hlabel => (List.not_mem_nil hlabel).elim
    obtain ⟨ty, hvalue, hlocal, hkind⟩ := (hsafe.ok n i rest stack hruns).access a ha
    exact exists_owner (h.layout hframe) hvalue hlocal hkind
  · obtain ⟨ty, haccepted⟩ := h.nodes e he
    exact haccepted.isStatic_of_loadsReceiver hloads

end MethodDecl

/-! ## Constructors -/

/-- What the code of an implicit constructor depends on. -/
def constructorCtx (owner : Ty) : BodyCtx where
  isStatic := false
  returnTy := .void
  locals := [⟨0, owner⟩]

theorem implicitConstructor_safe {owner : Ty} (howner : owner.isReference = true)
    (superName : String) :
    stackMachine.Safe (Instr.InOrder (constructorCtx owner)) (implicitConstructor superName).code []
      (· = []) fun _ _ => False := by
  let code : Emit Unit := do
    Emit.op .aload0
    Emit.instr (.member .invokespecial superName "<init>" "()V")
    Emit.op .vreturn
  have hthis : (constructorCtx owner).HasReceiver := fun _ => ⟨owner, howner, List.mem_cons_self⟩
  have hcall : OpCode.memberTransfer? "()V" .invokespecial = some ([.reference], []) := by
    have hread : Descriptor.method? "()V" = some ([], []) := Descriptor.method?_void .nil
    simp only [OpCode.memberTransfer?, hread]
    rfl
  have hret : (instr (.ret .void)).Turns (constructorCtx owner) [] (Ty.void.results ++ []) [] :=
    turns_ret
  have hturns : code.Turns (constructorCtx owner) [] [] [] :=
    turns_bind (turns_receiver hthis rfl)
      (turns_bind (turns_member (t := ([.reference], [])) rfl hcall) hret)
  have hcode : code.Succeeds := succeeds_bind (succeeds_instr rfl) fun _ =>
    succeeds_bind (succeeds_instr rfl) fun _ => succeeds_instr rfl
  obtain ⟨-, hsafe⟩ :=
    hturns.stackSafe [] hcode 0 fun _ hlabel => (List.not_mem_nil hlabel).elim
  exact ⟨hsafe.ok, hsafe.post, fun n target stack hruns =>
    (List.not_mem_nil (hsafe.exits n target stack hruns).1).elim⟩

/-! ## Units -/

namespace Compiler

variable {compiler : Compiler} {unit : CompilationUnit}

/-- Every method in the classes of a unit is an implicit constructor or comes from an analyzed
method, and is safe. -/
def StackSafe (compiler : Compiler) (unit : CompilationUnit) : Prop :=
  ∃ images, (compiler.generation unit).2 = .ok images ∧ ∀ image ∈ images,
    ∃ decl ∈ (compiler.analysis unit).value.1.types, ∃ owner, decl.ty = some owner ∧
    ∀ m ∈ image.methods,
      (m = implicitConstructor image.superName ∧ stackMachine.Safe
        (Instr.InOrder (constructorCtx owner)) m.code [] (· = []) fun _ _ => False)
      ∨ ∃ method, .method method ∈ decl.members ∧ ∃ signature frame,
        m.code = ((method.bodyCode { registry := (compiler.analysis unit).state
                                     returnTy := signature.returnTy }).run 0).code
        ∧ method.StackSafe (compiler.analysis unit).state owner signature frame

/-- The code of a unit that is analyzed without an error is safe. -/
theorem stack_safe (hreach : compiler.registry.Reachable)
    (hnames : unit.NamesApart (compiler.analysis unit).state) (hunmarked : unit.Unmarked)
    (herrors : (compiler.analysis unit).errors = []) : compiler.StackSafe unit := by
  have haccepts := accepts_analysis hreach hnames herrors
  have hsound : (compiler.analysis unit).state.Sound := (analyze_regular hreach.sound hnames).2
  have hmarked := analyze_marked compiler.options hunmarked compiler.registry
  obtain ⟨images, hok, -, -⟩ := (complete_of_clean hreach hnames herrors .empty).images
  refine ⟨images, hok, fun image himage => ?_⟩
  obtain ⟨decl, hdecl, hmethods⟩ := generateClasses_methods hok image himage
  have hanalyzed := haccepts.types decl hdecl
  refine ⟨decl, hdecl, _, hanalyzed.ty_eq, fun m hm => ?_⟩
  rcases hmethods m hm with rfl | ⟨method, hmethod, after, hgenerate⟩
  · exact .inl ⟨rfl, implicitConstructor_safe hanalyzed.isReference _⟩
  · obtain ⟨signature, frame, hmethodAnalyzed⟩ := hanalyzed.members method hmethod
    refine .inr ⟨method, hmethod, signature, frame, ?_, ?_⟩
    · rw [hmethodAnalyzed.generate] at hgenerate
      cases hgenerate
      rfl
    · exact hmethodAnalyzed.stackSafe hanalyzed.isReference hsound
        (hmarked method (CompilationUnit.mem_methods.mpr ⟨decl, hdecl, hmethod⟩))

end Compiler

theorem stack_safe_twice :
    Registry.builtin.Reachable ∧ twiceUnit.NamesApart (Compiler.analysis {} twiceUnit).state
      ∧ twiceUnit.Unmarked ∧ (Compiler.analysis {} twiceUnit).errors = []
      ∧ Compiler.StackSafe {} twiceUnit := by
  have hunmarked : twiceUnit.Unmarked := by
    intro method hmethod d hd
    cases List.mem_singleton.mp hmethod
    rcases List.mem_cons.mp hd with rfl | hd
    · rfl
    · rcases List.mem_pair.mp hd with rfl | rfl <;> rfl
  exact ⟨.builtin, namesApart_twice, hunmarked, clean_twice,
    Compiler.stack_safe .builtin namesApart_twice hunmarked clean_twice⟩

end ClassCompiler
