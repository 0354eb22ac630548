import ClassCompiler.Proofs.Code.StmtStack
import ClassCompiler.Proofs.DefiniteReturn

/-!
# Jump targets

Every label that the code of a method jumps to is defined once in that code. What follows the
definition depends on the method: behind the body of a method without a result comes a return, so an
instruction follows every label. Behind that of any other method comes nothing, and a label may stand
at the very end; no path gets there.

* `Stmt.code_confined`: the jumps of a statement
* `Compiler.jump_targets`
-/

namespace ClassCompiler

open Emit

/-! ## Jumps of statements -/

section

variable (env : CodeEnv)

theorem Expr.statementCodes_confined (es : List Expr) :
    (es.forM fun e => e.statementCode env).Confined Set.univ [] :=
  confined_forM fun e _ => Expr.statementCode_confined env e.reads_univ

theorem LocalDecl.code_confined (decl : LocalDecl) : (decl.code env).Confined Set.univ [] :=
  confined_forM fun e _ => (e.code_confined env.registry e.reads_univ).value

theorem ForInit.code_confined (init : ForInit) : (init.code env).Confined Set.univ [] := by
  cases init with
  | exprs es => exact Expr.statementCodes_confined env es
  | decl d => exact d.code_confined env

theorem confined_part {α : Type} {S : Set Nat} {targets : List Label} {piece : α → Emit Unit}
    {part : Option α} (h : ∀ a, part = some a → (piece a).Confined S targets) :
    (Emit.part piece part).Confined S targets := by
  cases part with
  | none => exact confined_pure _
  | some a => exact h a rfl

theorem confined_ret (ty : Ty) {S : Set Nat} {targets : List Label} :
    (instr (.ret ty)).Confined S targets := by
  refine confined_inert ?_
  unfold Instr.ret
  split
  · rfl
  · cases ty.kind <;> rfl

namespace Stmt

theorem listCode_confined {loop : Option LoopLabels} {stmts : List Stmt}
    (h : ∀ s ∈ stmts, (s.code env loop).Confined Set.univ (loopTargets loop)) :
    (listCode env loop stmts).Confined Set.univ (loopTargets loop) := by
  induction stmts with
  | nil => exact confined_pure _
  | cons first rest ih =>
    exact confined_bind (h first List.mem_cons_self) fun _ =>
      ih fun s hs => h s (List.mem_cons_of_mem _ hs)

/-- The code of a statement jumps to its own labels and to those of the loop around. -/
theorem code_confined (s : Stmt) : ∀ loop : Option LoopLabels,
    (s.code env loop).Confined Set.univ (loopTargets loop) := by
  have hvalue : ∀ e : Expr, (e.valueCode env).Confined Set.univ [] := fun e =>
    (e.code_confined env.registry e.reads_univ).value
  have hexit : ∀ (e : Expr) (target : Label),
      (e.exitCode env target).Confined Set.univ [target] := fun e target =>
    (e.code_confined env.registry e.reads_univ).branch target false
  induction s using Stmt.induction with
  | block stmts line ih =>
    intro loop
    unfold code
    exact listCode_confined env fun s hs => ih s hs loop
  | declare decl =>
    intro loop
    unfold code
    exact (decl.code_confined env).widen (List.nil_subset _)
  | expr e line =>
    intro loop
    unfold code
    exact (Expr.statementCode_confined env e.reads_univ).widen (List.nil_subset _)
  | branch condition onTrue onFalse line ihTrue ihFalse =>
    intro loop
    rw [code_branch]
    refine confined_newLabel fun otherwise => confined_bind ((hexit condition otherwise).widen
      (List.cons_subset.mpr ⟨List.mem_cons_self, List.nil_subset _⟩)) fun _ =>
      confined_bind ((ihTrue loop).widen (List.subset_cons_self _ _)) fun _ => ?_
    cases onFalse with
    | none => exact confined_place _
    | some stmt =>
      exact confined_newLabel fun done => confined_bind (confined_goto List.mem_cons_self) fun _ =>
        confined_bind (confined_place _) fun _ => confined_bind ((ihFalse stmt rfl loop).widen
          fun t ht => List.mem_cons_of_mem _ (List.mem_cons_of_mem _ ht)) fun _ => confined_place _
  | whileLoop condition body line ih =>
    intro loop
    unfold code
    refine confined_newLabel fun top => confined_newLabel fun out => ?_
    have htop : top ∈ out :: top :: loopTargets loop := List.mem_cons_of_mem _ List.mem_cons_self
    exact confined_bind (confined_place _) fun _ => confined_bind ((hexit condition out).widen
      (List.cons_subset.mpr ⟨List.mem_cons_self, List.nil_subset _⟩)) fun _ =>
      confined_bind ((ih (some ⟨out, top⟩)).widen (List.cons_subset.mpr ⟨List.mem_cons_self,
        List.cons_subset.mpr ⟨htop, List.nil_subset _⟩⟩)) fun _ =>
      confined_bind (confined_goto htop) fun _ => confined_place _
  | forLoop init condition update body line ih =>
    intro loop
    rw [code_forLoop]
    refine confined_bind (confined_part fun i _ => (i.code_confined env).widen (List.nil_subset _))
      fun _ => confined_newLabel fun top => confined_newLabel fun again =>
      confined_newLabel fun out => ?_
    have hagain : again ∈ out :: again :: top :: loopTargets loop :=
      List.mem_cons_of_mem _ List.mem_cons_self
    have htop : top ∈ out :: again :: top :: loopTargets loop :=
      List.mem_cons_of_mem _ (List.mem_cons_of_mem _ List.mem_cons_self)
    exact confined_bind (confined_place _) fun _ => confined_bind (confined_part fun e _ =>
      (hexit e out).widen (List.cons_subset.mpr ⟨List.mem_cons_self, List.nil_subset _⟩)) fun _ =>
      confined_bind ((ih (some ⟨out, again⟩)).widen (List.cons_subset.mpr ⟨List.mem_cons_self,
        List.cons_subset.mpr ⟨hagain, List.nil_subset _⟩⟩)) fun _ =>
      confined_bind (confined_place _) fun _ => confined_bind
        ((Expr.statementCodes_confined env update).widen (List.nil_subset _)) fun _ =>
      confined_bind (confined_goto htop) fun _ => confined_place _
  | ret value line =>
    intro loop
    unfold code returnCode
    cases value with
    | none => exact confined_ret .void
    | some e =>
      exact confined_bind ((hvalue e).widen (List.nil_subset _)) fun _ => confined_ret env.returnTy
  | breakOut line =>
    intro loop
    cases loop with
    | none => exact confined_fail _
    | some labels => exact confined_goto List.mem_cons_self
  | continueOn line =>
    intro loop
    cases loop with
    | none => exact confined_fail _
    | some labels => exact confined_goto (List.mem_cons_of_mem _ List.mem_cons_self)
  | empty line => exact fun loop => confined_pure _

end Stmt

theorem MethodDecl.bodyCode_confined (method : MethodDecl) :
    (method.bodyCode env).Confined Set.univ [] := by
  rw [bodyCode_eq]
  refine confined_bind (confined_part fun body _ =>
    Stmt.listCode_confined env fun s _ => s.code_confined env none) fun _ => ?_
  unfold Emit.optionally
  split
  · exact confined_ret .void
  · exact confined_pure _

end

/-! ## Definitions of labels -/

/-- A piece that jumps to its own labels only defines each of them once. -/
theorem Emit.Confined.count_labels {piece : Emit Unit} {S : Set Nat} (h : piece.Confined S [])
    (hpiece : piece.Succeeds) (next : Nat) {op : OpCode} {target : Label}
    (hjump : .branch op target ∈ (piece.run next).code) :
    (labels (piece.run next).code).count target = 1 := by
  obtain ⟨hle, hcode⟩ := h next
  refine List.count_eq_one_of_mem (hpiece.nodup_labels next) ((hpiece.mem_labels next).mpr ?_)
  exact ((hcode _ hjump).2 op target rfl).resolve_left List.not_mem_nil

/-- There is an instruction, behind any number of labels. -/
def Lands : List Instr → Prop
  | [] => False
  | i :: rest => i.isLabel = false ∨ Lands rest

theorem lands_of_mem {code : List Instr} {i : Instr} (h : i ∈ code) (hlabel : i.isLabel = false) :
    Lands code := by
  induction code with
  | nil => cases h
  | cons first rest ih =>
    rcases List.mem_cons.mp h with rfl | h
    · exact .inl hlabel
    · exact .inr (ih h)

/-- A path behind labels goes on to an instruction. -/
theorem Contained.lands {code rest : List Instr} {n : Nat} (h : Contained code)
    (hruns : pathMachine.Runs code n (.running code ()) (.running rest ())) : Lands rest := by
  induction rest generalizing n with
  | nil =>
    rcases h n _ hruns with ⟨i, rest, heq⟩ | heq <;> cases heq
  | cons i rest ih =>
    cases hlabel : i.isLabel with
    | false => exact .inl hlabel
    | true =>
      cases i with
      | label name =>
        have hnext : pathMachine (.label name) () (.next ()) := ⟨(), rfl, rfl, rfl⟩
        have hstep : pathMachine.Step code (.running (.label name :: rest) ()) (.running rest ()) :=
          .instr hnext
        exact .inr (ih (hruns.trans (.single hstep)))
      | _ => cases hlabel

/-- A jump on a path leads to an instruction. -/
theorem Contained.jump_lands {code rest : List Instr} {n : Nat} {op : OpCode} {target : Label}
    (h : Contained code)
    (hruns : pathMachine.Runs code n (.running code ()) (.running (.branch op target :: rest) ())) :
    ∃ behind, afterLabel? target code = some behind ∧ Lands behind := by
  have hjump : pathMachine (.branch op target) () (.jump target ()) := ⟨(), rfl, ⟨op, rfl⟩, rfl⟩
  have hstep : pathMachine.Step code (.running (.branch op target :: rest) ())
      (Config.land code target ()) := .instr hjump
  have hlands := hruns.trans (.single hstep)
  unfold Config.land at hlands
  split at hlands
  · next behind hbehind => exact ⟨behind, hbehind, h.lands hlands⟩
  · rcases h _ _ hlands with ⟨_, _, heq⟩ | heq <;> cases heq

/-- No label stands at the end of code that ends with an instruction. -/
theorem lands_of_last {code rest : List Instr} {last : Instr} {target : Label}
    (hlabel : last.isLabel = false) (h : afterLabel? target (code ++ [last]) = some rest) :
    Lands rest := by
  obtain ⟨before, heq⟩ := afterLabel?_suffix h
  rcases rest.eq_nil_or_concat' with rfl | ⟨init, i, rfl⟩
  · obtain ⟨-, hlast⟩ := List.append_inj' heq rfl
    cases hlast
    cases hlabel
  · have heq : (before ++ .label target :: init) ++ [i] = code ++ [last] := by simpa using heq
    obtain ⟨-, hlast⟩ := List.append_inj' heq rfl
    cases hlast
    exact lands_of_mem (List.mem_append_right _ List.mem_cons_self) hlabel

/-! ## Methods -/

namespace MethodDecl

variable {registry last : Registry} {owner : Ty} {method : MethodDecl}
  {signature : MethodSignature} {frame : FrameInfo}

/-- Behind the body of a method without a result comes a return. -/
theorem Analyzed.code_void (h : method.Analyzed last owner signature frame) (registry : Registry)
    (hvoid : signature.returnTy = .void) (habstract : method.mods.isAbstract = false) :
    ∃ code, ((method.bodyCode { registry, returnTy := signature.returnTy }).run 0).code
      = code ++ [.noArg .vreturn] := by
  let body := Emit.part (fun body : Block =>
    Stmt.listCode { registry, returnTy := signature.returnTy } none body.stmts) method.body
  have hbody : body.Succeeds := succeeds_part fun body hbody =>
    Stmt.listCode_succeeds _ fun s hs => (h.body body hbody s hs).succeeds _ none fun h => by cases h
  rw [bodyCode_eq, run_bind_ok (hbody.result 0)]
  refine ⟨(body.run 0).code, congrArg ((body.run 0).code ++ ·) ?_⟩
  unfold Emit.optionally
  rw [if_pos (by simp [hvoid, habstract])]
  rfl

end MethodDecl

/-! ## Units -/

namespace Compiler

variable {compiler : Compiler} {unit : CompilationUnit}

/-- The code of all methods in the classes of a unit. -/
def generatedCode (compiler : Compiler) (unit : CompilationUnit) : List (List Instr) :=
  match (compiler.generation unit).2 with
  | .ok images => images.flatMap fun image => image.methods.map MethodImage.code
  | .error _ => []

/-- In the code of a unit that is analyzed without an error, every label that a jump names is defined
once. An instruction follows it in a method without a result; in the other methods with a body, an
instruction follows it if some path takes the jump. -/
theorem jump_targets (hreach : compiler.registry.Reachable)
    (hnames : unit.NamesApart (compiler.analysis unit).state)
    (herrors : (compiler.analysis unit).errors = []) :
    compiler.Generates unit fun method signature code =>
      (∀ op target, .branch op target ∈ code → (labels code).count target = 1)
      ∧ (signature.returnTy = .void → method.mods.isAbstract = false →
        ∀ target rest, afterLabel? target code = some rest → Lands rest)
      ∧ (signature.returnTy ≠ .void → method.body.isSome = true → ∀ n op target rest,
        pathMachine.Runs code n (.running code ()) (.running (.branch op target :: rest) ()) →
        ∃ behind, afterLabel? target code = some behind ∧ Lands behind) := by
  refine generates hreach hnames herrors fun method owner signature frame _ hanalyzed hfrom =>
    ⟨fun op target hjump => ?_, fun hvoid habstract target rest hafter => ?_,
      fun hvoid hbody n op target rest hruns => ?_⟩
  · exact (method.bodyCode_confined _).count_labels (hanalyzed.bodyCode _) 0 hjump
  · obtain ⟨code, hcode⟩ := hanalyzed.code_void _ hvoid habstract
    rw [hcode] at hafter
    exact lands_of_last rfl hafter
  · obtain ⟨parsed, -, hchecked⟩ := hfrom
    exact (hanalyzed.contained hchecked hvoid hbody).jump_lands hruns

end Compiler

theorem jump_targets_twice :
    Registry.builtin.Reachable ∧ twiceUnit.NamesApart (Compiler.analysis {} twiceUnit).state
      ∧ (Compiler.analysis {} twiceUnit).errors = []
      ∧ Compiler.Generates {} twiceUnit fun method signature code =>
        (∀ op target, .branch op target ∈ code → (labels code).count target = 1)
        ∧ (signature.returnTy = .void → method.mods.isAbstract = false →
          ∀ target rest, afterLabel? target code = some rest → Lands rest)
        ∧ (signature.returnTy ≠ .void → method.body.isSome = true → ∀ n op target rest,
          pathMachine.Runs code n (.running code ()) (.running (.branch op target :: rest) ()) →
          ∃ behind, afterLabel? target code = some behind ∧ Lands behind) :=
  ⟨.builtin, namesApart_twice, clean_twice,
    Compiler.jump_targets .builtin namesApart_twice clean_twice⟩

/-! ## A jump to the end -/

/-- `class Main { static int pick(boolean b) { if (b) return 1; else return 2; } }` -/
def pickUnit : CompilationUnit where
  file := "Main.java"
  package := none
  imports := []
  types :=
    [{ line := 1
       mods := .accPublic
       name := "Main"
       isInterface := false
       superclass := none
       interfaces := []
       members :=
        [.method
          { line := 2
            mods := .accStatic
            name := "pick"
            returnType := ⟨"int", 0, 2⟩
            params := [⟨2, "b", ⟨"boolean", 0, 2⟩⟩]
            exceptions := []
            body := some ⟨[.branch (.name { line := 3 } "b" none)
              (.ret (some (.literal { line := 3 } (.int 1))) 3)
              (some (.ret (some (.literal { line := 4 } (.int 2))) 4)) 3], 2⟩ }] }]

/-- The jump over the second arm leads to the end of the code. No path takes it. -/
theorem pick_jumps_to_end : (Compiler.analysis {} pickUnit).errors = []
    ∧ ∃ code ∈ Compiler.generatedCode {} pickUnit, ∃ op target, .branch op target ∈ code
      ∧ afterLabel? target code = some [] := by
  refine ⟨by decide +kernel,
    [.noArg .iload0, .branch .ifeq ⟨0⟩, .noArg .iconst1, .noArg .ireturn, .branch .goto ⟨1⟩,
      .label ⟨0⟩, .noArg .iconst2, .noArg .ireturn, .label ⟨1⟩], by decide +kernel, .goto, ⟨1⟩,
    by decide, by decide⟩

end ClassCompiler
