import ClassCompiler.Proofs.Code.ExprStack
import ClassCompiler.Proofs.Code.Success

/-!
# Statements on the stack

The code of an accepted statement leaves the stack as it was, wherever it is left: at its end, or for
the top or the end of the loop around it. A return has the value that the method declares, and
nothing comes behind it.

* `Stmt.Accepted.turns`
* `MethodDecl.Analyzed.turns`
-/

namespace ClassCompiler

open Emit

/-- The labels of the loop around, if there is one. -/
def loopTargets (loop : Option LoopLabels) : List Label :=
  loop.elim [] fun labels => [labels.onBreak, labels.onContinue]

/-- Labels that expect one stack. -/
def expecting (stack : List Kind) (labels : List Label) : List (Label × List Kind) :=
  labels.map fun label => (label, stack)

/-- What the code of statements depends on is that of the accepted trees. -/
structure CodeEnv.Fits (env : CodeEnv) (ctx : BodyCtx) : Prop where
  registry : env.registry.Sound
  returnTy : env.returnTy = ctx.returnTy
  ne_any : ctx.returnTy ≠ .any
  receiver : ctx.HasReceiver

namespace Emit

variable {ctx : BodyCtx} {targets : List (Label × List Kind)} {stack : List Kind}

theorem turns_forM {α : Type} {step : α → Emit Unit} {l : List α}
    (h : ∀ a ∈ l, (step a).Turns ctx targets stack stack) :
    (l.forM step).Turns ctx targets stack stack := by
  induction l with
  | nil => exact turns_pure
  | cons a rest ih =>
    exact turns_bind (h a List.mem_cons_self) (ih fun b hb => h b (List.mem_cons_of_mem _ hb))

theorem turns_part {α : Type} {piece : α → Emit Unit} {part : Option α}
    (h : ∀ a, part = some a → (piece a).Turns ctx targets stack stack) :
    (Emit.part piece part).Turns ctx targets stack stack := by
  cases part with
  | none => exact turns_pure
  | some a => exact h a rfl

end Emit

variable {ctx : BodyCtx} {env : CodeEnv} {stack : List Kind}

theorem Stmt.listTurns {loop : Option LoopLabels} {stmts : List Stmt}
    {targets : List (Label × List Kind)}
    (h : ∀ s ∈ stmts, (s.code env loop).Turns ctx targets stack stack) :
    (listCode env loop stmts).Turns ctx targets stack stack := by
  induction stmts with
  | nil => exact turns_pure
  | cons first rest ih =>
    exact turns_bind (h first List.mem_cons_self) (ih fun s hs => h s (List.mem_cons_of_mem _ hs))

/-! ## Expressions as statements -/

section

variable (hfits : env.Fits ctx)

include hfits

theorem Expr.Accepted.valueTurns {e : Expr} {ty : Ty} (h : e.Accepted ctx ty) (hmark : e.Unmarked)
    (hvalue : ty.IsValue) (stack : List Kind) :
    (e.valueCode env).Turns ctx [] stack (ty.kind :: stack) :=
  (h.turns hfits.registry hfits.receiver hmark.marked.below).kind hmark.marked.node hvalue stack

/-- A condition jumps out with the stack as it was. -/
theorem Expr.Accepted.exitTurns {e : Expr} (h : e.Accepted ctx .boolean) (hmark : e.Unmarked)
    (target : Label) (stack : List Kind) :
    (e.exitCode env target).Turns ctx [(target, stack)] stack stack :=
  (h.turns hfits.registry hfits.receiver hmark.marked.below).branch hmark.marked.node rfl target
    false stack

theorem Expr.AcceptedStatement.turns {e : Expr} (h : e.AcceptedStatement ctx)
    (hmark : e.Marked true) (stack : List Kind) :
    (e.statementCode env).Turns ctx [] stack stack := by
  obtain ⟨hform, ty, haccepted⟩ := h
  have hvalue := (haccepted.turns hfits.registry hfits.receiver hmark.below).value stack
  have hproven := haccepted.provenTy
  cases e with
  | assign n op lhs rhs =>
    have hleaves : Expr.leaves (.assign n op lhs rhs) ty = [] := if_pos hmark.node
    rw [hleaves] at hvalue
    exact turns_bind hvalue turns_pure
  | increment n op operand =>
    have hleaves : Expr.leaves (.increment n op operand) ty = [] := if_pos hmark.node
    rw [hleaves] at hvalue
    exact turns_bind hvalue turns_pure
  | call =>
    refine turns_bind hvalue ?_
    dsimp only
    rw [hproven, Emit.pure_bind]
    exact turns_pop
  | _ => cases hform

theorem Expr.statementTurns {es : List Expr} (h : ∀ e ∈ es, e.AcceptedStatement ctx)
    (hmark : ∀ e ∈ es, e.Marked true) (stack : List Kind) :
    (es.forM fun e => e.statementCode env).Turns ctx [] stack stack :=
  turns_forM fun e he => (h e he).turns hfits (hmark e he) stack

theorem LocalDecl.Accepted.turns {decl : LocalDecl} (h : decl.Accepted ctx) (hmark : decl.Marked)
    (stack : List Kind) : (decl.code env).Turns ctx [] stack stack := by
  refine turns_forM fun e he => ?_
  obtain ⟨-, ty, haccepted⟩ := h.initializers e he
  obtain ⟨hassignment, hmarked⟩ := hmark e he
  have hvalue := (haccepted.turns hfits.registry hfits.receiver hmarked.below).value stack
  rwa [Expr.leaves_of_assignment hassignment hmarked.node] at hvalue

theorem ForInit.Accepted.turns {init : ForInit} (h : init.Accepted ctx) (hmark : init.Marked)
    (stack : List Kind) : (init.code env).Turns ctx [] stack stack := by
  cases init with
  | exprs es => exact Expr.statementTurns hfits h hmark stack
  | decl d => exact LocalDecl.Accepted.turns hfits h hmark stack

/-! ## Statements -/

theorem returnTurns {value : Option Expr} (h : ReturnAccepted ctx value)
    (hmark : ∀ e, value = some e → e.Unmarked) {targets : List (Label × List Kind)}
    {last : List Kind} : (returnCode env value).Turns ctx targets stack last := by
  have hret : (instr (.ret ctx.returnTy)).Turns ctx targets (ctx.returnTy.results ++ stack) last :=
    turns_ret
  cases value with
  | none =>
    have hvoid : ctx.returnTy = .void := h
    rw [hvoid] at hret
    exact hret
  | some e =>
    obtain ⟨hvoid, ty, haccepted, hstores⟩ := h
    have hvalue : ctx.returnTy.IsValue := ⟨hfits.ne_any, hvoid⟩
    have hturns := haccepted.valueTurns hfits (hmark e rfl) (hstores.isValue hvalue) stack
    rw [hstores.kind_eq] at hturns
    rw [Ty.results_of_isValue hvalue] at hret
    unfold returnCode
    dsimp only
    rw [hfits.returnTy]
    exact turns_bind hturns.closed hret

/-- The code of an accepted statement leaves the stack as it was. -/
theorem Stmt.Accepted.turns {inLoop : Bool} {s : Stmt} (h : s.Accepted ctx inLoop)
    (hmark : s.Marked) (stack : List Kind) : ∀ loop : Option LoopLabels,
    (inLoop = true → loop.isSome) →
    (s.code env loop).Turns ctx (expecting stack (loopTargets loop)) stack stack := by
  induction h with
  | block _ ih =>
    intro loop hloop
    cases hmark with
    | block hmarks => exact listTurns fun s hs => ih s hs (hmarks s hs) loop hloop
  | declare hdecl =>
    intro loop _
    cases hmark with
    | declare hmark => exact (LocalDecl.Accepted.turns hfits hdecl hmark stack).closed
  | expr he =>
    intro loop _
    cases hmark with
    | expr hmark => exact (he.turns hfits hmark stack).closed
  | @branch inLoop condition onTrue onFalse line hcondition _ _ ihtrue ihfalse =>
    intro loop hloop
    cases hmark with
    | branch hmarkCondition hmarkTrue hmarkFalse =>
      rw [code_branch]
      refine turns_newLabel stack fun otherwise => turns_bind
        ((hcondition.exitTurns hfits hmarkCondition otherwise stack).widen ?_)
        (turns_bind ((ihtrue hmarkTrue loop hloop).widen (List.subset_cons_self _ _)) ?_)
      · exact List.cons_subset.mpr ⟨List.mem_cons_self, List.nil_subset _⟩
      · cases onFalse with
        | none => exact turns_place List.mem_cons_self
        | some stmt =>
          have hstmt := ihfalse stmt rfl (hmarkFalse stmt rfl) loop hloop
          exact turns_newLabel stack fun done => turns_bind (turns_goto List.mem_cons_self)
            (turns_bind (turns_place (List.mem_cons_of_mem _ List.mem_cons_self))
            (turns_bind (hstmt.widen fun t ht => List.mem_cons_of_mem _ (List.mem_cons_of_mem _ ht))
            (turns_place List.mem_cons_self)))
  | @whileLoop inLoop condition body line hcondition _ ih =>
    intro loop _
    cases hmark with
    | whileLoop hmarkCondition hmarkBody =>
      refine turns_newLabel stack fun top => turns_newLabel stack fun out => ?_
      have htop : (top, stack) ∈ (out, stack) :: (top, stack) :: expecting stack (loopTargets loop) :=
        List.mem_cons_of_mem _ List.mem_cons_self
      have hbody := ih hmarkBody (some ⟨out, top⟩) fun _ => rfl
      refine turns_bind (turns_place htop) (turns_bind
        ((hcondition.exitTurns hfits hmarkCondition out stack).widen ?_) (turns_bind
        (hbody.widen ?_) (turns_bind (m := stack) (turns_goto htop)
        (turns_place List.mem_cons_self))))
      · exact List.cons_subset.mpr ⟨List.mem_cons_self, List.nil_subset _⟩
      · exact List.cons_subset.mpr ⟨List.mem_cons_self,
          List.cons_subset.mpr ⟨htop, List.nil_subset _⟩⟩
  | @forLoop inLoop init condition update body line hinit hcondition _ hupdate ih =>
    intro loop _
    cases hmark with
    | forLoop hmarkInit hmarkCondition hmarkBody hmarkUpdate =>
      rw [code_forLoop]
      have hbody := fun out again => ih hmarkBody (some ⟨out, again⟩) fun _ => rfl
      refine turns_bind (m := stack) (turns_part fun i hi =>
        (ForInit.Accepted.turns hfits (hinit i hi) (hmarkInit i hi) stack).closed)
        (turns_newLabel stack fun top => turns_newLabel stack fun again =>
        turns_newLabel stack fun out => ?_)
      have hagain : (again, stack) ∈ (out, stack) :: (again, stack) :: (top, stack)
          :: expecting stack (loopTargets loop) := List.mem_cons_of_mem _ List.mem_cons_self
      have htop : (top, stack) ∈ (out, stack) :: (again, stack) :: (top, stack)
          :: expecting stack (loopTargets loop) :=
        List.mem_cons_of_mem _ (List.mem_cons_of_mem _ List.mem_cons_self)
      refine turns_bind (turns_place htop) (turns_bind (m := stack) (turns_part fun e he =>
        ((hcondition e he).exitTurns hfits (hmarkCondition e he) out stack).widen ?_)
        (turns_bind ((hbody out again).widen ?_) (turns_bind (turns_place hagain)
        (turns_bind (Expr.statementTurns hfits hupdate hmarkUpdate stack).closed
        (turns_bind (m := stack) (turns_goto htop) (turns_place List.mem_cons_self))))))
      · exact List.cons_subset.mpr ⟨List.mem_cons_self, List.nil_subset _⟩
      · exact List.cons_subset.mpr ⟨List.mem_cons_self,
          List.cons_subset.mpr ⟨hagain, List.nil_subset _⟩⟩
  | ret hvalue =>
    intro loop _
    cases hmark with
    | ret hmark => exact returnTurns hfits hvalue hmark
  | breakOut =>
    intro loop hloop
    cases loop with
    | none => cases hloop rfl
    | some labels => exact turns_goto List.mem_cons_self
  | continueOn =>
    intro loop hloop
    cases loop with
    | none => cases hloop rfl
    | some labels => exact turns_goto (List.mem_cons_of_mem _ List.mem_cons_self)
  | empty => exact fun _ _ => turns_pure

end

/-! ## Methods -/

namespace MethodDecl

variable {registry last : Registry} {owner : Ty} {method : MethodDecl}
  {signature : MethodSignature} {frame : FrameInfo}

/-- The first local of an instance method is its receiver. -/
theorem hasReceiver_ctx (howner : owner.isReference = true) (returnTy : Ty) :
    (method.ctx last owner returnTy).HasReceiver := by
  intro hinstance
  have hmods : method.mods.isStatic = false := hinstance
  refine ⟨owner, howner, ?_⟩
  refine List.mem_append_left _ (List.mem_append_left _ ?_)
  unfold receiver
  rw [if_neg (Bool.eq_false_iff.mp hmods)]
  exact List.mem_cons_self

theorem Analyzed.fits (h : method.Analyzed last owner signature frame)
    (howner : owner.isReference = true) (hregistry : registry.Sound) :
    CodeEnv.Fits { registry, returnTy := signature.returnTy }
      (method.ctx last owner signature.returnTy) :=
  ⟨hregistry, rfl, h.sound.ne_any, hasReceiver_ctx howner _⟩

/-- The code of an analyzed method starts and ends with an empty stack. -/
theorem Analyzed.turns (h : method.Analyzed last owner signature frame)
    (howner : owner.isReference = true) (hregistry : registry.Sound) (hmark : method.Marked) :
    (method.bodyCode { registry, returnTy := signature.returnTy }).Turns
      (method.ctx last owner signature.returnTy) [] [] [] := by
  have hfits := h.fits howner hregistry
  rw [bodyCode_eq]
  refine turns_bind (m := []) (turns_part fun body hbody => Stmt.listTurns fun s hs => ?_)
    (turns_optionally (fun hvoid => ?_) fun _ => rfl)
  · exact (h.body body hbody s hs).turns hfits (hmark body hbody s hs) [] none fun h => by cases h
  · have hret : (instr (.ret signature.returnTy)).Turns
        (method.ctx last owner signature.returnTy) [] (signature.returnTy.results ++ []) [] :=
      turns_ret
    rw [Bool.decide_and, Bool.and_eq_true, decide_eq_true_iff] at hvoid
    rw [show signature.returnTy = .void from hvoid.1] at hret ⊢
    exact hret

end MethodDecl

end ClassCompiler
