import ClassCompiler.Proofs.Code.Evaluation
import ClassCompiler.Proofs.Tree.Resolved

/-!
# Execution of structured statements

The meaning of statements without declarations, whose expressions are conditions and calls: a loop
tests its condition again before each round, `continue` goes on with the updates and `break` behind the
loop, and only the chosen arm of a branch runs. How many rounds a loop runs is bounded, so that the
meaning is a function; what goes on for ever is still running for every bound.

The code of a statement comes to what the statement does, for every bound.

* `Outcome`, `Stmt.exec`, `repeatLoop`
* `leads_rounds`: loops
* `Stmt.Accepted.leads`
-/

namespace ClassCompiler

/-! ## Meaning -/

/-- How a statement ends. -/
inductive Outcome
  | completes
  | breaks
  | continues
  | returns (value : Option Value)
  /-- A loop has used up its rounds. -/
  | running
  deriving DecidableEq, Inhabited

/-- So many rounds of a loop. The test, the body and the update are given by what they do to the
calls. -/
def repeatLoop (test : List Call → Bool × List Call) (body : List Call → Outcome × List Call)
    (update : List Call → List Call) : Nat → List Call → Outcome × List Call
  | 0, calls => (.running, calls)
  | rounds + 1, calls =>
    match test calls with
    | (false, after) => (.completes, after)
    | (true, after) =>
      match body after with
      | (.completes, after) | (.continues, after) =>
        repeatLoop test body update rounds (update after)
      | (.breaks, after) => (.completes, after)
      | (.returns value, after) => (.returns value, after)
      | (.running, after) => (.running, after)

/-- Initial expressions without declarations. -/
def ForInit.isSimple : ForInit → Bool
  | exprs es => Expr.listIsSimple es
  | decl _ => false

namespace Stmt

mutual

/-- There are no declarations, and all expressions are simple. -/
def isStructured : Stmt → Bool
  | block stmts _ => listIsStructured stmts
  | declare _ => false
  | expr e _ => e.isSimple
  | branch condition onTrue onFalse _ =>
    let otherwise := match onFalse with
      | none => true
      | some stmt => stmt.isStructured
    condition.isSimple && onTrue.isStructured && otherwise
  | whileLoop condition body _ => condition.isSimple && body.isStructured
  | forLoop init condition update body _ =>
    init.all ForInit.isSimple && condition.all Expr.isSimple && Expr.listIsSimple update
      && body.isStructured
  | ret value _ => value.all Expr.isSimple
  | .break _ | .continue _ | empty _ => true

def listIsStructured : List Stmt → Bool
  | [] => true
  | first :: rest => first.isStructured && listIsStructured rest

end

section

variable (registry : Registry) (world : World) (locals : Nat → Value)

/-- A condition that need not be there. -/
def test (condition : Option Expr) (calls : List Call) : Bool × List Call :=
  match condition with
  | none => (true, calls)
  | some e =>
    let result := e.eval registry world locals calls
    (result.1 == .bool true, result.2)

/-- The calls after some expressions, whose values are dropped. -/
def runAll (es : List Expr) (calls : List Call) : List Call :=
  (Expr.evalList registry world locals es calls).2

def runInit (init : Option ForInit) (calls : List Call) : List Call :=
  match init with
  | some (.exprs es) => runAll registry world locals es calls
  | _ => calls

mutual

/-- The outcome of a structured statement, and all calls afterwards, latest first. Each of its loops has
the same number of rounds. -/
def exec (bound : Nat) : Stmt → List Call → Outcome × List Call
  | block stmts _, calls => execList bound stmts calls
  | expr e _, calls => (.completes, (e.eval registry world locals calls).2)
  | branch condition onTrue onFalse _, calls =>
    match test registry world locals (some condition) calls with
    | (true, after) => exec bound onTrue after
    | (false, after) =>
      match onFalse with
      | none => (.completes, after)
      | some stmt => exec bound stmt after
  | whileLoop condition body _, calls =>
    repeatLoop (test registry world locals (some condition)) (fun calls => exec bound body calls) id
      bound calls
  | forLoop init condition update body _, calls =>
    repeatLoop (test registry world locals condition) (fun calls => exec bound body calls)
      (runAll registry world locals update) bound (runInit registry world locals init calls)
  | ret value _, calls =>
    match value with
    | none => (.returns none, calls)
    | some e =>
      let result := e.eval registry world locals calls
      (.returns (some result.1), result.2)
  | .break _, calls => (.breaks, calls)
  | .continue _, calls => (.continues, calls)
  | declare _, calls | empty _, calls => (.completes, calls)

def execList (bound : Nat) : List Stmt → List Call → Outcome × List Call
  | [], calls => (.completes, calls)
  | first :: rest, calls =>
    match exec bound first calls with
    | (.completes, after) => execList bound rest after
    | stopped => stopped

end

end

/-- Every local that the statement names holds a value of its type. -/
def HeldBy (locals : Nat → Value) (s : Stmt) : Prop :=
  ∀ d ∈ s.nodes, ∀ named, d.namedLocal? = some named → (locals named.slot).Fits named.ty

variable {locals : Nat → Value} {s t : Stmt} {e : Expr}

theorem HeldBy.root (h : s.HeldBy locals) (he : e ∈ s.roots) : e.HeldBy locals :=
  fun d hd => h d (mem_nodes.mpr (.inl ⟨e, he, hd⟩))

theorem HeldBy.child (h : s.HeldBy locals) (ht : t ∈ s.children) : t.HeldBy locals :=
  fun d hd => h d (mem_nodes.mpr (.inr ⟨t, ht, hd⟩))

theorem isStructured_branch (condition : Expr) (onTrue : Stmt) (onFalse : Option Stmt) (line : Nat) :
    (branch condition onTrue onFalse line).isStructured
      = (condition.isSimple && onTrue.isStructured && onFalse.all isStructured) := by
  cases onFalse <;> simp [isStructured]

theorem isStructured_of_mem {stmts : List Stmt} (h : listIsStructured stmts = true) :
    ∀ s ∈ stmts, s.isStructured = true := by
  induction stmts with
  | nil => exact fun s hs => (List.not_mem_nil hs).elim
  | cons first rest ih =>
    obtain ⟨hfirst, hrest⟩ := Bool.and_eq_true_iff.mp h
    exact List.forall_mem_cons.mpr ⟨hfirst, ih hrest⟩

end Stmt

/-! ## Loops stop jumps -/

/-- The outcome is left to the loop around the statement. -/
def Outcome.isJump : Outcome → Bool
  | breaks | continues => true
  | completes | returns _ | running => false

theorem isJump_repeatLoop (test : List Call → Bool × List Call)
    (body : List Call → Outcome × List Call) (update : List Call → List Call) (rounds : Nat)
    (calls : List Call) : (repeatLoop test body update rounds calls).1.isJump = false := by
  induction rounds generalizing calls with
  | zero => rfl
  | succ rounds ih =>
    unfold repeatLoop
    split
    · rfl
    · split
      · exact ih _
      · exact ih _
      all_goals rfl

section

variable (registry : Registry) (world : World) (locals : Nat → Value) (bound : Nat)

theorem isJump_execList {stmts : List Stmt}
    (h : ∀ s ∈ stmts, ∀ calls, (s.exec registry world locals bound calls).1.isJump = false)
    (calls : List Call) : (Stmt.execList registry world locals bound stmts calls).1.isJump = false := by
  induction stmts generalizing calls with
  | nil => rfl
  | cons first rest ih =>
    obtain ⟨hfirst, hrest⟩ := List.forall_mem_cons.mp h
    unfold Stmt.execList
    split
    · exact ih hrest _
    · exact hfirst calls

/-- Outside of loops there is nothing to break or to continue. -/
theorem Stmt.Accepted.isJump_exec {ctx : BodyCtx} {inLoop : Bool} {s : Stmt}
    (h : s.Accepted ctx inLoop) (hloop : inLoop = false) (calls : List Call) :
    (s.exec registry world locals bound calls).1.isJump = false := by
  induction h generalizing calls with
  | block _ ih => exact isJump_execList _ _ _ _ (fun s hs calls => ih s hs hloop calls) calls
  | branch _ _ _ ihtrue ihfalse =>
    unfold Stmt.exec
    split
    · exact ihtrue hloop _
    · split
      · rfl
      · exact ihfalse _ rfl hloop _
  | whileLoop | forLoop => exact isJump_repeatLoop _ _ _ _ _
  | @ret _ value => cases value <;> rfl
  | breakOut | continueOn => cases hloop
  | declare | expr | empty => rfl

end

/-! ## Outcomes of code -/

/-- What the code of a statement comes to if the statement has that outcome. -/
def Outcome.progress (loop : Option LoopLabels) (bound : Nat) (frame : Frame) :
    Outcome → Progress Frame
  | completes => .done (.next frame)
  | breaks => .done (.jump (loop.getD default).onBreak frame)
  | continues => .done (.jump (loop.getD default).onContinue frame)
  | returns value => .done (.leave { frame with stack := value.toList })
  | running => .running bound frame

/-- What one round of a loop comes to that starts with a test of the condition behind a label. -/
def Outcome.round (top : Label) (bound : Nat) (again frame : Frame) : Outcome → Progress Frame
  | completes | continues => .done (.jump top again)
  | breaks => .done (.next frame)
  | returns value => .done (.leave { frame with stack := value.toList })
  | running => .running bound frame

theorem Outcome.more_progress (outcome : Outcome) (loop : Option LoopLabels) (bound : Nat)
    (frame : Frame) :
    (outcome.progress loop bound frame).more = outcome.progress loop (bound + 1) frame := by
  cases outcome <;> rfl

open Emit

variable {world : World} {locals : Nat → Value} {stack : List Value}

/-! ## Loops -/

/-- Behind its label, a loop does what its rounds do. -/
theorem leads_rounds {check main : Emit Unit} {top out : Label} {bound rounds : Nat}
    {test : List Call → Bool × List Call} {body : List Call → Outcome × List Call}
    {update : List Call → List Call} (hcompletes : check.Completes)
    (hcheck : ∀ calls, check.Leads (valueMachine world) ⟨stack, locals, calls⟩
      (.done (.branch (!(test calls).1) out ⟨stack, locals, (test calls).2⟩)))
    (hout : ∀ calls, main.LeadsInside (valueMachine world) out ⟨stack, locals, calls⟩
      (.done (.next ⟨stack, locals, calls⟩)))
    (hmain : ∀ calls, main.Leads (valueMachine world) ⟨stack, locals, calls⟩
      ((body calls).1.round top bound ⟨stack, locals, update (body calls).2⟩
        ⟨stack, locals, (body calls).2⟩))
    (hrounds : rounds ≤ bound) (loop : Option LoopLabels) (calls : List Call) :
    (check >>= fun _ => main).LeadsBehind (valueMachine world) top ⟨stack, locals, calls⟩
      ((repeatLoop test body update rounds calls).1.progress loop rounds
        ⟨stack, locals, (repeatLoop test body update rounds calls).2⟩) := by
  induction rounds generalizing calls with
  | zero => exact (leads_running _).behind top
  | succ rounds ih =>
    have hfirst := hcheck calls
    unfold repeatLoop
    rcases htested : test calls with ⟨b, after⟩
    rw [htested] at hfirst
    cases b with
    | false => exact (leads_into hfirst hcompletes (hout after)).behind top
    | true =>
      have hsecond := hmain after
      rcases hresult : body after with ⟨outcome, last⟩
      rw [hresult] at hsecond
      have hround : (check >>= fun _ => main).Leads (valueMachine world) ⟨stack, locals, calls⟩
          (outcome.round top bound ⟨stack, locals, update last⟩ ⟨stack, locals, last⟩) :=
        leads_then hfirst hcompletes hsecond
      dsimp only
      rw [hresult]
      cases outcome with
      | completes | continues =>
        have hagain := leadsBehind_again (hround.behind top)
          (ih (Nat.le_of_succ_le hrounds) (update last))
        rwa [Outcome.more_progress] at hagain
      | breaks | returns => exact hround.behind top
      | running => exact (hround.running_le hrounds).behind top

/-! ## Expressions in statements -/

section

variable {ctx : BodyCtx} (env : CodeEnv)

/-- A condition jumps out where it fails. -/
theorem Expr.Accepted.leads_exit {e : Expr} (h : e.Accepted ctx .boolean)
    (hsimple : e.isSimple = true) (hheld : e.HeldBy locals) (calls : List Call) (out : Label) :
    (e.exitCode env out).Leads (valueMachine world) ⟨stack, locals, calls⟩
      (.done (.branch (!(Stmt.test env.registry world locals (some e) calls).1) out
        ⟨stack, locals, (Stmt.test env.registry world locals (some e) calls).2⟩)) := by
  have hcomputes := h.computes hsimple hheld env.registry world calls
  obtain ⟨b, hb⟩ := (hcomputes.fits Ty.isValue_boolean.2).bool
  have hjumps := hcomputes.jumpsOn hb out false stack
  unfold Stmt.test
  dsimp only
  rw [hb, Value.bool_beq, beq_true]
  rwa [beq_false] at hjumps

theorem leads_pop {ty : Ty} {v : Value} (hvoid : ty ≠ .void) (hv : v.kind = ty.kind)
    (calls : List Call) : ((Instr.pop? ty).toList.forM instr).Leads (valueMachine world)
      ⟨v :: stack, locals, calls⟩ (.done (.next ⟨stack, locals, calls⟩)) := by
  have hop : ∀ code : OpCode, code = .pop ∨ code = .pop2 →
      code.drop? (v :: stack) = some stack → world.operate code (v :: stack) = some stack := by
    rintro code hcode hdrop
    have hcompare : code.compare? (v :: stack) = none := by
      cases stack <;> rcases hcode with rfl | rfl <;> rfl
    unfold World.operate
    rw [hcompare, hdrop]
    rcases hcode with rfl | rfl <;> rfl
  unfold Instr.pop?
  rw [if_neg hvoid]
  refine leads_then ?_ (completes_instr _) (leads_pure _)
  split
  · next hwide =>
    exact leads_op rfl rfl (hop _ (.inr rfl) (if_pos (by rw [hv, Ty.words_of_isWide hwide])))
  · next hwide =>
    exact leads_op rfl rfl (hop _ (.inl rfl) (if_pos (by rw [hv, Ty.words_of_not_isWide hwide])))

theorem Instr.exec_ret {ty : Ty} {v : Value} (hvoid : ty ≠ .void) (hv : v.kind = ty.kind)
    (calls : List Call) : (Instr.ret ty).exec world ⟨v :: stack, locals, calls⟩
      = some (.leave ⟨[v], locals, calls⟩) := by
  unfold Instr.ret
  rw [if_neg hvoid, ← hv]
  cases v <;> rfl

/-- The value of a call that is a statement is dropped. -/
theorem Expr.AcceptedStatement.leads {e : Expr} (h : e.AcceptedStatement ctx)
    (hsimple : e.isSimple = true) (hheld : e.HeldBy locals) (calls : List Call) :
    (e.statementCode env).Leads (valueMachine world) ⟨stack, locals, calls⟩
      (.done (.next ⟨stack, locals, (e.eval env.registry world locals calls).2⟩)) := by
  obtain ⟨hform, ty, haccepted⟩ := h
  have hcomputes := haccepted.computes hsimple hheld env.registry world calls
  have hcompletes := (haccepted.succeeds env.registry).value.completes
  have hproven := haccepted.provenTy
  cases e with
  | call =>
    refine leads_then (hcomputes.value stack) hcompletes ?_
    dsimp only
    rw [hproven, Emit.pure_bind]
    by_cases hvoid : ty = .void
    · rw [hvoid, Ty.results, if_pos rfl, Instr.pop?, if_pos rfl]
      exact leads_pure _
    · rw [Ty.results, if_neg hvoid]
      exact leads_pop hvoid (hcomputes.fits hvoid).kind _
  | assign | increment => cases hsimple
  | _ => cases hform

theorem leads_runAll {es : List Expr} (h : ∀ e ∈ es, e.AcceptedStatement ctx)
    (hsimple : Expr.listIsSimple es = true) (hheld : ∀ e ∈ es, e.HeldBy locals)
    (calls : List Call) :
    (es.forM fun e => e.statementCode env).Leads (valueMachine world) ⟨stack, locals, calls⟩
      (.done (.next ⟨stack, locals, Stmt.runAll env.registry world locals es calls⟩)) := by
  induction es generalizing calls with
  | nil => exact leads_pure _
  | cons first rest ih =>
    obtain ⟨hfirst, hrest⟩ := Bool.and_eq_true_iff.mp hsimple
    obtain ⟨haccepted, haccepteds⟩ := List.forall_mem_cons.mp h
    obtain ⟨hheldFirst, hheldRest⟩ := List.forall_mem_cons.mp hheld
    obtain ⟨-, ty, htyped⟩ := id haccepted
    exact leads_then (haccepted.leads env hfirst hheldFirst calls)
      (htyped.statementCode env).completes (ih haccepteds hrest hheldRest _)

theorem leads_init {init : Option ForInit} (h : ∀ i, init = some i → i.Accepted ctx)
    (hsimple : init.all ForInit.isSimple = true)
    (hheld : ∀ i, init = some i → ∀ e ∈ i.roots, e.HeldBy locals) (calls : List Call) :
    (Emit.part (ForInit.code env) init).Leads (valueMachine world) ⟨stack, locals, calls⟩
      (.done (.next ⟨stack, locals, Stmt.runInit env.registry world locals init calls⟩)) := by
  cases init with
  | none => exact leads_pure _
  | some i =>
    cases i with
    | exprs es => exact leads_runAll env (h _ rfl) hsimple (hheld _ rfl) calls
    | decl d => cases hsimple

theorem leads_check {condition : Option Expr}
    (h : ∀ e, condition = some e → e.Accepted ctx .boolean)
    (hsimple : condition.all Expr.isSimple = true)
    (hheld : ∀ e, condition = some e → e.HeldBy locals) (calls : List Call) (out : Label) :
    (Emit.part (fun e : Expr => e.exitCode env out) condition).Leads (valueMachine world)
      ⟨stack, locals, calls⟩
      (.done (.branch (!(Stmt.test env.registry world locals condition calls).1) out
        ⟨stack, locals, (Stmt.test env.registry world locals condition calls).2⟩)) := by
  cases condition with
  | none => exact leads_pure _
  | some e => exact (h e rfl).leads_exit env hsimple (hheld e rfl) calls out

theorem leads_return {value : Option Expr} (h : ReturnAccepted ctx value)
    (hreturn : env.returnTy = ctx.returnTy) (hsimple : value.all Expr.isSimple = true)
    (hheld : ∀ e, value = some e → e.HeldBy locals) (loop : Option LoopLabels) (bound line : Nat)
    (calls : List Call) :
    (returnCode env value).Leads (valueMachine world) ⟨stack, locals, calls⟩
      (((Stmt.ret value line).exec env.registry world locals bound calls).1.progress loop bound
        ⟨stack, locals, ((Stmt.ret value line).exec env.registry world locals bound calls).2⟩) := by
  cases value with
  | none => exact leads_exec rfl
  | some e =>
    obtain ⟨hvoid, ty, haccepted, hstores⟩ := h
    have hty : ty ≠ .void := by
      rcases hstores with rfl | ⟨-, href⟩
      · exact hvoid
      · exact Ty.ne_void_of_isReference href
    have hcomputes := haccepted.computes hsimple (hheld e rfl) env.registry world calls
    have hkind := (hcomputes.fits hty).kind.trans hstores.kind_eq
    refine leads_then (hcomputes.push hty stack) (haccepted.succeeds env.registry).value.completes
      (leads_exec ?_)
    rw [hreturn]
    exact Instr.exec_ret hvoid hkind _

end

/-! ## Statements -/

/-- The code of a statement comes to what the statement does. -/
def Stmt.Executes (env : CodeEnv) (world : World) (locals : Nat → Value) (bound : Nat)
    (loop : Option LoopLabels) (s : Stmt) : Prop :=
  ∀ calls stack, (s.code env loop).Leads (valueMachine world) ⟨stack, locals, calls⟩
    ((s.exec env.registry world locals bound calls).1.progress loop bound
      ⟨stack, locals, (s.exec env.registry world locals bound calls).2⟩)

section

variable {ctx : BodyCtx} {env : CodeEnv} {bound : Nat}

theorem executes_list {loop : Option LoopLabels} {stmts : List Stmt}
    (hcompletes : ∀ s ∈ stmts, (s.code env loop).Completes)
    (h : ∀ s ∈ stmts, s.Executes env world locals bound loop) (calls : List Call)
    (stack : List Value) : (Stmt.listCode env loop stmts).Leads (valueMachine world)
      ⟨stack, locals, calls⟩ ((Stmt.execList env.registry world locals bound stmts calls).1.progress
        loop bound ⟨stack, locals, (Stmt.execList env.registry world locals bound stmts calls).2⟩) := by
  induction stmts generalizing calls with
  | nil => exact leads_pure _
  | cons first rest ih =>
    obtain ⟨hcompletes, hcompletesRest⟩ := List.forall_mem_cons.mp hcompletes
    obtain ⟨hfirst, hrest⟩ := List.forall_mem_cons.mp h
    have hleads := hfirst calls stack
    unfold Stmt.execList
    rcases hresult : first.exec env.registry world locals bound calls with ⟨outcome, after⟩
    rw [hresult] at hleads
    cases outcome with
    | completes => exact leads_then hleads hcompletes (ih hcompletesRest hrest after)
    | breaks | continues | returns | running => exact leads_stop hleads rfl

/-- The arms of a branch. -/
theorem executes_branch {loop : Option LoopLabels} {condition : Expr} {onTrue : Stmt}
    {onFalse : Option Stmt} {line : Nat} (hcondition : condition.Accepted ctx .boolean)
    (hsimple : condition.isSimple = true) (hheld : condition.HeldBy locals)
    (hcompletes : (onTrue.code env loop).Completes)
    (hcompletesFalse : ∀ s, onFalse = some s → (s.code env loop).Completes)
    (htrue : onTrue.Executes env world locals bound loop)
    (hfalse : ∀ s, onFalse = some s → s.Executes env world locals bound loop) :
    (Stmt.branch condition onTrue onFalse line).Executes env world locals bound loop := by
  intro calls stack
  rw [Stmt.code_branch]
  refine leads_newLabel fun otherwise => ?_
  have hexit : (condition.exitCode env otherwise).Leads (valueMachine world) ⟨stack, locals, calls⟩ _ :=
    hcondition.leads_exit env hsimple hheld calls otherwise
  have hexitCompletes := (hcondition.exitCode env otherwise).completes
  unfold Stmt.exec
  rcases htest : Stmt.test env.registry world locals (some condition) calls with ⟨b, after⟩
  rw [htest] at hexit
  cases b with
  | true =>
    refine leads_then hexit hexitCompletes ?_
    have hleads := htrue after stack
    dsimp only
    rcases hresult : onTrue.exec env.registry world locals bound after with ⟨outcome, last⟩
    rw [hresult] at hleads
    cases outcome with
    | completes =>
      refine leads_then hleads hcompletes ?_
      cases onFalse with
      | none => exact leads_place (exec_label _ _)
      | some stmt =>
        exact leads_newLabel fun done => leads_into (leads_goto _ _) (completes_instr _)
          (leadsInside_bind (completes_instr _) (leadsInside_bind (hcompletesFalse stmt rfl)
          (leadsInside_place _ _)))
    | breaks | continues | returns | running => exact leads_stop hleads rfl
  | false =>
    refine leads_into hexit hexitCompletes (leadsInside_bind hcompletes ?_)
    cases onFalse with
    | none => exact leadsInside_place _ _
    | some stmt =>
      refine leadsInside_newLabel fun done => leadsInside_bind (completes_instr _)
        (leadsInside_place_bind ?_ _)
      have hleads := hfalse stmt rfl after stack
      dsimp only
      rcases hresult : stmt.exec env.registry world locals bound after with ⟨outcome, last⟩
      rw [hresult] at hleads
      cases outcome with
      | completes =>
        exact leads_then hleads (hcompletesFalse stmt rfl) (leads_place (exec_label _ _))
      | breaks | continues | returns | running => exact leads_stop hleads rfl

theorem executes_while {loop : Option LoopLabels} {condition : Expr} {body : Stmt} {line : Nat}
    (hcondition : condition.Accepted ctx .boolean) (hsimple : condition.isSimple = true)
    (hheld : condition.HeldBy locals)
    (hcompletes : ∀ labels, (body.code env (some labels)).Completes)
    (hbody : ∀ labels, body.Executes env world locals bound (some labels)) :
    (Stmt.whileLoop condition body line).Executes env world locals bound loop := by
  intro calls stack
  refine leads_newLabel fun top => leads_newLabel fun out =>
    leads_loop (exec_label top _) (leads_rounds (hcondition.exitCode env out).completes
      (fun calls => hcondition.leads_exit env hsimple hheld calls out) (fun calls => ?_)
      (fun calls => ?_) (Nat.le_refl bound) loop calls)
  · exact leadsInside_bind (hcompletes _) (leadsInside_bind (completes_instr _)
      (leadsInside_place _ _))
  · have hleads := hbody ⟨out, top⟩ calls stack
    rcases hresult : body.exec env.registry world locals bound calls with ⟨outcome, after⟩
    rw [hresult] at hleads
    cases outcome with
    | completes => exact leads_then hleads (hcompletes _) (leads_stop (leads_goto _ _) rfl)
    | breaks =>
      exact leads_into hleads (hcompletes _) (leadsInside_bind (completes_instr _)
        (leadsInside_place _ _))
    | continues | returns | running => exact leads_stop hleads rfl

theorem executes_for {loop : Option LoopLabels} {init : Option ForInit} {condition : Option Expr}
    {update : List Expr} {body : Stmt} {line : Nat} (hinit : ∀ i, init = some i → i.Accepted ctx)
    (hcondition : ∀ e, condition = some e → e.Accepted ctx .boolean)
    (hupdate : ∀ e ∈ update, e.AcceptedStatement ctx)
    (hstructured : (Stmt.forLoop init condition update body line).isStructured = true)
    (hheld : (Stmt.forLoop init condition update body line).HeldBy locals)
    (hcompletes : ∀ labels, (body.code env (some labels)).Completes)
    (hbody : ∀ labels, body.Executes env world locals bound (some labels)) :
    (Stmt.forLoop init condition update body line).Executes env world locals bound loop := by
  intro calls stack
  obtain ⟨hsimples, -⟩ := Bool.and_eq_true_iff.mp hstructured
  obtain ⟨hsimples, hsimpleUpdate⟩ := Bool.and_eq_true_iff.mp hsimples
  obtain ⟨hsimpleInit, hsimpleCondition⟩ := Bool.and_eq_true_iff.mp hsimples
  have hheldInit : ∀ i, init = some i → ∀ e ∈ i.roots, e.HeldBy locals := fun i hi e he =>
    hheld.root (List.mem_append_left _ (List.mem_append_left _
      (List.mem_flatMap.mpr ⟨i, Option.mem_toList.mpr hi, he⟩)))
  have hheldCondition : ∀ e, condition = some e → e.HeldBy locals := fun e he =>
    hheld.root (List.mem_append_left _ (List.mem_append_right _ (Option.mem_toList.mpr he)))
  have hheldUpdate : ∀ e ∈ update, e.HeldBy locals := fun e he =>
    hheld.root (List.mem_append_right _ he)
  have hupdates := (Expr.statementCodes_succeeds env hupdate).completes
  have hcheck := fun out => (succeeds_part fun e he => (hcondition e he).exitCode env out).completes
  rw [Stmt.code_forLoop]
  refine leads_then (leads_init env hinit hsimpleInit hheldInit calls)
    (succeeds_part fun i hi => (hinit i hi).succeeds env).completes ?_
  refine leads_newLabel fun top => leads_newLabel fun again => leads_newLabel fun out =>
    leads_loop (exec_label top _) (leads_rounds (hcheck out)
      (fun calls => leads_check env hcondition hsimpleCondition hheldCondition calls out)
      (fun calls => ?_) (fun calls => ?_) (Nat.le_refl bound) loop _)
  · exact leadsInside_bind (hcompletes _) (leadsInside_bind (completes_instr _)
      (leadsInside_bind hupdates (leadsInside_bind (completes_instr _) (leadsInside_place _ _))))
  · have hleads := hbody ⟨out, again⟩ calls stack
    have hround : ∀ after, (do
        update.forM fun e => e.statementCode env
        goto top
        place out).Leads (valueMachine world) ⟨stack, locals, after⟩
        (.done (.jump top ⟨stack, locals, Stmt.runAll env.registry world locals update after⟩)) :=
      fun after => leads_then (leads_runAll env hupdate hsimpleUpdate hheldUpdate after) hupdates
        (leads_stop (leads_goto _ _) rfl)
    rcases hresult : body.exec env.registry world locals bound calls with ⟨outcome, after⟩
    rw [hresult] at hleads
    cases outcome with
    | completes =>
      exact leads_then hleads (hcompletes _) (leads_then (leads_place (exec_label _ _))
        (completes_instr _) (hround after))
    | continues =>
      exact leads_into hleads (hcompletes _) (leadsInside_place_bind (hround after) _)
    | breaks =>
      exact leads_into hleads (hcompletes _) (leadsInside_bind (completes_instr _)
        (leadsInside_bind hupdates (leadsInside_bind (completes_instr _) (leadsInside_place _ _))))
    | returns | running => exact leads_stop hleads rfl

/-- The code of an accepted structured statement comes to what the statement does, for every bound on
the rounds of loops. -/
theorem Stmt.Accepted.executes {inLoop : Bool} {s : Stmt} (h : s.Accepted ctx inLoop)
    (hreturn : env.returnTy = ctx.returnTy) (hstructured : s.isStructured = true)
    (hheld : s.HeldBy locals) (world : World) (bound : Nat) :
    ∀ loop : Option LoopLabels, (inLoop = true → loop.isSome) →
      s.Executes env world locals bound loop := by
  induction h with
  | block hstmts ih =>
    intro loop hloop calls stack
    refine executes_list (fun s hs => ((hstmts s hs).succeeds env loop hloop).completes)
      (fun s hs => ih s hs ?_ ?_ loop hloop) calls stack
    · exact isStructured_of_mem hstructured s hs
    · exact hheld.child hs
  | declare => cases hstructured
  | expr he =>
    exact fun loop _ calls stack =>
      he.leads env hstructured (hheld.root List.mem_cons_self) calls
  | @branch inLoop condition onTrue onFalse line hcondition htrue hfalse ihtrue ihfalse =>
    intro loop hloop
    rw [isStructured_branch] at hstructured
    obtain ⟨hsimples, hsimpleFalse⟩ := Bool.and_eq_true_iff.mp hstructured
    obtain ⟨hsimple, hsimpleTrue⟩ := Bool.and_eq_true_iff.mp hsimples
    refine executes_branch hcondition hsimple (hheld.root List.mem_cons_self)
      (htrue.succeeds env loop hloop).completes
      (fun s hs => ((hfalse s hs).succeeds env loop hloop).completes)
      (ihtrue hsimpleTrue (hheld.child List.mem_cons_self) loop hloop) fun s hs => ?_
    subst hs
    exact ihfalse s rfl hsimpleFalse
      (hheld.child (List.mem_cons_of_mem _ (Option.mem_toList.mpr rfl))) loop hloop
  | whileLoop hcondition hbody ih =>
    intro loop _
    obtain ⟨hsimple, hsimpleBody⟩ := Bool.and_eq_true_iff.mp hstructured
    exact executes_while hcondition hsimple (hheld.root List.mem_cons_self)
      (fun labels => (hbody.succeeds env (some labels) fun _ => rfl).completes)
      fun labels => ih hsimpleBody (hheld.child List.mem_cons_self) (some labels) fun _ => rfl
  | forLoop hinit hcondition hbody hupdate ih =>
    intro loop _
    exact executes_for hinit hcondition hupdate hstructured hheld
      (fun labels => (hbody.succeeds env (some labels) fun _ => rfl).completes)
      fun labels => ih (Bool.and_eq_true_iff.mp hstructured).2 (hheld.child List.mem_cons_self)
        (some labels) fun _ => rfl
  | ret hvalue =>
    exact fun loop _ calls stack => leads_return env hvalue hreturn hstructured
      (fun e he => hheld.root (Option.mem_toList.mpr he)) loop bound _ calls
  | breakOut | continueOn =>
    intro loop hloop calls stack
    obtain ⟨labels, rfl⟩ := Option.isSome_iff_exists.mp (hloop rfl)
    exact leads_goto _ _
  | empty => exact fun loop _ calls stack => leads_pure _

end

end ClassCompiler
