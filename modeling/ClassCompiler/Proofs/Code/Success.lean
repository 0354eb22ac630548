import ClassCompiler.Proofs.Body.Method
import ClassCompiler.Proofs.Code.Accepted
import ClassCompiler.Proofs.Machine.Labels

/-!
# Code generation succeeds

Every piece of code of an accepted tree can be generated, whatever the next free label is, and it
defines the labels that it takes. So an analyzed method becomes a method of a class.

* `Expr.Accepted.succeeds`, `Stmt.Accepted.succeeds`
* `MethodDecl.Analyzed.generate`
-/

namespace ClassCompiler

open Emit

theorem Emit.succeeds_optionally (test : Bool) {piece : Emit Unit} (h : piece.Succeeds) :
    (optionally test piece).Succeeds := succeeds_ite h (succeeds_pure _)

/-! ## Instructions of a type -/

namespace Instr

theorem defined?_localAccess (forms : List OpCode × OpCode) (slot : Nat) :
    (localAccess forms slot).defined? = none := by
  unfold localAccess
  split <;> rfl

theorem defined?_pushInt (value : Int32) : (pushInt value).defined? = none := by
  unfold pushInt
  dsimp only
  repeat' split
  all_goals rfl

theorem defined?_pushLong (value : Int64) : (pushLong value).defined? = none := by
  unfold pushLong
  repeat' split
  all_goals rfl

theorem defined?_of_mem_pop? {ty : Ty} {i : Instr} (h : i ∈ (pop? ty).toList) :
    i.defined? = none := by
  unfold pop? at h
  split at h
  · exact absurd h List.not_mem_nil
  · rw [List.mem_singleton.mp h]
    rfl

end Instr

theorem ExprCode.defined?_literalInstr (value : Literal) :
    (literalInstr value).defined? = none := by
  unfold literalInstr
  cases value with
  | int | bool | char => exact Instr.defined?_pushInt _
  | long => exact Instr.defined?_pushLong _
  | float =>
    dsimp only [Instr.pushFloat]
    repeat' split
    all_goals rfl
  | double =>
    dsimp only [Instr.pushDouble]
    repeat' split
    all_goals rfl
  | string | null => rfl

theorem ExprCode.defined?_of_mem_unaryOps {op : UnaryOp} {ty : Ty} {i : Instr}
    (h : i ∈ unaryOps op ty) : i.defined? = none := by
  unfold unaryOps at h
  split at h
  · exact absurd h List.not_mem_nil
  · rw [List.mem_singleton.mp h]
    rfl
  · split at h <;> rcases List.mem_pair.mp h with rfl | rfl
    · exact Instr.defined?_pushLong _
    · rfl
    · rfl
    · rfl

namespace Place

variable (registry : Registry) (ty : Ty)

theorem load_succeeds (place : Place) : (place.load registry ty).Succeeds := by
  cases place with
  | slot => exact succeeds_instr (Instr.defined?_localAccess _ _)
  | static => exact succeeds_instr rfl
  | member | element => exact succeeds_bind (succeeds_instr rfl) fun _ => succeeds_instr rfl

theorem keep_succeeds (place : Place) : (place.keep ty).Succeeds := by
  cases place <;> exact succeeds_instr rfl

theorem store_succeeds (place : Place) : (place.store registry ty).Succeeds := by
  cases place with
  | slot => exact succeeds_instr (Instr.defined?_localAccess _ _)
  | static | member | element => exact succeeds_instr rfl

end Place

/-! ## Expressions -/

namespace ExprCode

/-- All uses of an expression that its form allows. -/
structure Succeeds (code : ExprCode) (isPlace : Bool) : Prop where
  value : code.value.Succeeds
  branch : ∀ target onTrue, (code.branch target onTrue).Succeeds
  operands : isPlace = true → code.operands.Succeeds
  append : code.append.Succeeds

variable {ctx : BodyCtx} {e : Expr} {ty : Ty}

theorem succeeds_branchOnValue {value : Emit Unit} (h : value.Succeeds) (target : Label)
    (onTrue : Bool) : (branchOnValue value target onTrue).Succeeds :=
  succeeds_bind h fun _ => succeeds_instr rfl

theorem succeeds_valueOfBranch {branch : Label → Bool → Emit Unit}
    (h : ∀ target onTrue, (branch target onTrue).Succeeds) : (valueOfBranch branch).Succeeds :=
  defines_newLabel fun _ => defines_newLabel fun _ => defines_bind (h _ _) fun _ =>
    defines_bind (succeeds_instr rfl) fun _ => defines_bind (succeeds_instr rfl) fun _ =>
    defines_place_bind _ (defines_bind (succeeds_instr rfl) fun _ => defines_place _)

theorem succeeds_appendOnce (he : e.Accepted ctx ty) {value : Emit Unit} (h : value.Succeeds) :
    (appendOnce e value).Succeeds := by
  rw [appendOnce_eq he]
  exact succeeds_bind h fun _ => succeeds_instr rfl

theorem succeeds_ofValue (he : e.Accepted ctx ty) {value : Emit Unit} (h : value.Succeeds) :
    (ofValue e value).Succeeds false :=
  ⟨h, succeeds_branchOnValue h, (fun h => by cases h), succeeds_appendOnce he h⟩

theorem succeeds_ofPlace (he : e.Accepted ctx ty) {operands value : Emit Unit}
    (ho : operands.Succeeds) (h : value.Succeeds) : (ofPlace e operands value).Succeeds true :=
  ⟨h, succeeds_branchOnValue h, fun _ => ho, succeeds_appendOnce he h⟩

theorem succeeds_ofBranch (he : e.Accepted ctx ty) {branch : Label → Bool → Emit Unit}
    (h : ∀ target onTrue, (branch target onTrue).Succeeds) : (ofBranch e branch).Succeeds false :=
  ⟨succeeds_valueOfBranch h, h, (fun h => by cases h),
    succeeds_appendOnce he (succeeds_valueOfBranch h)⟩

theorem succeeds_concatValue {parts : Emit Unit} (h : parts.Succeeds) :
    (concatValue parts).Succeeds :=
  succeeds_bind (succeeds_instr rfl) fun _ => succeeds_bind (succeeds_instr rfl) fun _ =>
    succeeds_bind (succeeds_instr rfl) fun _ => succeeds_bind h fun _ => succeeds_instr rfl

theorem succeeds_test (selected : BranchTest) (target : Label) :
    (test selected target).Succeeds := succeeds_bind (succeeds_ops _) fun _ => succeeds_instr rfl

theorem succeeds_logicalJump (op : LogicalOp) {left right : Label → Bool → Emit Unit}
    (hl : ∀ target onTrue, (left target onTrue).Succeeds)
    (hr : ∀ target onTrue, (right target onTrue).Succeeds) (target : Label) (onTrue : Bool) :
    (logicalJump op left right target onTrue).Succeeds := by
  unfold logicalJump
  split
  · exact succeeds_bind (hl _ _) fun _ => hr _ _
  · exact defines_newLabel fun _ => defines_bind (hl _ _) fun _ =>
      defines_bind (hr _ _) fun _ => defines_place _

theorem succeeds_newValue (registry : Registry) (op : AssignOp) (place : Place) (left right : Ty)
    {r : Emit Unit} (h : r.Succeeds) : (newValue registry op place left right r).Succeeds := by
  unfold newValue
  split
  · exact h
  · refine succeeds_ite h ?_
    exact succeeds_bind (place.load_succeeds registry left) fun _ => succeeds_bind h fun _ =>
      succeeds_bind (succeeds_ops _) fun _ => succeeds_instr rfl

theorem succeeds_incrementLocal (op : IncrementOp) (ty : Ty) (slot : Nat) (keepOld keepNew : Bool) :
    (incrementLocal op ty slot keepOld keepNew).Succeeds := by
  rw [incrementLocal_eq]
  have hload : (Emit.instr (.load ty slot)).Succeeds :=
    succeeds_instr (Instr.defined?_localAccess _ _)
  exact succeeds_bind (succeeds_optionally _ hload) fun _ =>
    succeeds_bind (succeeds_instr rfl) fun _ => succeeds_optionally _ hload

end ExprCode

open ExprCode

theorem Expr.Accepted.succeeds {ctx : BodyCtx} (registry : Registry) {e : Expr} {ty : Ty}
    (h : e.Accepted ctx ty) : (e.code registry).Succeeds e.isAssignable := by
  have he := h
  induction h with
  | @literal n value =>
    cases value with
    | bool value =>
      have hvalue : (Emit.instr (literalInstr (.bool value))).Succeeds :=
        succeeds_instr (defined?_literalInstr _)
      refine ⟨hvalue, fun target onTrue => ?_, (fun h => by cases h),
        succeeds_appendOnce he hvalue⟩
      exact succeeds_ite (succeeds_instr rfl) (succeeds_pure _)
    | _ => exact succeeds_ofValue he (succeeds_instr (defined?_literalInstr _))
  | slot =>
    refine succeeds_ofPlace he (succeeds_pure _) ?_
    unfold nameValue
    dsimp only
    rw [he.provenTy, Emit.pure_bind]
    exact succeeds_instr (Instr.defined?_localAccess _ _)
  | ownField =>
    refine succeeds_ofPlace he ?_ ?_
    · exact succeeds_ite (succeeds_pure _) (succeeds_instr rfl)
    · exact succeeds_ite (succeeds_instr rfl)
        (succeeds_bind (succeeds_instr rfl) fun _ => succeeds_instr rfl)
  | self => exact succeeds_ofValue he (succeeds_instr rfl)
  | field _ _ _ htarget _ ih =>
    have hvalue := (ih htarget).value
    exact succeeds_ofPlace he hvalue (succeeds_bind hvalue fun _ => succeeds_instr rfl)
  | index _ _ harray _ hposition _ iharray ihposition =>
    have hoperands := succeeds_bind (iharray harray).value fun _ => (ihposition hposition).value
    refine succeeds_ofPlace he hoperands ?_
    rw [he.provenTy, Emit.pure_bind]
    exact succeeds_bind hoperands fun _ => succeeds_instr rfl
  | length _ harray _ ih =>
    exact succeeds_ofValue he (succeeds_bind (ih harray).value fun _ => succeeds_instr rfl)
  | unary _ hoperand _ _ ih =>
    refine succeeds_ofValue he ?_
    rw [unaryValue_eq he hoperand]
    exact succeeds_bind (ih hoperand).value fun _ => succeeds_bind (succeeds_ops _) fun _ =>
      succeeds_forM fun _ hi => succeeds_instr (defined?_of_mem_unaryOps hi)
  | not _ hoperand ih =>
    exact succeeds_ofBranch he fun target onTrue => (ih hoperand).branch target (!onTrue)
  | binary _ hlhs hrhs hrule ihl ihr =>
    refine succeeds_ofValue he ?_
    rw [binaryValue_eq hlhs hrhs hrule]
    exact succeeds_bind (ihl hlhs).value fun _ => succeeds_bind (succeeds_ops _) fun _ =>
      succeeds_bind (ihr hrhs).value fun _ => succeeds_bind (succeeds_ops _) fun _ =>
      succeeds_instr rfl
  | @compare n op lhs rhs operand _ hlhs hrhs hoperand ihl ihr =>
    refine succeeds_ofBranch he fun target onTrue => ?_
    obtain ⟨selected, hselected⟩ := compareBranch?_isSome op hoperand onTrue
    rw [compareJump_eq hlhs hselected]
    exact succeeds_bind (ihl hlhs).value fun _ => succeeds_bind (ihr hrhs).value fun _ =>
      succeeds_test _ _
  | equality _ hlhs hrhs hkind ihl ihr =>
    refine succeeds_ofBranch he fun target onTrue => ?_
    rw [equalityJump_eq hlhs hrhs hkind]
    exact succeeds_bind (ihl hlhs).value fun _ => succeeds_bind (succeeds_ops _) fun _ =>
      succeeds_bind (ihr hrhs).value fun _ => succeeds_bind (succeeds_ops _) fun _ =>
      succeeds_test _ _
  | logical _ hlhs hrhs ihl ihr =>
    exact succeeds_ofBranch he
      (succeeds_logicalJump _ (ihl hlhs).branch (ihr hrhs).branch)
  | concat _ hlhs _ hrhs _ ihl ihr =>
    have hparts := succeeds_bind (ihl hlhs).append fun _ => (ihr hrhs).append
    have hvalue := succeeds_concatValue hparts
    exact ⟨hvalue, succeeds_branchOnValue hvalue, (fun h => by cases h), hparts⟩
  | assign _ hplace hlhs hrhs hfits ihl ihr =>
    obtain ⟨place, hplaced⟩ := hlhs.exists_place hplace
    refine succeeds_ofValue he ?_
    rw [assignValue_eq hlhs hrhs hplaced hfits]
    exact succeeds_bind ((ihl hlhs).operands hplace) fun _ =>
      succeeds_bind (succeeds_newValue registry _ _ _ _ (ihr hrhs).value) fun _ =>
      succeeds_bind (succeeds_optionally _ (place.keep_succeeds _)) fun _ =>
      place.store_succeeds registry _
  | @increment n op operand ty _ hplace hoperand hnumeric ih =>
    obtain ⟨place, hplaced⟩ := hoperand.exists_place hplace
    obtain ⟨p, code, hpromoted, hcode⟩ := exists_incrementOp hnumeric op
    refine succeeds_ofValue he ?_
    rw [incrementValue_eq hoperand hplaced]
    split
    · exact succeeds_incrementLocal _ _ _ _ _
    · rw [incrementPlace_eq hoperand hplaced hpromoted hcode]
      have hkeep : ∀ keep, (optionally keep (place.keep ty)).Succeeds := fun keep =>
        succeeds_optionally keep (place.keep_succeeds ty)
      exact succeeds_bind ((ih hoperand).operands hplace) fun _ =>
        succeeds_bind (place.load_succeeds registry ty) fun _ => succeeds_bind (hkeep _) fun _ =>
        succeeds_bind (succeeds_instr rfl) fun _ => succeeds_bind (succeeds_instr rfl) fun _ =>
        succeeds_bind (succeeds_ops _) fun _ => succeeds_bind (hkeep _) fun _ =>
        place.store_succeeds registry ty
  | @call n target text args method params _ htarget _ _ hargs htakes ihtarget ihargs =>
    have hargsCode : (argsCode registry args).Succeeds := by
      clear he htakes
      induction args with
      | nil => exact succeeds_pure _
      | cons first rest ih =>
        have hfirst := ihargs first List.mem_cons_self (hargs first List.mem_cons_self)
        exact succeeds_bind hfirst.value fun _ =>
          ih (fun a ha => hargs a (List.mem_cons_of_mem _ ha))
            fun a ha => ihargs a (List.mem_cons_of_mem _ ha)
    rw [code_call]
    refine succeeds_ofValue he ?_
    rw [callValue_eq]
    refine succeeds_bind (succeeds_optionally _ ?_) fun _ =>
      succeeds_bind hargsCode fun _ => succeeds_instr rfl
    cases target with
    | none => exact succeeds_instr rfl
    | some target => exact (ihtarget target rfl (htarget target rfl)).value

/-! ## Statements -/

section

variable {ctx : BodyCtx} (env : CodeEnv)

theorem Expr.Accepted.statementCode {e : Expr} {ty : Ty} (h : e.Accepted ctx ty) :
    (e.statementCode env).Succeeds := by
  refine succeeds_bind (h.succeeds env.registry).value fun _ => ?_
  have hproven := h.provenTy
  cases h with
  | call =>
    dsimp only
    rw [hproven, Emit.pure_bind]
    exact succeeds_forM fun _ hi => succeeds_instr (Instr.defined?_of_mem_pop? hi)
  | _ => exact succeeds_pure _

theorem Expr.statementCodes_succeeds {es : List Expr} (h : ∀ e ∈ es, e.AcceptedStatement ctx) :
    (es.forM fun e => e.statementCode env).Succeeds := by
  refine succeeds_forM fun e he => ?_
  obtain ⟨-, ty, haccepted⟩ := h e he
  exact haccepted.statementCode env

theorem LocalDecl.Accepted.succeeds {decl : LocalDecl} (h : decl.Accepted ctx) :
    (decl.code env).Succeeds := by
  refine succeeds_forM fun e he => ?_
  obtain ⟨-, ty, haccepted⟩ := h.initializers e he
  exact (haccepted.succeeds env.registry).value

theorem ForInit.Accepted.succeeds {init : ForInit} (h : init.Accepted ctx) :
    (init.code env).Succeeds := by
  cases init with
  | exprs es => exact Expr.statementCodes_succeeds env h
  | decl d => exact LocalDecl.Accepted.succeeds env h

theorem Expr.Accepted.exitCode {e : Expr} {ty : Ty} (h : e.Accepted ctx ty) (target : Label) :
    (e.exitCode env target).Succeeds := (h.succeeds env.registry).branch target false

theorem returnCode_succeeds {value : Option Expr} (h : ReturnAccepted ctx value) :
    (returnCode env value).Succeeds := by
  cases value with
  | none => exact succeeds_instr rfl
  | some e =>
    obtain ⟨-, ty, haccepted, -⟩ := h
    exact succeeds_bind (haccepted.succeeds env.registry).value fun _ => succeeds_instr rfl

theorem jumpOut_succeeds {target : Option Label} (h : target.isSome) (line : Nat) :
    (jumpOut target line).Succeeds := by
  cases target with
  | none => cases h
  | some target => exact succeeds_instr rfl

theorem Stmt.listCode_succeeds {loop : Option LoopLabels} {stmts : List Stmt}
    (h : ∀ s ∈ stmts, (s.code env loop).Succeeds) : (listCode env loop stmts).Succeeds := by
  induction stmts with
  | nil => exact succeeds_pure _
  | cons first rest ih =>
    exact succeeds_bind (h first List.mem_cons_self) fun _ =>
      ih fun s hs => h s (List.mem_cons_of_mem _ hs)

/-- A piece for a part that need not be there. -/
def Emit.part {α : Type} (piece : α → Emit Unit) : Option α → Emit Unit
  | none => pure ()
  | some a => piece a

theorem succeeds_part {α : Type} {piece : α → Emit Unit} {part : Option α}
    (h : ∀ a, part = some a → (piece a).Succeeds) : (Emit.part piece part).Succeeds := by
  cases part with
  | none => exact succeeds_pure _
  | some a => exact h a rfl

/-- What follows the first arm of a branch. -/
def Stmt.elseCode (loop : Option LoopLabels) (otherwise : Label) : Option Stmt → Emit Unit
  | none => Emit.place otherwise
  | some stmt => do
    let done ← Emit.newLabel
    Emit.goto done
    Emit.place otherwise
    stmt.code env loop
    Emit.place done

theorem Stmt.code_branch (loop : Option LoopLabels) (condition : Expr) (onTrue : Stmt)
    (onFalse : Option Stmt) (line : Nat) :
    (branch condition onTrue onFalse line).code env loop = (do
      let otherwise ← Emit.newLabel
      condition.exitCode env otherwise
      onTrue.code env loop
      elseCode env loop otherwise onFalse) := by
  conv => lhs; unfold code
  cases onFalse <;> rfl

theorem Stmt.code_forLoop (loop : Option LoopLabels) (init : Option ForInit)
    (condition : Option Expr) (update : List Expr) (body : Stmt) (line : Nat) :
    (forLoop init condition update body line).code env loop = (do
      Emit.part (ForInit.code env) init
      let top ← Emit.newLabel
      let again ← Emit.newLabel
      let out ← Emit.newLabel
      Emit.place top
      Emit.part (fun e : Expr => e.exitCode env out) condition
      body.code env (some ⟨out, again⟩)
      Emit.place again
      update.forM fun e => e.statementCode env
      Emit.goto top
      Emit.place out) := by
  conv => lhs; unfold code
  cases init <;> cases condition <;> rfl

theorem Stmt.Accepted.succeeds {inLoop : Bool} {s : Stmt} (h : s.Accepted ctx inLoop) :
    ∀ loop : Option LoopLabels, (inLoop = true → loop.isSome) → (s.code env loop).Succeeds := by
  induction h with
  | block _ ih =>
    intro loop hloop
    exact listCode_succeeds env fun s hs => ih s hs loop hloop
  | declare hdecl => exact fun _ _ => hdecl.succeeds env
  | expr he =>
    obtain ⟨-, ty, haccepted⟩ := he
    exact fun _ _ => haccepted.statementCode env
  | @branch inLoop condition onTrue onFalse line hcondition _ _ ihtrue ihfalse =>
    intro loop hloop
    rw [code_branch]
    refine defines_newLabel fun otherwise =>
      defines_bind (hcondition.exitCode env otherwise) fun _ =>
      defines_bind (ihtrue loop hloop) fun _ => ?_
    cases onFalse with
    | none => exact defines_place otherwise
    | some stmt =>
      exact defines_newLabel fun done => defines_bind (succeeds_instr rfl) fun _ =>
        defines_place_bind otherwise
          (defines_bind (ihfalse stmt rfl loop hloop) fun _ => defines_place done)
  | whileLoop hcondition _ ih =>
    intro loop _
    exact defines_newLabel fun top => defines_newLabel fun out => defines_place_bind top
      (defines_bind (hcondition.exitCode env out) fun _ =>
      defines_bind (ih (some ⟨out, top⟩) fun _ => rfl) fun _ =>
      defines_bind (succeeds_instr rfl) fun _ => defines_place out)
  | forLoop hinit hcondition _ hupdate ih =>
    intro loop _
    rw [code_forLoop]
    exact succeeds_bind (succeeds_part fun i hi => (hinit i hi).succeeds env) fun _ =>
      defines_newLabel fun top => defines_newLabel fun again => defines_newLabel fun out =>
      defines_place_bind top
        (defines_bind (succeeds_part fun e he => (hcondition e he).exitCode env out) fun _ =>
        defines_bind (ih (some ⟨out, again⟩) fun _ => rfl) fun _ => defines_place_bind again
          (defines_bind (Expr.statementCodes_succeeds env hupdate) fun _ =>
          defines_bind (succeeds_instr rfl) fun _ => defines_place out))
  | ret hvalue => exact fun _ _ => returnCode_succeeds env hvalue
  | breakOut =>
    intro loop hloop
    exact jumpOut_succeeds (by rw [Option.isSome_map]; exact hloop rfl) _
  | continueOn =>
    intro loop hloop
    exact jumpOut_succeeds (by rw [Option.isSome_map]; exact hloop rfl) _
  | empty => exact fun _ _ => succeeds_pure _

end

/-! ## Methods -/

namespace MethodDecl

theorem bodyCode_eq (env : CodeEnv) (method : MethodDecl) : method.bodyCode env = (do
    Emit.part (fun body : Block => Stmt.listCode env none body.stmts) method.body
    optionally (env.returnTy = .void ∧ !method.mods.isAbstract) (Emit.op .vreturn)) := by
  unfold bodyCode optionally
  obtain ⟨_, _, _, _, _, _, body, _, _, _⟩ := method
  cases body <;> simp only [decide_eq_true_eq, Bool.decide_and, Bool.and_eq_true] <;> rfl

variable {registry last : Registry} {owner : Ty} {method : MethodDecl}
  {signature : MethodSignature} {frame : FrameInfo}

/-- The code of an analyzed method. -/
theorem Analyzed.bodyCode (h : method.Analyzed last owner signature frame) (registry : Registry) :
    (method.bodyCode { registry, returnTy := signature.returnTy }).Succeeds := by
  rw [bodyCode_eq]
  refine succeeds_bind (succeeds_part fun body hbody => Stmt.listCode_succeeds _ fun s hs =>
    (h.body body hbody s hs).succeeds _ none fun h => by cases h) fun _ => ?_
  exact succeeds_optionally _ (succeeds_instr rfl)

/-- An analyzed method is generated. -/
theorem Analyzed.generate (h : method.Analyzed last owner signature frame) (registry : Registry) :
    method.generate registry = .ok
      ({ mods := method.mods
         name := method.name
         descriptor := signature.descriptor
         exceptions := exceptionNames registry signature.exceptions
         code := ((method.bodyCode { registry, returnTy := signature.returnTy }).run 0).code },
        { method with state := .generated }) := by
  obtain ⟨⟨_, hok⟩, -⟩ := h.bodyCode registry 0
  unfold MethodDecl.generate attempt header
  rw [h.isAnalyzed, h.signature_eq]
  simp only [Except.map, bind, Except.bind]
  rw [hok]
  rfl

end MethodDecl

end ClassCompiler
