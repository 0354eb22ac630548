import ClassCompiler.Proofs.ClassTable
import ClassCompiler.Proofs.Rules
import ClassCompiler.Tree.Decl

/-!
# Accepted trees

What code generation may rely on of a tree that analysis went through without an error, as typing
rules: one rule per form of the tree, with the types that its operands may have and what it must be
bound to. The rules speak of types and bindings alone; which name or class gave them does not matter
any more.

* `Expr.Accepted`: an expression and its type
* `Stmt.Accepted`: a statement, inside or outside of a loop
* `Expr.Accepted.provenTy`: the type is there and is not the recovery type
-/

namespace ClassCompiler

/-- A slot with the type of the variable that owns it. -/
structure Local where
  slot : Nat
  ty : Ty
  deriving DecidableEq, Inhabited

/-- What the rules depend on beside the tree. -/
structure BodyCtx where
  isStatic : Bool
  returnTy : Ty
  locals : List Local
  deriving Inhabited

/-! ## Expressions -/

/-- The operand types of an assignment. The right side of `+=` on a `String` is the concatenation
already. -/
def AssignOp.Fits (op : AssignOp) (left right : Ty) : Prop :=
  match op with
  | .plain => left.Stores right
  | .compound op =>
    (op = .add ∧ left = .string ∧ right = .string)
      ∨ (left ∈ compoundOperands op ∧ right ∈ compoundOperands op)

inductive Expr.Accepted (ctx : BodyCtx) : Expr → Ty → Prop
  | literal {n : Node} {value : Literal} (hty : n.ty = some value.ty) :
    Accepted ctx (.literal n value) value.ty
  | slot {n : Node} {text : String} {index : Nat} {ty : Ty} (hty : n.ty = some ty)
    (hlocal : ⟨index, ty⟩ ∈ ctx.locals) (hvalue : ty.IsValue) :
    Accepted ctx (.name n text (some (.slot index))) ty
  | ownField {n : Node} {text : String} {ref : FieldRef} (hty : n.ty = some ref.ty)
    (hvalue : ref.ty.IsValue) (hthis : ref.isStatic = true ∨ ctx.isStatic = false) :
    Accepted ctx (.name n text (some (.field ref))) ref.ty
  | self {n : Node} {ty : Ty} (hty : n.ty = some ty) (href : ty.isReference = true)
    (hthis : ctx.isStatic = false) : Accepted ctx (.self n) ty
  | field {n : Node} {target : Expr} {text : String} {ref : FieldRef} {owner : Ty}
    (hty : n.ty = some ref.ty) (hvalue : ref.ty.IsValue) (hinstance : ref.isStatic = false)
    (htarget : Accepted ctx target owner) (href : owner.isReference = true) :
    Accepted ctx (.field n target text (some ref)) ref.ty
  | index {n : Node} {array position : Expr} {arrayTy indexTy ty : Ty} (hty : n.ty = some ty)
    (hvalue : ty.IsValue) (harray : Accepted ctx array arrayTy)
    (href : arrayTy.isReference = true) (hposition : Accepted ctx position indexTy)
    (hindex : indexTy ∈ indexTypes) : Accepted ctx (.index n array position) ty
  | length {n : Node} {array : Expr} {arrayTy : Ty} (hty : n.ty = some .int)
    (harray : Accepted ctx array arrayTy) (href : arrayTy.isReference = true) :
    Accepted ctx (.length n array) .int
  | unary {n : Node} {op : UnaryOp} {operand : Expr} {operandTy ty : Ty} (hty : n.ty = some ty)
    (hoperand : Accepted ctx operand operandTy) (hpromoted : unaryPromotion? operandTy = some ty)
    (hintegral : op = .bitNot → operandTy.isIntegral = true) :
    Accepted ctx (.unary n op operand) ty
  | not {n : Node} {operand : Expr} (hty : n.ty = some .boolean)
    (hoperand : Accepted ctx operand .boolean) : Accepted ctx (.not n operand) .boolean
  | binary {n : Node} {op : BinaryOp} {lhs rhs : Expr} {left right : Ty} {rule : BinaryRule}
    (hty : n.ty = some rule.result) (hlhs : Accepted ctx lhs left) (hrhs : Accepted ctx rhs right)
    (hrule : resolveBinary? op left right = some rule) :
    Accepted ctx (.binary n op lhs rhs) rule.result
  | compare {n : Node} {op : CompareOp} {lhs rhs : Expr} {operand : Ty}
    (hty : n.ty = some .boolean) (hlhs : Accepted ctx lhs operand)
    (hrhs : Accepted ctx rhs operand) (hoperand : operand ∈ comparableTypes) :
    Accepted ctx (.compare n op lhs rhs) .boolean
  | equality {n : Node} {op : EqualityOp} {lhs rhs : Expr} {left right : Ty}
    {kind : EqualityKind} (hty : n.ty = some .boolean) (hlhs : Accepted ctx lhs left)
    (hrhs : Accepted ctx rhs right) (hkind : equalityKind? left right = some kind) :
    Accepted ctx (.equality n op lhs rhs) .boolean
  | logical {n : Node} {op : LogicalOp} {lhs rhs : Expr} (hty : n.ty = some .boolean)
    (hlhs : Accepted ctx lhs .boolean) (hrhs : Accepted ctx rhs .boolean) :
    Accepted ctx (.logical n op lhs rhs) .boolean
  | concat {n : Node} {lhs rhs : Expr} {left right : Ty} (hty : n.ty = some .string)
    (hlhs : Accepted ctx lhs left) (hleft : left ≠ .void) (hrhs : Accepted ctx rhs right)
    (hright : right ≠ .void) : Accepted ctx (.concat n lhs rhs) .string
  | assign {n : Node} {op : AssignOp} {lhs rhs : Expr} {left right : Ty} (hty : n.ty = some left)
    (hplace : lhs.isAssignable = true) (hlhs : Accepted ctx lhs left)
    (hrhs : Accepted ctx rhs right) (hfits : op.Fits left right) :
    Accepted ctx (.assign n op lhs rhs) left
  | increment {n : Node} {op : IncrementOp} {operand : Expr} {ty : Ty} (hty : n.ty = some ty)
    (hplace : operand.isAssignable = true) (hoperand : Accepted ctx operand ty)
    (hnumeric : ty.isNumeric = true) : Accepted ctx (.increment n op operand) ty
  | call {n : Node} {target : Option Expr} {text : String} {args : List Expr}
    {method : MethodRef} {params : List Ty} (hty : n.ty = some method.returnTy)
    (htarget : ∀ e, target = some e → Accepted ctx e e.tyOrAny)
    (href : ∀ e, target = some e → e.tyOrAny.isReference = true)
    (hthis : target = none → method.isStatic = true ∨ ctx.isStatic = false)
    (hargs : ∀ a ∈ args, Accepted ctx a a.tyOrAny)
    (htakes : method.Takes params (args.map Expr.tyOrAny)) :
    Accepted ctx (.call n target text args (some method)) method.returnTy

namespace Expr.Accepted

variable {ctx : BodyCtx} {e : Expr} {ty : Ty}

theorem ty_eq (h : e.Accepted ctx ty) : e.ty = some ty := by
  cases h <;> assumption

theorem tyOrAny_eq (h : e.Accepted ctx ty) : e.tyOrAny = ty := by
  unfold tyOrAny
  rw [h.ty_eq]
  rfl

/-- The place of an assignment holds values. -/
theorem isValue_of_isAssignable (h : e.Accepted ctx ty) (hplace : e.isAssignable = true) :
    ty.IsValue := by
  cases h <;> first | assumption | cases hplace

theorem ne_any (h : e.Accepted ctx ty) : ty ≠ .any := by
  cases h with
  | literal => exact (Literal.ty_isValue _).1
  | slot _ _ hvalue | ownField _ hvalue | field _ hvalue | index _ hvalue => exact hvalue.1
  | self _ href => exact Ty.ne_any_of_isReference href
  | length => exact Ty.prim_ne_any .int
  | unary _ _ hpromoted => exact unaryPromotion?_ne_any hpromoted
  | not | compare | equality | logical => exact Ty.prim_ne_any .boolean
  | binary _ _ _ hrule => exact resolveBinary?_ne_any hrule
  | concat => exact Ty.string_ne_any
  | assign _ hplace hlhs => exact (hlhs.isValue_of_isAssignable hplace).1
  | increment _ hplace hoperand => exact (hoperand.isValue_of_isAssignable hplace).1
  | call _ _ _ _ _ htakes => exact htakes.returnTy

/-- The mark of a statement does not matter for the rules. -/
theorem markStatement (h : e.Accepted ctx ty) (isStatement : Bool) :
    (e.markStatement isStatement).Accepted ctx ty := by
  cases h with
  | literal hty => exact .literal hty
  | slot hty hlocal hvalue => exact .slot hty hlocal hvalue
  | ownField hty hvalue hthis => exact .ownField hty hvalue hthis
  | self hty href hthis => exact .self hty href hthis
  | field hty hvalue hinstance htarget href => exact .field hty hvalue hinstance htarget href
  | index hty hvalue harray href hposition hindex =>
    exact .index hty hvalue harray href hposition hindex
  | length hty harray href => exact .length hty harray href
  | unary hty hoperand hpromoted hintegral => exact .unary hty hoperand hpromoted hintegral
  | not hty hoperand => exact .not hty hoperand
  | binary hty hlhs hrhs hrule => exact .binary hty hlhs hrhs hrule
  | compare hty hlhs hrhs hoperand => exact .compare hty hlhs hrhs hoperand
  | equality hty hlhs hrhs hkind => exact .equality hty hlhs hrhs hkind
  | logical hty hlhs hrhs => exact .logical hty hlhs hrhs
  | concat hty hlhs hleft hrhs hright => exact .concat hty hlhs hleft hrhs hright
  | assign hty hplace hlhs hrhs hfits => exact .assign hty hplace hlhs hrhs hfits
  | increment hty hplace hoperand hnumeric => exact .increment hty hplace hoperand hnumeric
  | call hty htarget href hthis hargs htakes => exact .call hty htarget href hthis hargs htakes

end Expr.Accepted

/-! ## Statements -/

section

variable (ctx : BodyCtx)

/-- An expression that may stand as a statement. -/
def Expr.AcceptedStatement (e : Expr) : Prop :=
  e.isStatementForm = true ∧ ∃ ty, e.Accepted ctx ty

/-- The declarations themselves have no code. -/
structure LocalDecl.Accepted (decl : LocalDecl) : Prop where
  moved : ∀ declarator ∈ decl.declarators, declarator.init = none
  initializers : ∀ e ∈ decl.initializers, e.AcceptedStatement ctx

def ForInit.Accepted : ForInit → Prop
  | exprs es => ∀ e ∈ es, e.AcceptedStatement ctx
  | decl d => d.Accepted ctx

/-- A `return` gives what the method owes. -/
def ReturnAccepted (value : Option Expr) : Prop :=
  match value with
  | none => ctx.returnTy = .void
  | some e => ctx.returnTy ≠ .void ∧ ∃ ty, e.Accepted ctx ty ∧ ctx.returnTy.Stores ty

end

/-- The rules of statements; the second argument says whether there is a loop around. -/
inductive Stmt.Accepted (ctx : BodyCtx) : Bool → Stmt → Prop
  | block {inLoop : Bool} {stmts : List Stmt} {line : Nat}
    (hstmts : ∀ s ∈ stmts, Accepted ctx inLoop s) : Accepted ctx inLoop (.block stmts line)
  | declare {inLoop : Bool} {decl : LocalDecl} (hdecl : decl.Accepted ctx) :
    Accepted ctx inLoop (.declare decl)
  | expr {inLoop : Bool} {e : Expr} {line : Nat} (he : e.AcceptedStatement ctx) :
    Accepted ctx inLoop (.expr e line)
  | branch {inLoop : Bool} {condition : Expr} {onTrue : Stmt} {onFalse : Option Stmt}
    {line : Nat} (hcondition : condition.Accepted ctx .boolean)
    (htrue : Accepted ctx inLoop onTrue)
    (hfalse : ∀ s, onFalse = some s → Accepted ctx inLoop s) :
    Accepted ctx inLoop (.branch condition onTrue onFalse line)
  | whileLoop {inLoop : Bool} {condition : Expr} {body : Stmt} {line : Nat}
    (hcondition : condition.Accepted ctx .boolean) (hbody : Accepted ctx true body) :
    Accepted ctx inLoop (.whileLoop condition body line)
  | forLoop {inLoop : Bool} {init : Option ForInit} {condition : Option Expr}
    {update : List Expr} {body : Stmt} {line : Nat}
    (hinit : ∀ i, init = some i → i.Accepted ctx)
    (hcondition : ∀ e, condition = some e → e.Accepted ctx .boolean)
    (hbody : Accepted ctx true body) (hupdate : ∀ e ∈ update, e.AcceptedStatement ctx) :
    Accepted ctx inLoop (.forLoop init condition update body line)
  | ret {inLoop : Bool} {value : Option Expr} {line : Nat} (hvalue : ReturnAccepted ctx value) :
    Accepted ctx inLoop (.ret value line)
  | breakOut {line : Nat} : Accepted ctx true (.break line)
  | continueOn {line : Nat} : Accepted ctx true (.continue line)
  | empty {inLoop : Bool} {line : Nat} : Accepted ctx inLoop (.empty line)

end ClassCompiler
