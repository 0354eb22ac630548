import ClassCompiler.Body.Names
import ClassCompiler.Body.Typing

/-!
# Analysis of expressions

Binds the names of an expression, finds its types, and puts a concatenation or an array length
where the parser could not know one. Operands are analyzed from left to right, before the operator
that joins them; the only trace that an expression leaves in the scope is that an assigned local
has a value.

* `Expr.check`
-/

namespace ClassCompiler

namespace Expr

/-- The node of an expression with the type that was found. -/
def judged (node : Node) (judgement : Judgement) : Node := { node with ty := judgement.ty }

/-- Is it a name bound to a local? -/
def local? : Expr → Option String
  | name _ text (some (.slot _)) => text
  | _ => none

/-- An assignment gives its local a value. -/
def markAssigned (target : Expr) : Check Scope Unit :=
  match target.local? with
  | some text => Check.modify fun scope => scope.markInitialized text
  | none => pure ()

/-- Binds the name that an assignment or `++` writes to. -/
def bindTarget (env : ExprEnv) (line : Nat) (text : String) : Check Scope Expr := do
  let (bound, errors) ← Check.read fun scope => env.bindName scope { line } text
  Check.note bound errors

/-- What an analyzed expression is as the target of an assignment: a place is no statement. -/
def asTarget (given analyzed : Expr) : Expr :=
  if given.isAssignable then analyzed.markStatement false else analyzed

mutual

def check (env : ExprEnv) : Expr → Check Scope Expr
  | literal n value => return literal { n with ty := some value.ty } value
  | name n text _ => do
    let (bound, errors) ← Check.read fun scope => env.readName scope n text
    Check.note bound errors
  | self n => do
    let errors ← Check.read fun scope => ExprEnv.thisErrors scope n.line
    Check.note (self { n with ty := some env.owner }) errors
  | field n target text _ => do
    match ← Check.read fun scope => env.typeQualifier? scope target with
    | some owner =>
      let (bound, errors) := env.staticField owner n text
      Check.note bound errors
    | none =>
      let target ← target.check env
      let (selected, errors) := env.selectField n target text
      Check.note selected errors
  | index n array position => do
    let array ← array.check env
    let position ← position.check env
    let judgement := judgeIndex env.registry array position n.line
    Check.note (index (judged n judgement) array position) judgement.errors
  | length n array => do
    let array ← array.check env
    let judgement := judgeLength env.registry array n.line
    Check.note (length (judged n judgement) array) judgement.errors
  | unary n op operand => do
    let operand ← operand.check env
    let judgement := judgeUnary env.registry op operand n.line
    Check.note (unary (judged n judgement) op operand) judgement.errors
  | not n operand => do
    let operand ← operand.check env
    Check.note (not { n with ty := some .boolean } operand) (expectBoolean env.registry operand)
  | binary n op lhs rhs => do
    let lhs ← lhs.check env
    let rhs ← rhs.check env
    if isConcatenation op lhs rhs then
      let judgement := judgeConcat lhs rhs
      Check.note (concat (judged n judgement) lhs rhs) judgement.errors
    else
      let judgement := judgeBinary env.registry op lhs rhs n.line
      Check.note (binary (judged n judgement) op lhs rhs) judgement.errors
  | compare n op lhs rhs => do
    let lhs ← lhs.check env
    let rhs ← rhs.check env
    let judgement := judgeCompare env.registry lhs rhs
    Check.note (compare (judged n judgement) op lhs rhs) judgement.errors
  | equality n op lhs rhs => do
    let lhs ← lhs.check env
    let rhs ← rhs.check env
    let judgement := judgeEquality env.registry lhs rhs n.line
    Check.note (equality (judged n judgement) op lhs rhs) judgement.errors
  | logical n op lhs rhs => do
    let lhs ← lhs.check env
    let rhs ← rhs.check env
    let judgement := judgeLogical env.registry lhs rhs
    Check.note (logical (judged n judgement) op lhs rhs) judgement.errors
  | concat n lhs rhs => do
    let lhs ← lhs.check env
    let rhs ← rhs.check env
    let judgement := judgeConcat lhs rhs
    Check.note (concat (judged n judgement) lhs rhs) judgement.errors
  | assign n op lhs rhs => do
    let lhs ← match lhs.simpleName? with
      | some text => bindTarget env lhs.line text
      | none => asTarget lhs <$> lhs.check env
    if lhs.isAssignable then
      let rhs ← rhs.check env
      lhs.markAssigned
      let (stored, judgement) := judgeAssign env.registry op lhs rhs n.line
      Check.note (assign (judged n judgement) op lhs stored) judgement.errors
    else
      Check.report (.illegalLvalue n.line)
      let rhs ← rhs.check env
      return assign { n with ty := none } op lhs rhs
  | increment n op operand => do
    let operand ← match operand.simpleName? with
      | some text => bindTarget env operand.line text
      | none => asTarget operand <$> operand.check env
    if operand.isAssignable then
      let judgement := judgeIncrement env.registry op operand n.line
      Check.note (increment (judged n judgement) op operand) judgement.errors
    else
      Check.note (increment { n with ty := none } op operand) [.illegalLvalue n.line]
  | call n target text args _ => do
    let (target, receiver) ← match target with
      | none => do
        let isStatic ← Check.read Scope.isStatic
        pure (none, ⟨env.owner, isStatic⟩)
      | some target => do
        match ← Check.read fun scope => env.typeQualifier? scope target with
        | some owner => pure (none, ⟨owner, true⟩)
        | none =>
          let target ← target.check env
          pure (some target, ⟨target.tyOrAny, false⟩)
    let args ← checkList env args
    let (selected, errors) := env.selectMethod receiver n target text args
    Check.note selected errors

def checkList (env : ExprEnv) : List Expr → Check Scope (List Expr)
  | [] => return []
  | first :: rest => do
    let first ← first.check env
    let rest ← checkList env rest
    return first :: rest

end

end Expr

end ClassCompiler
