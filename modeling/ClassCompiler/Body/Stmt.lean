import ClassCompiler.Body.Expr
import ClassCompiler.Registry.Resolution

/-!
# Analysis of statements

Statements are analyzed in order against the scope, which knows the locals, the loops and whether
every path so far has returned. A local declaration may name an array type that is new to the
registry.

* `LocalDecl.check`: each initializer becomes an assignment to the new local
* `Stmt.check`
-/

namespace ClassCompiler

/-- What statements change: the registry, which learns array types, and the scope. -/
structure BodyState where
  registry : Registry
  scope : Scope
  deriving Inhabited

namespace BodyState

/-- A step on the scope. -/
def onScope {α : Type} (site : Site) (step : ExprEnv → Check Scope α) : Check BodyState α :=
  fun state =>
    let done := (step { site with registry := state.registry }).run state.scope
    { value := done.value, state := { state with scope := done.state }, errors := done.errors }

def changeScope (change : Scope → Scope) : Check BodyState Unit :=
  Check.modify fun state => { state with scope := change state.scope }

def hasReturned : Check BodyState Bool := Check.read fun state => state.scope.hasReturned

def setReturned (returned : Bool) : Check BodyState Unit :=
  changeScope fun scope => scope.setReturned returned

/-- Leaves a loop and says whether some `break` leaves it. -/
def exitLoop : Check BodyState Bool := fun state =>
  let (hasBreak, scope) := state.scope.exitLoop
  { value := hasBreak, state := { state with scope } }

/-- Resolves a type, with `any` for one that cannot be found. -/
def resolve (valueOnly : Bool) (type : TypeName) : Check BodyState Ty := fun state =>
  let (ty, registry, errors) := state.registry.resolveOrAny valueOnly type
  { value := ty, state := { state with registry }, errors }

/-- Declares a local and answers with its slot, if the name is free. -/
def declareLocal (name : String) (ty : Ty) (line : Nat) : Check BodyState (Option Nat) :=
  fun state =>
    match state.scope.declareLocal name ty line with
    | .ok (slot, scope) => { value := some slot, state := { state with scope } }
    | .error error => { value := none, state, errors := [error] }

/-- Declares a parameter, if the name is free. -/
def declareParam (name : String) (ty : Ty) (line : Nat) : Check BodyState (Option Nat) :=
  fun state =>
    match state.scope.declareParam name ty line with
    | .ok (slot, scope) => { value := some slot, state := { state with scope } }
    | .error error => { value := none, state, errors := [error] }

end BodyState

open BodyState

/-! ## Expressions in statements -/

namespace Expr

/-- A condition of a loop or branch. -/
def checkCondition (site : Site) (condition : Expr) : Check BodyState Expr :=
  onScope site fun env => do
    let condition ← condition.check env
    Check.note condition (expectBoolean env.registry condition)

/-- An expression whose value is dropped. -/
def checkStatement (site : Site) (e : Expr) : Check BodyState Expr :=
  onScope site fun env => do
    Check.reportAll
      (if e.isStatementForm then [] else [.invalidOperation "not a statement" e.line])
    (e.markStatement true).check env

def checkStatements (site : Site) : List Expr → Check BodyState (List Expr)
  | [] => return []
  | first :: rest => do
    let first ← first.checkStatement site
    let rest ← checkStatements site rest
    return first :: rest

/-- A condition that can never be false: none at all, or the literal `true`. -/
def alwaysTrue : Option Expr → Bool
  | none => true
  | some (literal _ (.bool true)) => true
  | some _ => false

end Expr

/-! ## Declarations -/

/-- The assignment that gives a new local its first value. -/
def Declarator.assignment (declarator : Declarator) (init : Expr) : Expr :=
  .assign { line := declarator.line, isStatement := true } .plain
    (.name { line := declarator.line } declarator.name none) init

/-- Declares one local. The assignment of its initializer is analyzed when the local is visible. -/
def Declarator.check (site : Site) (ty : Ty) (declarator : Declarator) :
    Check BodyState (Declarator × List Expr) := do
  let slot ← declareLocal declarator.name ty declarator.line
  let slot := slot.or declarator.slot
  match declarator.init with
  | none => return ({ declarator with slot }, [])
  | some init =>
    let assignment ← onScope site fun env => (declarator.assignment init).check env
    return ({ declarator with slot, init := none }, [assignment])

def Declarator.checkList (site : Site) (ty : Ty) :
    List Declarator → Check BodyState (List Declarator × List Expr)
  | [] => return ([], [])
  | first :: rest => do
    let (first, assignment) ← first.check site ty
    let (rest, assignments) ← checkList site ty rest
    return (first :: rest, assignment ++ assignments)

def LocalDecl.check (site : Site) (decl : LocalDecl) : Check BodyState LocalDecl := do
  let ty ← resolve true decl.type
  let (declarators, initializers) ← Declarator.checkList site ty decl.declarators
  return { decl with declarators, initializers }

def ForInit.check (site : Site) : ForInit → Check BodyState ForInit
  | exprs es => exprs <$> Expr.checkStatements site es
  | decl d => decl <$> d.check site

/-! ## Statements -/

/-- The scope and the errors of a `break`. -/
def checkBreak (line : Nat) : Check BodyState Unit := fun state =>
  match state.scope.noteBreak? with
  | some scope => { value := (), state := { state with scope } }
  | none => { value := (), state, errors := [.breakOutsideLoop line] }

def checkContinue (line : Nat) : Check BodyState Unit := do
  let inLoop ← Check.read fun state => state.scope.inLoop
  Check.reportAll (if inLoop then [] else [.continueOutsideLoop line])

def checkReturn (site : Site) (value : Option Expr) (line : Nat) :
    Check BodyState (Option Expr) := do
  let value ← onScope site fun env => do
    let value ← match value with
      | none => pure none
      | some value => some <$> value.check env
    let returnTy ← Check.read Scope.returnTy
    Check.note value (returnErrors env.registry returnTy value line)
  setReturned true
  return value

namespace Stmt

mutual

/-- A body may run zero times, so a loop returns only if it cannot end; a branch returns if both of
its ways do. -/
def check (site : Site) : Stmt → Check BodyState Stmt
  | block stmts line => do
    changeScope Scope.pushFrame
    let stmts ← checkList site stmts
    changeScope Scope.popFrame
    return block stmts line
  | declare decl => declare <$> decl.check site
  | expr e line => do
    let e ← e.checkStatement site
    return expr e line
  | branch condition onTrue onFalse line => do
    let condition ← condition.checkCondition site
    let before ← hasReturned
    let onTrue ← onTrue.check site
    let trueReturns ← hasReturned
    setReturned before
    let onFalse ← match onFalse with
      | none => pure none
      | some stmt => some <$> stmt.check site
    let falseReturns ← hasReturned
    setReturned (before || (trueReturns && onFalse.isSome && falseReturns))
    return branch condition onTrue onFalse line
  | whileLoop condition body line => do
    let condition ← condition.checkCondition site
    let before ← hasReturned
    changeScope Scope.enterLoop
    let body ← body.check site
    let hasBreak ← exitLoop
    setReturned (before || (Expr.alwaysTrue (some condition) && !hasBreak))
    return whileLoop condition body line
  | forLoop init condition update body line => do
    changeScope Scope.pushFrame
    let init ← match init with
      | none => pure none
      | some init => some <$> init.check site
    let condition ← match condition with
      | none => pure none
      | some condition => some <$> condition.checkCondition site
    let before ← hasReturned
    changeScope Scope.enterLoop
    let body ← body.check site
    let hasBreak ← exitLoop
    let update ← Expr.checkStatements site update
    changeScope Scope.popFrame
    setReturned (before || (Expr.alwaysTrue condition && !hasBreak))
    return forLoop init condition update body line
  | ret value line => do
    let value ← checkReturn site value line
    return ret value line
  | .break line => do
    checkBreak line
    return .break line
  | .continue line => do
    checkContinue line
    return .continue line
  | empty line => return empty line

def checkList (site : Site) : List Stmt → Check BodyState (List Stmt)
  | [] => return []
  | first :: rest => do
    let first ← first.check site
    let rest ← checkList site rest
    return first :: rest

end

end Stmt

end ClassCompiler
