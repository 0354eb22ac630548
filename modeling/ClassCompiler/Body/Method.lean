import ClassCompiler.Body.Stmt

/-!
# Analysis of methods

A method with a signature gets its body analyzed in a scope of its own, with the parameters in the
first slots after the receiver.

* `MethodDecl.check`
-/

namespace ClassCompiler

open BodyState

/-- Declares the parameters in order. -/
def declareParams : List (FormalParam × Ty) → Check BodyState Unit
  | [] => return
  | (param, ty) :: rest => do
    let _ ← declareParam param.name ty param.line
    declareParams rest

/-- A body that can end without the result that it owes. -/
def missingReturnErrors (name : String) (line : Nat) (scope : Scope) : List CompileError :=
  if scope.returnTy = .void ∨ scope.returnTy = .any ∨ scope.hasReturned then []
  else [.missingReturn name line]

/-- The statements of a body stand in the frame of the parameters. -/
def Block.check (site : Site) (name : String) (line : Nat) (body : Block) :
    Check BodyState Block := do
  let stmts ← Stmt.checkList site body.stmts
  let errors ← Check.read fun state => missingReturnErrors name line state.scope
  Check.note { body with stmts } errors

namespace MethodDecl

/-- Analyzes a method whose signature is known. -/
def checkBody (site : Site) (signature : MethodSignature) (method : MethodDecl) :
    Check BodyState MethodDecl := do
  declareParams (method.params.zip signature.params)
  let body ← match method.body with
    | none => pure none
    | some body => some <$> body.check site method.name method.line
  let frame ← Check.read fun state =>
    FrameInfo.mk state.scope.frameSize state.scope.hasReturned
  return { method with body, frame := some frame, state := .analyzed }

/-- Analyzes a method in a fresh scope. -/
def check (site : Site) (method : MethodDecl) : Check Registry MethodDecl := fun registry =>
  match method.signature with
  | none =>
    { value := method
      state := registry
      errors :=
        [.internal ("method '" ++ method.name ++ "' analyzed before its signature was resolved")] }
  | some signature =>
    let scope := Scope.start signature.returnTy signature.exceptions method.mods.isStatic
    let done := (method.checkBody site signature).run { registry, scope }
    { value := done.value, state := done.state.registry, errors := done.errors }

end MethodDecl

end ClassCompiler
