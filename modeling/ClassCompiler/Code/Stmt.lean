import ClassCompiler.Code.Expr
import ClassCompiler.Tree.Decl

/-!
# Code of statements

Control flow on labels. A condition jumps out when it fails; a loop tests at its top and jumps back
from its end. What `break` and `continue` jump to is handed down from the innermost loop.

* `Stmt.code`
-/

namespace ClassCompiler

/-- What the code of a statement depends on beside the statement. -/
structure CodeEnv where
  registry : Registry
  /-- The declared result of the method. -/
  returnTy : Ty
  deriving Inhabited

namespace Expr

def valueCode (env : CodeEnv) (e : Expr) : Emit Unit := (e.code env.registry).value

/-- Jumps to the label when the condition fails. -/
def exitCode (env : CodeEnv) (condition : Expr) (target : Label) : Emit Unit :=
  (condition.code env.registry).branch target false

/-- An expression as a statement; the result of a call is dropped. -/
def statementCode (env : CodeEnv) (e : Expr) : Emit Unit := do
  e.valueCode env
  match e with
  | call .. =>
    let ty ← Emit.provenTy e
    (Instr.pop? ty).toList.forM Emit.instr
  | _ => pure ()

end Expr

/-- The initializers are assignments, which leave no value. -/
def LocalDecl.code (env : CodeEnv) (decl : LocalDecl) : Emit Unit :=
  decl.initializers.forM fun init => init.valueCode env

def ForInit.code (env : CodeEnv) : ForInit → Emit Unit
  | exprs es => es.forM fun e => e.statementCode env
  | decl d => d.code env

/-- A `break` or `continue` jumps to a label of the loop around it. -/
def jumpOut (target : Option Label) (line : Nat) : Emit Unit :=
  match target with
  | some target => Emit.goto target
  | none => Emit.fail (.internal (notInLoop ++ " at line " ++ toString line))

def returnCode (env : CodeEnv) (value : Option Expr) : Emit Unit :=
  match value with
  | some value => do
    value.valueCode env
    Emit.instr (.ret env.returnTy)
  | none => Emit.instr (.ret .void)

namespace Stmt

mutual

def code (env : CodeEnv) (loop : Option LoopLabels) : Stmt → Emit Unit
  | block stmts _ => listCode env loop stmts
  | declare decl => decl.code env
  | expr e _ => e.statementCode env
  | branch condition onTrue onFalse _ => do
    let otherwise ← Emit.newLabel
    condition.exitCode env otherwise
    onTrue.code env loop
    match onFalse with
    | none => Emit.place otherwise
    | some stmt => do
      let done ← Emit.newLabel
      Emit.goto done
      Emit.place otherwise
      stmt.code env loop
      Emit.place done
  | whileLoop condition body _ => do
    let top ← Emit.newLabel
    let out ← Emit.newLabel
    Emit.place top
    condition.exitCode env out
    body.code env (some ⟨out, top⟩)
    Emit.goto top
    Emit.place out
  | forLoop init condition update body _ => do
    match init with
    | none => pure ()
    | some init => init.code env
    let top ← Emit.newLabel
    let again ← Emit.newLabel
    let out ← Emit.newLabel
    Emit.place top
    match condition with
    | none => pure ()
    | some condition => condition.exitCode env out
    body.code env (some ⟨out, again⟩)
    Emit.place again
    update.forM fun e => e.statementCode env
    Emit.goto top
    Emit.place out
  | ret value _ => returnCode env value
  | .break line => jumpOut (loop.map LoopLabels.onBreak) line
  | .continue line => jumpOut (loop.map LoopLabels.onContinue) line
  | empty _ => pure ()

def listCode (env : CodeEnv) (loop : Option LoopLabels) : List Stmt → Emit Unit
  | [] => pure ()
  | first :: rest => do
    first.code env loop
    listCode env loop rest

end

end Stmt

end ClassCompiler
