import ClassCompiler.Code.Stmt

/-!
# Code of methods

An analyzed method becomes a method of a class image. A method of any other state, or one without a
signature, is refused before anything is emitted.

* `MethodDecl.attempt`: the image as far as it could be made
* `MethodDecl.generate`: the image and the method afterwards, or an error
-/

namespace ClassCompiler

/-- The names in a `throws` clause; what could not be resolved is left out. -/
def exceptionNames (registry : Registry) (exceptions : List Ty) : List String :=
  (exceptions.filter fun ty => ty != .any).map registry.internalName

/-- Calls the constructor of the superclass and returns. -/
def implicitConstructor (superName : String) : MethodImage where
  mods := .accPublic
  name := "<init>"
  descriptor := "()V"
  exceptions := []
  code := [.noArg .aload0, .member .invokespecial superName "<init>" "()V", .noArg .vreturn]

namespace MethodDecl

/-- The image of an analyzed method, its code left out, with its declared result. -/
def header (registry : Registry) (method : MethodDecl) : Except CompileError (MethodImage × Ty) :=
  match method.state with
  | .analyzed =>
    match method.signature with
    | some signature =>
      .ok ({ mods := method.mods
             name := method.name
             descriptor := signature.descriptor
             exceptions := exceptionNames registry signature.exceptions }, signature.returnTy)
    | none => .error (.internal ("method '" ++ method.name ++ "' has no signature"))
  | state =>
    .error (.internal ("method '" ++ method.name ++ "' generated in state " ++ state.name))

/-- The code of a method. A method without a result returns at its end, too. -/
def bodyCode (env : CodeEnv) (method : MethodDecl) : Emit Unit := do
  match method.body with
  | some body => Stmt.listCode env none body.stmts
  | none => pure ()
  if env.returnTy = .void ∧ !method.mods.isAbstract then Emit.op .vreturn else pure ()

/-- The image of a method with its code as far as it could be generated, and what stopped it. A
method that is refused has no image. -/
def attempt (registry : Registry) (method : MethodDecl) :
    Except CompileError (MethodImage × Except CompileError Unit) :=
  (method.header registry).map fun (image, returnTy) =>
    let body := (method.bodyCode { registry, returnTy }).run 0
    ({ image with code := body.code }, body.result)

/-- The image of a method and the method in its new state. -/
def generate (registry : Registry) (method : MethodDecl) :
    Except CompileError (MethodImage × MethodDecl) := do
  let (image, result) ← method.attempt registry
  result
  return (image, { method with state := .generated })

end MethodDecl

end ClassCompiler
