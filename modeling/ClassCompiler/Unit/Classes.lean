import ClassCompiler.Unit.Stubs

/-!
# Classes of a unit

The final classes. A unit gives all of its classes or none; an error here means that the compiler
is at fault, or that a pass was left out. Methods that were done before an error are in their new
state.

* `ClassDecl.generate`, `CompilationUnit.generate`
-/

namespace ClassCompiler

/-- A class without its declared methods. -/
def ClassInfo.outline (options : Options) (registry : Registry) (info : ClassInfo) : ClassImage :=
  let superName := registry.internalName info.superclass
  let image : ClassImage :=
    { mods := info.mods
      name := info.internalName
      superName
      interfaces := info.interfaces.map registry.internalName
      fields := info.fields.map fun field =>
        ⟨field.mods, field.name, registry.descriptor field.ty⟩ }
  if hasImplicitConstructor options info then image.addMethod (implicitConstructor superName)
  else image

/-- Adds the methods among the members to a class. -/
def generateMembers (registry : Registry) :
    List Member → ClassImage → List Member × Except CompileError ClassImage
  | [], image => ([], .ok image)
  | .field field :: rest, image =>
    let (rest, result) := generateMembers registry rest image
    (.field field :: rest, result)
  | .method method :: rest, image =>
    match method.generate registry with
    | .error error => (.method method :: rest, .error error)
    | .ok (methodImage, method) =>
      let (rest, result) := generateMembers registry rest (image.addMethod methodImage)
      (.method method :: rest, result)

/-- The final class of a declaration that was stubbed and analyzed. -/
def ClassDecl.generate (options : Options) (registry : Registry) (classes : ClassTable)
    (decl : ClassDecl) : ClassDecl × Except CompileError ClassImage :=
  match decl.ty.bind classes.class? with
  | none => (decl, .error (.internal ("class '" ++ decl.name ++ "' was never registered")))
  | some info =>
    let (members, result) :=
      generateMembers registry decl.members (info.outline options registry)
    ({ decl with members }, result)

def generateClasses (options : Options) (registry : Registry) (classes : ClassTable) :
    List ClassDecl → List ClassDecl × Except CompileError (List ClassImage)
  | [] => ([], .ok [])
  | first :: rest =>
    match first.generate options registry classes with
    | (first, .error error) => (first :: rest, .error error)
    | (first, .ok image) =>
      let (rest, result) := generateClasses options registry classes rest
      (first :: rest, result.map fun images => image :: images)

/-- The unit afterwards, and its final classes or the error that stopped it. -/
def CompilationUnit.generate (options : Options) (registry : Registry) (classes : ClassTable)
    (unit : CompilationUnit) : CompilationUnit × Except CompileError (List ClassImage) :=
  let (types, result) := generateClasses options registry classes unit.types
  ({ unit with types }, result)

/-- Sends classes to a recorder. -/
def Recorder.replayAll (recorder : Recorder) (images : List ClassImage) : Recorder :=
  images.foldl (fun recorder image => image.replay recorder) recorder

end ClassCompiler
