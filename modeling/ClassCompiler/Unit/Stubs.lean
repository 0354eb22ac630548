import ClassCompiler.Check
import ClassCompiler.ClassTable
import ClassCompiler.Code.Method
import ClassCompiler.Options
import ClassCompiler.Registry.Resolution

/-!
# Stubs

The shape of every class of a unit before any body is looked at. All names are declared first, so
that supertypes, fields and signatures may refer to classes that come later. The stub of a class has
its real members, and bodies that only return.

* `ClassDecl.declare`, `ClassDecl.stub`
* `CompilationUnit.stub`: the stubs of a unit and the table of its classes
-/

namespace ClassCompiler

/-! ## Resolving -/

/-- Resolves a type, with `any` for one that cannot be found. -/
def resolveName (valueOnly : Bool) (type : TypeName) : Check Registry Ty := fun registry =>
  let (ty, registry, errors) := registry.resolveOrAny valueOnly type
  { value := ty, state := registry, errors }

/-- Resolves a supertype, which must be a class or an interface as the clause demands. -/
def resolveSupertype (interfaceWanted : Bool) (type : TypeName) : Check Registry (Option Ty) :=
  fun registry =>
    match registry.resolve type with
    | .error error => { value := none, state := registry, errors := [error] }
    | .ok (ty, registry) =>
      let wanted := if interfaceWanted then TypeKind.interface else .plainClass
      if registry.kind? ty = some wanted then { value := some ty, state := registry }
      else
        let expected := if interfaceWanted then "interface" else "class"
        { value := none
          state := registry
          errors := [.typeMismatch
            (registry.displayName ty ++ " found where " ++ expected ++ " expected") type.line] }

/-- The types that the clause names; what does not resolve is left out. -/
def resolveInterfaces : List TypeName → Check Registry (List Ty)
  | [] => return []
  | first :: rest => do
    let first ← resolveSupertype true first
    let rest ← resolveInterfaces rest
    return first.toList ++ rest

/-! ## Classes under construction -/

/-- A class under construction: what bodies will see of it, and its stub. -/
structure ClassStub where
  info : ClassInfo
  image : ClassImage
  deriving Inhabited

structure StubState where
  registry : Registry
  stub : ClassStub
  deriving Inhabited

namespace StubState

def onRegistry {α : Type} (step : Check Registry α) : Check StubState α := fun state =>
  let done := step.run state.registry
  { value := done.value, state := { state with registry := done.state }, errors := done.errors }

def info : Check StubState ClassInfo := Check.read fun state => state.stub.info

/-- Adds a field to the class and to the stub, unless the class has one of that name. -/
def addField (field : FieldEntry) (descriptor : String) : Check StubState Unit := fun state =>
  match state.stub.info.addField field with
  | .error error => { value := (), state, errors := [error] }
  | .ok info =>
    let image := state.stub.image.addField ⟨field.mods, field.name, descriptor⟩
    { value := (), state := { state with stub := { info, image } } }

/-- Adds a method to the class, unless it is a duplicate, and to the stub in any case. -/
def addMethod (method : MethodEntry) (image : MethodImage) : Check StubState Unit := fun state =>
  let (info, errors) := match state.stub.info.addMethod method with
    | .ok info => (info, [])
    | .error error => (state.stub.info, [error])
  { value := ()
    state := { state with stub := { info, image := state.stub.image.addMethod image } }
    errors }

end StubState

open StubState

/-! ## Fields -/

/-- Registers the names of one field declaration. Fields of interfaces are public constants. -/
def FieldDecl.stub (field : FieldDecl) : Check StubState FieldDecl := do
  let ty ← onRegistry (resolveName true field.type)
  let info ← info
  let mods :=
    if info.isInterface then
      field.mods ∪ Modifiers.accPublic ∪ Modifiers.accStatic ∪ Modifiers.accFinal
    else field.mods
  let descriptor ← Check.read fun state => state.registry.descriptor ty
  field.names.forM fun name => addField { name, ty, mods, line := field.line } descriptor
  return { field with mods, resolved := some ty }

/-! ## Methods -/

/-- The first rule that modifiers and body break together. -/
def modifierError? (mods : Modifiers) (hasBody inInterface : Bool) : Option String :=
  if mods.isAbstract && hasBody then some "abstract method cannot have a body"
  else if !hasBody && !mods.isAbstract && !inInterface then
    some "method with no body must be abstract"
  else if mods.isAbstract && mods.isPrivate then some "private method cannot be declared abstract"
  else if mods.isAbstract && mods.isStatic then some "static method cannot be declared abstract"
  else if mods.isStatic && !hasBody then some "static method must have a body"
  else none

/-- A body that returns the zero of its type; an abstract method has none. -/
def stubCode (mods : Modifiers) (returnTy : Ty) : List Instr :=
  if mods.isAbstract then []
  else (if returnTy = .void then [] else [.pushZero returnTy]) ++ [.ret returnTy]

/-- A declared exception must be a subtype of `Throwable`. -/
def resolveExceptions (line : Nat) : List TypeName → Check Registry (List Ty)
  | [] => return []
  | first :: rest => do
    let first ← resolveName false first
    let errors ← Check.read fun registry =>
      if first = .any ∨ registry.isAssignableFrom .throwable first then []
      else [.invalidThrowsType (registry.displayName first) line]
    Check.reportAll errors
    let rest ← resolveExceptions line rest
    return first :: rest

def resolveParams : List FormalParam → Check Registry (List Ty)
  | [] => return []
  | first :: rest => do
    let first ← resolveName true first.type
    let rest ← resolveParams rest
    return first :: rest

namespace MethodDecl

def resolveSignature (method : MethodDecl) : Check Registry MethodSignature := do
  let exceptions ← resolveExceptions method.line method.exceptions
  let params ← resolveParams method.params
  let returnTy ← resolveName false method.returnType
  let descriptor ← Check.read fun registry => registry.methodDescriptor params returnTy
  return { params, returnTy, exceptions, descriptor }

/-- Interface methods are public and abstract. -/
def stubModifiers (inInterface : Bool) (method : MethodDecl) : Modifiers × List CompileError :=
  if inInterface then
    (method.mods ∪ Modifiers.accPublic ∪ Modifiers.accAbstract,
      if method.mods.meets (Modifiers.accStatic ∪ Modifiers.accFinal) then
        [.invalidModifiers "interface methods cannot be declared static or final" method.line]
      else [])
  else (method.mods, [])

/-- Fixes the signature of a method, and adds the method to its class. -/
def stub (method : MethodDecl) : Check StubState MethodDecl := do
  let info ← info
  let (mods, modsErrors) := method.stubModifiers info.isInterface
  Check.reportAll modsErrors
  let signature ← onRegistry method.resolveSignature
  let broken := modifierError? mods method.body.isSome info.isInterface
  Check.reportAll (broken.toList.map fun message => .invalidModifiers message method.line)
  let exceptions ← Check.read fun state => exceptionNames state.registry signature.exceptions
  addMethod
    { name := method.name
      params := signature.params
      returnTy := signature.returnTy
      exceptions := signature.exceptions
      mods
      descriptor := signature.descriptor
      line := method.line }
    { mods
      name := method.name
      descriptor := signature.descriptor
      exceptions
      code := stubCode mods signature.returnTy }
  return { method with mods, signature := some signature, state := .stubbed }

end MethodDecl

/-! ## Members -/

/-- Stubs the fields among the members. -/
def stubFields : List Member → Check StubState (List Member)
  | [] => return []
  | .field field :: rest => do
    let field ← field.stub
    let rest ← stubFields rest
    return .field field :: rest
  | .method method :: rest => do
    let rest ← stubFields rest
    return .method method :: rest

/-- Stubs the methods among the members. -/
def stubMethods : List Member → Check StubState (List Member)
  | [] => return []
  | .field field :: rest => do
    let rest ← stubMethods rest
    return .field field :: rest
  | .method method :: rest => do
    let method ← method.stub
    let rest ← stubMethods rest
    return .method method :: rest

/-- Has a class an implicit constructor? -/
def hasImplicitConstructor (options : Options) (info : ClassInfo) : Bool :=
  options.implicitConstructor && !info.isInterface

/-- Fields come before the constructor, and methods after it. -/
def stubMembers (options : Options) (members : List Member) : Check StubState (List Member) := do
  let members ← stubFields members
  Check.modify fun state =>
    let image := state.stub.image
    if hasImplicitConstructor options state.stub.info then
      { state with
        stub := { state.stub with image := image.addMethod (implicitConstructor image.superName) } }
    else state
  stubMethods members

/-! ## Classes -/

namespace ClassDecl

/-- The internal name of a class in a package. -/
def internalName (package : Option String) (decl : ClassDecl) : String :=
  match package with
  | some package => Registry.internalForm package ++ "/" ++ decl.name
  | none => decl.name

/-- Makes a class known by its simple name, with `Object` as its superclass for now. -/
def declare (package : Option String) (decl : ClassDecl) : Check Registry ClassDecl :=
  fun registry =>
    let internalName := decl.internalName package
    let ty := Ty.named internalName
    let kind := if decl.isInterface then TypeKind.interface else .plainClass
    let registered := registry.register { internalName, kind, superclass := some Ty.object }
    { value := { decl with ty := some ty }, state := registered.addAlias decl.name ty }

/-- Resolves the supertypes. The superclass of an interface is `Object`, as is that of a class
whose clause does not resolve. -/
def resolveSupertypes (decl : ClassDecl) : Check Registry (Ty × List Ty) := do
  let superclass ← match decl.isInterface, decl.superclass with
    | false, some name => resolveSupertype false name
    | _, _ => pure none
  let interfaces ← resolveInterfaces decl.interfaces
  return (superclass.getD .object, interfaces)

/-- A class without members, once its supertypes are registered. -/
def outline (decl : ClassDecl) (ty superclass : Ty) (interfaces : List Ty) (registry : Registry) :
    ClassStub :=
  let mods :=
    if decl.isInterface then decl.mods ∪ Modifiers.accInterface ∪ Modifiers.accAbstract
    else decl.mods
  let internalName := registry.internalName ty
  { info :=
      { ty, name := decl.name, internalName, isInterface := decl.isInterface, mods, superclass,
        interfaces }
    image :=
      { mods
        name := internalName
        superName := registry.internalName superclass
        interfaces := interfaces.map registry.internalName } }

/-- Stubs a declared class. -/
def stub (options : Options) (ty : Ty) (decl : ClassDecl) :
    Check Registry (ClassDecl × ClassStub) := do
  let (superclass, interfaces) ← decl.resolveSupertypes
  Check.modify fun registry => registry.setSupertypes ty (some superclass) interfaces
  fun registry =>
    let outlined := decl.outline ty superclass interfaces registry
    let done := (stubMembers options decl.members).run { registry, stub := outlined }
    { value := ({ decl with members := done.value }, done.state.stub)
      state := done.state.registry
      errors := done.errors }

end ClassDecl

/-! ## Units -/

/-- Declares the classes of a unit. A name that was there before is reported, and the class is
declared all the same. -/
def declareClasses (package : Option String) : List String → List ClassDecl →
    Check Registry (List ClassDecl)
  | _, [] => return []
  | seen, first :: rest => do
    Check.reportAll
      (if seen.contains first.name then [.duplicateDefinition "class" first.name first.line]
      else [])
    let first ← first.declare package
    let rest ← declareClasses package (first.name :: seen) rest
    return first :: rest

/-- Stubs the declared classes of a unit. -/
def stubClasses (options : Options) : List ClassDecl →
    Check Registry (List ClassDecl × List ClassStub)
  | [] => return ([], [])
  | first :: rest => do
    match first.ty with
    | none => do
      let (rest, stubs) ← stubClasses options rest
      return (first :: rest, stubs)
    | some ty => do
      let (first, stub) ← first.stub options ty
      let (rest, stubs) ← stubClasses options rest
      return (first :: rest, stub :: stubs)

/-- Makes the imported classes known by their simple names. -/
def importClasses : List String → Check Registry Unit
  | [] => return
  | first :: rest => do
    (fun registry =>
      match registry.importClass? first with
      | some (_, registry) => { value := (), state := registry }
      | none => { value := (), state := registry, errors := [.unknownType first 0] })
    importClasses rest

/-- The outcome of stubbing a unit. -/
structure Stubs where
  classes : ClassTable := {}
  images : List ClassImage := []
  deriving Inhabited

/-- Stubs a unit. -/
def CompilationUnit.stub (options : Options) (unit : CompilationUnit) :
    Check Registry (CompilationUnit × Stubs) := do
  importClasses unit.imports
  let declared ← declareClasses unit.package [] unit.types
  let (types, stubs) ← stubClasses options declared
  let classes := stubs.foldl (fun table stub => table.addClass stub.info)
    { package := unit.package }
  return ({ unit with types }, { classes, images := stubs.map ClassStub.image })

end ClassCompiler
