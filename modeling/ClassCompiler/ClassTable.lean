import ClassCompiler.Error
import ClassCompiler.Modifiers
import ClassCompiler.Registry.Ancestry
import ClassCompiler.Tree.Decl

/-!
# Classes of a unit

The members of every class that the unit declares. Registration fills the table before any body is
analyzed, so a body sees all siblings, whatever the order of the declarations. Classes from outside
the unit have no members here.

* `ClassInfo.addField`, `ClassInfo.addMethod`: refuse a second member of one name or signature
* `ClassTable.lookupField?`, `ClassTable.lookupMethod?`: the search along the ancestry
-/

namespace ClassCompiler

/-! ## Members -/

structure FieldEntry where
  name : String
  ty : Ty
  mods : Modifiers
  line : Nat
  deriving DecidableEq, Inhabited

structure MethodEntry where
  name : String
  params : List Ty
  returnTy : Ty
  exceptions : List Ty
  mods : Modifiers
  descriptor : String
  line : Nat
  deriving DecidableEq, Inhabited

def MethodEntry.isStatic (method : MethodEntry) : Bool := method.mods.isStatic

/-- Does every parameter accept its argument by itself or up to `null` and `any`? -/
def MethodEntry.acceptsExactly (method : MethodEntry) (args : List Ty) : Bool :=
  (method.params.zip args).all fun (param, arg) => arg.matchesExpected param

/-- Does every parameter accept its argument after widening of references? -/
def MethodEntry.acceptsWidened (method : MethodEntry) (registry : Registry)
    (args : List Ty) : Bool :=
  (method.params.zip args).all fun (param, arg) => registry.isAssignableFrom param arg

/-! ## One class -/

structure ClassInfo where
  ty : Ty
  /-- The name in the source. -/
  name : String
  internalName : String
  isInterface : Bool
  mods : Modifiers
  superclass : Ty := .object
  interfaces : List Ty := []
  fields : List FieldEntry := []
  methods : List MethodEntry := []
  deriving Inhabited

namespace ClassInfo

def field? (info : ClassInfo) (name : String) : Option FieldEntry :=
  info.fields.find? fun field => field.name == name

def addField (info : ClassInfo) (field : FieldEntry) : Except CompileError ClassInfo :=
  if (info.field? field.name).isSome then
    .error (.duplicateDefinition "field" field.name field.line)
  else .ok { info with fields := info.fields ++ [field] }

def methodsNamed (info : ClassInfo) (name : String) : List MethodEntry :=
  info.methods.filter fun method => method.name == name

/-- Is there a method of that name and descriptor? -/
def hasMethod (info : ClassInfo) (name descriptor : String) : Bool :=
  info.methods.any fun method =>
    methodKey info.ty method.name method.descriptor == methodKey info.ty name descriptor

def addMethod (info : ClassInfo) (method : MethodEntry) : Except CompileError ClassInfo :=
  if info.hasMethod method.name method.descriptor then
    .error (.duplicateDefinition "method" (method.name ++ method.descriptor) method.line)
  else .ok { info with methods := info.methods ++ [method] }

end ClassInfo

/-! ## All classes -/

/-- The classes of a unit, latest first, so that of two classes with one name the later is found. -/
structure ClassTable where
  package : Option String := none
  classes : List ClassInfo := []
  deriving Inhabited

namespace ClassTable

def class? (table : ClassTable) (ty : Ty) : Option ClassInfo :=
  table.classes.find? fun info => info.ty == ty

def addClass (table : ClassTable) (info : ClassInfo) : ClassTable :=
  { table with classes := info :: table.classes }

/-- Puts a changed class in the place of the one that `class?` finds. -/
def replaceClass (table : ClassTable) (info : ClassInfo) : ClassTable :=
  let later := table.classes.takeWhile fun old => old.ty != info.ty
  { table with classes := later ++ info :: table.classes.drop (later.length + 1) }

/-- The classes of the unit among the ancestors of a type, in the order of the search. -/
def hierarchy (table : ClassTable) (registry : Registry) (ty : Ty) : List ClassInfo :=
  (registry.ancestors ty).filterMap table.class?

/-- The field of that name on a type or the nearest of its ancestors. -/
def lookupField? (table : ClassTable) (registry : Registry) (ty : Ty) (name : String) :
    Option FieldRef :=
  (table.hierarchy registry ty).findSome? fun info =>
    (info.field? name).map fun field =>
      { owner := info.ty, ty := field.ty, isStatic := field.mods.isStatic }

/-- The methods of a name and an arity with their classes, nearest class first. -/
def candidates (table : ClassTable) (registry : Registry) (ty : Ty) (name : String)
    (arity : Nat) : List (ClassInfo × MethodEntry) :=
  (table.hierarchy registry ty).flatMap fun info =>
    ((info.methodsNamed name).filter fun method => method.params.length == arity).map
      fun method => (info, method)

/-- The method that a call means: the first candidate that accepts the arguments exactly, or else
the first that accepts them after widening. -/
def lookupMethod? (table : ClassTable) (registry : Registry) (ty : Ty) (name : String)
    (args : List Ty) : Option MethodRef :=
  let candidates := table.candidates registry ty name args.length
  let exact := candidates.find? fun (_, method) => method.acceptsExactly args
  let chosen := exact.or (candidates.find? fun (_, method) => method.acceptsWidened registry args)
  chosen.map fun (info, method) =>
    { owner := info.ty
      descriptor := method.descriptor
      returnTy := method.returnTy
      isStatic := method.isStatic
      isPrivate := method.mods.isPrivate
      ownerIsInterface := info.isInterface }

end ClassTable

end ClassCompiler
