import ClassCompiler.Table
import ClassCompiler.Ty.Basic

/-!
# The type registry

What is known about types: the entry of each handle, and the simple names that the source may use.
A source name is looked up as an alias first and then, when it has a dot, as a qualified name.

* `Registry.builtin`: the primitives and the classes that every unit may use
* `Registry.arrayOf`: array types, registered on first use
* `Registry.displayName`, `Registry.descriptor`: the two ways to write a type
-/

namespace ClassCompiler

/-! ## Entries -/

inductive TypeKind
  | primitive
  | null
  | any
  | plainClass
  | interface
  | array (element : Ty)
  deriving DecidableEq, Inhabited

/-- What is known about one type. The internal name of an array is its descriptor. -/
structure TypeEntry where
  internalName : String
  kind : TypeKind
  superclass : Option Ty := none
  interfaces : List Ty := []
  deriving DecidableEq, Inhabited

/-- The direct supertypes: the superclass before the interfaces. -/
def TypeEntry.supertypes (entry : TypeEntry) : List Ty :=
  entry.superclass.toList ++ entry.interfaces

structure Registry where
  entries : Table Ty TypeEntry := ∅
  aliases : Table String Ty := ∅
  deriving Inhabited

namespace Registry

def empty : Registry := {}

/-! ## Registration -/

/-- Registers a class or interface, in place of an older one of the same name. -/
def register (registry : Registry) (entry : TypeEntry) : Registry :=
  { registry with entries := registry.entries.insert (.named entry.internalName) entry }

def addAlias (registry : Registry) (name : String) (ty : Ty) : Registry :=
  { registry with aliases := registry.aliases.insert name ty }

/-- Replaces the supertypes of a registered type. Classes are declared before their supertypes are
known, so that a class may extend one that comes later. -/
def setSupertypes (registry : Registry) (ty : Ty) (superclass : Option Ty)
    (interfaces : List Ty) : Registry :=
  { registry with
    entries := registry.entries.modify ty fun entry => { entry with superclass, interfaces } }

/-! ## Lookup -/

def get? (registry : Registry) (ty : Ty) : Option TypeEntry := registry.entries.get? ty

def contains (registry : Registry) (ty : Ty) : Bool := (registry.get? ty).isSome

def kind? (registry : Registry) (ty : Ty) : Option TypeKind := (registry.get? ty).map (·.kind)

def elementType? (registry : Registry) (ty : Ty) : Option Ty :=
  match registry.kind? ty with
  | some (.array element) => some element
  | _ => none

def isArray (registry : Registry) (ty : Ty) : Bool := (registry.elementType? ty).isSome

def isInterface (registry : Registry) (ty : Ty) : Bool :=
  registry.kind? ty == some .interface

def superclass? (registry : Registry) (ty : Ty) : Option Ty :=
  (registry.get? ty).bind (·.superclass)

def supertypes (registry : Registry) (ty : Ty) : List Ty :=
  ((registry.get? ty).map (·.supertypes)).getD []

/-! ## Source names -/

/-- The last part of a dotted or slashed name. -/
def simpleName (name : String) : String :=
  String.ofList (name.toList.reverse.takeWhile fun c => c ≠ '/' ∧ c ≠ '.').reverse

/-- A dotted name with slashes in place of its dots. -/
def internalForm (name : String) : String := name.map fun c => if c = '.' then '/' else c

def lookupQualified? (registry : Registry) (name : String) : Option Ty :=
  let ty := Ty.named (internalForm name)
  if registry.contains ty then some ty else none

/-- The type that a source name means, if it means one. -/
def lookup? (registry : Registry) (name : String) : Option Ty :=
  match registry.aliases.get? name with
  | some ty => some ty
  | none => if name.toList.contains '.' then registry.lookupQualified? name else none

/-- Makes the class of a qualified name known by its last part, if there is such a class. -/
def importClass? (registry : Registry) (name : String) : Option (Ty × Registry) :=
  (registry.lookupQualified? name).map fun ty => (ty, registry.addAlias (simpleName name) ty)

/-! ## Written forms -/

/-- The internal name; a type that is not registered counts as `java/lang/Object`. -/
def internalName (registry : Registry) (ty : Ty) : String :=
  ((registry.get? ty).map (·.internalName)).getD "java/lang/Object"

/-- The descriptor of a field of that type. -/
def descriptor (registry : Registry) (ty : Ty) : String :=
  match ty.prim? with
  | some p => p.letter
  | none =>
    match registry.get? ty with
    | some { internalName, kind := .array _, .. } => internalName
    | some { internalName, kind := .plainClass, .. }
    | some { internalName, kind := .interface, .. } => "L" ++ internalName ++ ";"
    | _ => "Ljava/lang/Object;"

def methodDescriptor (registry : Registry) (params : List Ty) (returnTy : Ty) : String :=
  "(" ++ String.join (params.map registry.descriptor) ++ ")" ++ registry.descriptor returnTy

/-- The display name, found by at most `depth` steps from an array to its element. -/
def displayNameWithin (registry : Registry) : Nat → Ty → String
  | depth, ty =>
    match ty.prim? with
    | some p => p.keyword
    | none =>
      match registry.get? ty, depth with
      | some { kind := .array element, .. }, depth + 1 =>
        registry.displayNameWithin depth element ++ "[]"
      | some { kind := .null, .. }, _ => "null"
      | some { kind := .any, .. }, _ => "<any>"
      | some entry, _ => entry.internalName.map fun c => if c = '/' then '.' else c
      | none, _ => "<unknown " ++ ty.hashText ++ ">"

/-- The name that messages show: `java.lang.String`, `int[]`. An array nests no deeper than there
are entries. -/
def displayName (registry : Registry) (ty : Ty) : String :=
  registry.displayNameWithin registry.entries.size ty

/-! ## Arrays -/

/-- The array type of an element type, registered on first use. -/
def arrayOf (registry : Registry) (element : Ty) : Ty × Registry :=
  let internalName := "[" ++ registry.descriptor element
  let ty := Ty.named internalName
  if registry.contains ty then (ty, registry)
  else
    let entry : TypeEntry :=
      { internalName, kind := .array element, superclass := some Ty.object }
    (ty, { registry with entries := registry.entries.insert ty entry })

/-! ## Builtin types -/

/-- Internal name, superclass, and whether the simple name is known without an import. -/
def builtinClasses : List (String × Option Ty × Bool) :=
  [("java/lang/Object", none, true),
    ("java/lang/String", some Ty.object, true),
    ("java/lang/StringBuilder", some Ty.object, true),
    ("java/lang/Throwable", some Ty.object, true),
    ("java/lang/Exception", some Ty.throwable, true),
    ("java/lang/Error", some Ty.throwable, true),
    ("java/lang/RuntimeException", some (Ty.named "java/lang/Exception"), true),
    ("java/lang/IllegalArgumentException", some (Ty.named "java/lang/RuntimeException"), true),
    ("java/lang/IllegalStateException", some (Ty.named "java/lang/RuntimeException"), true),
    ("java/lang/ArithmeticException", some (Ty.named "java/lang/RuntimeException"), true),
    ("java/io/IOException", some (Ty.named "java/lang/Exception"), false)]

/-- The primitives, `null`, `any` and the builtin classes. -/
def builtin : Registry :=
  let withPrims := Prim.all.foldl (fun registry p =>
    (registry.register { internalName := p.keyword, kind := .primitive }).addAlias p.keyword
      (.prim p)) empty
  let withPseudo := (withPrims.register { internalName := "<null>", kind := .null }).register
    { internalName := "<any>", kind := .any }
  builtinClasses.foldl (fun registry (name, superclass, known) =>
    let registry := registry.register { internalName := name, kind := .plainClass, superclass }
    if known then registry.addAlias (simpleName name) (.named name) else registry) withPseudo

end Registry

end ClassCompiler
