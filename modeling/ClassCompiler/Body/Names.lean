import ClassCompiler.Check
import ClassCompiler.ClassTable
import ClassCompiler.Scope

/-!
# Names in a body

What a name means at a point of a body. A simple name is a local before it is a field of the
enclosing class or of its ancestors; a chain of names that starts with neither may be the name of a
class.

* `ExprEnv.bindName`: a simple name
* `ExprEnv.typeQualifier?`: the class that a chain of names stands for
* `ExprEnv.selectField`, `ExprEnv.staticField`, `ExprEnv.selectMethod`: members by name
-/

namespace ClassCompiler

/-- Where a body stands: the classes of its unit, and the class it belongs to. -/
structure Site where
  classes : ClassTable
  owner : Ty
  deriving Inhabited

/-- What the names of an expression are looked up in, locals apart. -/
structure ExprEnv extends Site where
  registry : Registry
  deriving Inhabited

namespace ExprEnv

def field? (env : ExprEnv) (ty : Ty) (name : String) : Option FieldRef :=
  env.classes.lookupField? env.registry ty name

def method? (env : ExprEnv) (ty : Ty) (name : String) (args : List Ty) : Option MethodRef :=
  env.classes.lookupMethod? env.registry ty name args

/-! ## Simple names -/

/-- A name bound to a field. -/
def fieldName (node : Node) (name : String) (field : FieldRef) : Expr :=
  .name { node with ty := some field.ty } name (some (.field field))

def unboundName (node : Node) (name : String) : Expr :=
  .name { node with ty := some .any } name none

/-- An instance field reached without an instance. -/
def staticFieldErrors (name : String) (field : FieldRef) (line : Nat) : List CompileError :=
  if field.isStatic then [] else [.staticContext ("variable " ++ name) line]

/-- A simple name as the target of an assignment, which need not have a value yet. -/
def bindName (env : ExprEnv) (scope : Scope) (node : Node) (name : String) :
    Expr × List CompileError :=
  match scope.lookup? name with
  | some var => (.name { node with ty := some var.ty } name (some (.slot var.slot)), [])
  | none =>
    match env.field? env.owner name with
    | some field =>
      (fieldName node name field,
        if scope.isStatic then staticFieldErrors name field node.line else [])
    | none => (unboundName node name, [.unknownVariable name node.line])

/-- A local that is read before it has a value. -/
def uninitializedErrors (scope : Scope) (name : String) (line : Nat) : List CompileError :=
  match scope.lookup? name with
  | some var => if var.isInitialized then [] else [.uninitializedVariable name line]
  | none => []

/-- A simple name whose value is read. -/
def readName (env : ExprEnv) (scope : Scope) (node : Node) (name : String) :
    Expr × List CompileError :=
  let (bound, errors) := env.bindName scope node name
  (bound, errors ++ uninitializedErrors scope name node.line)

def thisErrors (scope : Scope) (line : Nat) : List CompileError :=
  if scope.isStatic then [.staticContext "variable this" line] else []

/-! ## Names of classes -/

/-- The first part of a dotted name. -/
def headOf (name : String) : String := String.ofList (name.toList.takeWhile fun c => c ≠ '.')

/-- The class or interface that a chain of names stands for. Locals and fields hide it. -/
def typeQualifier? (env : ExprEnv) (scope : Scope) (e : Expr) : Option Ty := do
  let name ← e.qualifiedName?
  let head := headOf name
  if (scope.lookup? head).isSome || (env.field? env.owner head).isSome then none
  else
    let ty ← env.registry.lookup? name
    match env.registry.kind? ty with
    | some .plainClass | some .interface => some ty
    | _ => none

/-! ## Members -/

/-- `Type.name`. -/
def staticField (env : ExprEnv) (owner : Ty) (node : Node) (name : String) :
    Expr × List CompileError :=
  match env.field? owner name with
  | some field => (fieldName node name field, staticFieldErrors name field node.line)
  | none =>
    (unboundName node name, [.unknownField name (env.registry.displayName owner) node.line])

/-- `target.name` on an analyzed target. The target of a static field is dropped. -/
def selectField (env : ExprEnv) (node : Node) (target : Expr) (name : String) :
    Expr × List CompileError :=
  let ty := target.tyOrAny
  if ty = .any then (.field { node with ty := some .any } target name none, [])
  else if name == "length" && env.registry.isArray ty then
    (.length { node with ty := some .int } target, [])
  else
    match env.field? ty name with
    | some field =>
      if field.isStatic then (fieldName node name field, [])
      else (.field { node with ty := some field.ty } target name (some field), [])
    | none =>
      (.field { node with ty := some .any } target name none,
        [.unknownField name (env.registry.displayName ty) node.line])

/-- The type of the receiver of a call, and whether there is no instance to call a method on. -/
structure Receiver where
  ty : Ty
  staticOnly : Bool
  deriving DecidableEq, Inhabited

/-- A call on analyzed arguments, its receiver known. -/
def selectMethod (env : ExprEnv) (receiver : Receiver) (node : Node) (target : Option Expr)
    (name : String) (args : List Expr) : Expr × List CompileError :=
  if receiver.ty = .any then (.call { node with ty := some .any } target name args none, [])
  else
    let types := args.map Expr.tyOrAny
    let shown := ", ".intercalate (types.map env.registry.displayName)
    match env.method? receiver.ty name types with
    | some method =>
      (.call { node with ty := some method.returnTy } target name args (some method),
        if receiver.staticOnly && !method.isStatic then
          [.staticContext ("method " ++ name ++ "(" ++ shown ++ ")") node.line]
        else [])
    | none =>
      (.call { node with ty := some .any } target name args none,
        [.unknownMethod name shown node.line])

end ExprEnv

end ClassCompiler
