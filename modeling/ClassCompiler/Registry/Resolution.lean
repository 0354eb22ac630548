import ClassCompiler.Error
import ClassCompiler.Registry.Basic
import ClassCompiler.Tree.Decl

/-!
# Resolving type names

From a written type to a registered one. Array types are registered on the way, so resolution
answers with the registry that knows the result; a name that does not resolve leaves the registry
as it was.
-/

namespace ClassCompiler.Registry

/-- The array type with a number of dimensions over a base type. -/
def arrayOfDims (registry : Registry) (base : Ty) : Nat → Ty × Registry
  | 0 => (base, registry)
  | dims + 1 =>
    let (inner, registry) := registry.arrayOfDims base dims
    registry.arrayOf inner

/-- Resolves a type name with its dimensions. -/
def resolve (registry : Registry) (name : TypeName) : Except CompileError (Ty × Registry) :=
  match registry.lookup? name.name with
  | none => .error (.unknownType name.name name.line)
  | some base =>
    if 0 < name.dims ∧ base = .void then
      .error (.typeMismatch "array element type cannot be void" name.line)
    else .ok (registry.arrayOfDims base name.dims)

/-- Resolves the name of a type that values can have. -/
def resolveValue (registry : Registry) (name : TypeName) : Except CompileError (Ty × Registry) :=
  match registry.resolve name with
  | .error error => .error error
  | .ok (ty, resolved) =>
    if ty = .void then .error (.typeMismatch "'void' is not a valid type here" name.line)
    else .ok (ty, resolved)

/-- Resolves a name, with `any` and the error in place of a type that cannot be found. -/
def resolveOrAny (registry : Registry) (valueOnly : Bool) (name : TypeName) :
    Ty × Registry × List CompileError :=
  match if valueOnly then registry.resolveValue name else registry.resolve name with
  | .ok (ty, resolved) => (ty, resolved, [])
  | .error error => (.any, registry, [error])

end ClassCompiler.Registry
