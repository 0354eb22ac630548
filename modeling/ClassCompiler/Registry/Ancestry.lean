import ClassCompiler.Registry.Basic

/-!
# Ancestry and assignability

The types that a type inherits from, and the test whether a value of one type may be stored where
another is expected. Declared hierarchies may contain cycles, so the search keeps the types it has
seen.

* `Registry.ancestors`: a type and its supertypes, nearest first along the superclasses
* `Registry.isAssignableFrom`: identity, `null`, `Object`, arrays by element, and ancestry
-/

namespace ClassCompiler.Registry

/-- Depth-first search of the supertype links. `pending` is a stack, and `seen` holds what was
visited, latest first; each of the `fuel` steps takes one type off the stack. -/
def visit (registry : Registry) : Nat → List Ty → List Ty → List Ty
  | 0, seen, _ => seen
  | _ + 1, seen, [] => seen
  | fuel + 1, seen, ty :: pending =>
    if seen.contains ty then registry.visit fuel seen pending
    else registry.visit fuel (ty :: seen) (registry.supertypes ty ++ pending)

/-- An upper bound for the types that a search can take off its stack: the start, and each link of
each entry once. -/
def visitBound (registry : Registry) : Nat :=
  1 + (registry.entries.values.flatMap fun entry => entry.supertypes).length

/-- The type itself and everything it inherits from, each once, in the order of the search: the
superclass and its ancestors before the interfaces. -/
def ancestors (registry : Registry) (ty : Ty) : List Ty :=
  (registry.visit registry.visitBound [] [ty]).reverse

/-- Assignability, with at most `depth` steps from arrays to their elements. -/
def isAssignableWithin (registry : Registry) : Nat → Ty → Ty → Bool
  | depth, target, source =>
    if target = source ∨ target = .any ∨ source = .any then true
    else if source = .null then target.isReference
    else if target.isPrimitive || source.isPrimitive then false
    else if target = .object then true
    else
      match registry.elementType? target, registry.elementType? source, depth with
      | some targetElement, some sourceElement, depth + 1 =>
        targetElement == sourceElement
          || (targetElement.isReference && sourceElement.isReference
            && registry.isAssignableWithin depth targetElement sourceElement)
      | some _, some _, 0 => false
      | _, _, _ => (registry.ancestors source).contains target

/-- May a value of type `source` be stored where `target` is expected? -/
def isAssignableFrom (registry : Registry) (target source : Ty) : Bool :=
  registry.isAssignableWithin (registry.entries.size + 1) target source

end ClassCompiler.Registry
