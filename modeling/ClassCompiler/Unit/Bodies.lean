import ClassCompiler.Body.Method

/-!
# Bodies of a unit

The analysis of every stubbed method, class by class. Methods in any other state are left alone, so
a second analysis has nothing to do.

* `CompilationUnit.check`
-/

namespace ClassCompiler

namespace Member

def check (site : Site) : Member → Check Registry Member
  | field decl => return field decl
  | method decl =>
    if decl.state = .stubbed then method <$> decl.check site else return method decl

def checkList (site : Site) : List Member → Check Registry (List Member)
  | [] => return []
  | first :: rest => do
    let first ← first.check site
    let rest ← checkList site rest
    return first :: rest

end Member

namespace ClassDecl

/-- Analyzes the methods of a class, if the class was declared. -/
def check (classes : ClassTable) (decl : ClassDecl) : Check Registry ClassDecl :=
  match decl.ty with
  | none => return decl
  | some owner => do
    let members ← Member.checkList { classes, owner } decl.members
    return { decl with members }

def checkList (classes : ClassTable) : List ClassDecl → Check Registry (List ClassDecl)
  | [] => return []
  | first :: rest => do
    let first ← first.check classes
    let rest ← checkList classes rest
    return first :: rest

/-- The methods that an analysis would take up. -/
def pending (decl : ClassDecl) : List MethodDecl :=
  if decl.ty.isSome then decl.methods.filter fun method => method.state = .stubbed else []

end ClassDecl

namespace CompilationUnit

/-- Analyzes the stubbed methods of a unit. -/
def check (classes : ClassTable) (unit : CompilationUnit) : Check Registry CompilationUnit := do
  let types ← ClassDecl.checkList classes unit.types
  return { unit with types }

/-- All methods, class by class. -/
def methods (unit : CompilationUnit) : List MethodDecl := unit.types.flatMap ClassDecl.methods

def methodStates (unit : CompilationUnit) : List MethodState := unit.methods.map MethodDecl.state

/-- How many methods an analysis would take up. -/
def pendingCount (unit : CompilationUnit) : Nat :=
  (unit.types.flatMap ClassDecl.pending).length

end CompilationUnit

end ClassCompiler
