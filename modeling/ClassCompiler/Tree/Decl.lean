import ClassCompiler.Modifiers
import ClassCompiler.Tree.Expr

/-!
# Statements and declarations

The tree above expressions: statements, members, classes and whole units. A declaration carries
slots that stay empty until the type, the signature or the frame is known.

* `Stmt`: statements
* `MethodDecl`: a method with its progress through the compiler
* `CompilationUnit`: one source file
-/

namespace ClassCompiler

/-! ## Type names -/

/-- A type as it is written: a name and a number of array dimensions. -/
structure TypeName where
  name : String
  dims : Nat := 0
  line : Nat
  deriving DecidableEq, Inhabited

def TypeName.text (type : TypeName) : String :=
  type.name ++ String.join (List.replicate type.dims "[]")

/-! ## Statements -/

/-- One name of a local declaration, with the slot that analysis gave it. -/
structure Declarator where
  name : String
  init : Option Expr
  line : Nat
  slot : Option Nat := none
  deriving Inhabited

/-- A local declaration. Analysis moves each initializer out of its declarator and leaves an
assignment to the new local. -/
structure LocalDecl where
  type : TypeName
  declarators : List Declarator
  line : Nat
  initializers : List Expr := []
  deriving Inhabited

/-- What stands before the first semicolon of a `for`. -/
inductive ForInit
  | exprs (exprs : List Expr)
  | decl (decl : LocalDecl)
  deriving Inhabited

inductive Stmt
  | block (stmts : List Stmt) (line : Nat)
  | declare (decl : LocalDecl)
  | expr (expr : Expr) (line : Nat)
  | branch (condition : Expr) (onTrue : Stmt) (onFalse : Option Stmt) (line : Nat)
  | whileLoop (condition : Expr) (body : Stmt) (line : Nat)
  | forLoop (init : Option ForInit) (condition : Option Expr) (update : List Expr) (body : Stmt)
      (line : Nat)
  | ret (value : Option Expr) (line : Nat)
  | break (line : Nat)
  | continue (line : Nat)
  | empty (line : Nat)
  deriving Inhabited

def Stmt.line : Stmt → Nat
  | block _ line | expr _ line | branch _ _ _ line | whileLoop _ _ line | forLoop _ _ _ _ line
  | ret _ line | .break line | .continue line | empty line => line
  | declare decl => decl.line

/-- A braced list of statements. -/
structure Block where
  stmts : List Stmt
  line : Nat
  deriving Inhabited

/-! ## Members -/

structure FieldDecl where
  line : Nat
  mods : Modifiers
  type : TypeName
  names : List String
  /-- Set when the field is registered. -/
  resolved : Option Ty := none
  deriving Inhabited

structure FormalParam where
  line : Nat
  name : String
  type : TypeName
  deriving Inhabited

/-- How far a method has come. -/
inductive MethodState
  | unresolved
  | stubbed
  | analyzed
  | generated
  deriving DecidableEq, Inhabited

namespace MethodState

def all : List MethodState := [unresolved, stubbed, analyzed, generated]

def name : MethodState → String
  | unresolved => "Unresolved"
  | stubbed => "Stubbed"
  | analyzed => "Analyzed"
  | generated => "Generated"

end MethodState

structure MethodSignature where
  params : List Ty
  returnTy : Ty
  exceptions : List Ty
  descriptor : String
  deriving DecidableEq, Inhabited

/-- What analysis learned of a method's frame. -/
structure FrameInfo where
  /-- Slots in use, the receiver's included. -/
  maxLocals : Nat
  /-- Does every path through the body return? -/
  alwaysReturns : Bool
  deriving DecidableEq, Inhabited

structure MethodDecl where
  line : Nat
  mods : Modifiers
  name : String
  returnType : TypeName
  params : List FormalParam
  exceptions : List TypeName
  body : Option Block
  state : MethodState := .unresolved
  signature : Option MethodSignature := none
  frame : Option FrameInfo := none
  deriving Inhabited

inductive Member
  | field (decl : FieldDecl)
  | method (decl : MethodDecl)
  deriving Inhabited

/-! ## Classes and units -/

structure ClassDecl where
  line : Nat
  mods : Modifiers
  name : String
  isInterface : Bool
  /-- The `extends` clause of a class. -/
  superclass : Option TypeName
  /-- The `implements` clause of a class, the `extends` clause of an interface. -/
  interfaces : List TypeName
  members : List Member
  /-- Set when the class is declared. -/
  ty : Option Ty := none
  deriving Inhabited

def ClassDecl.methods (decl : ClassDecl) : List MethodDecl :=
  decl.members.filterMap fun
    | .method method => some method
    | .field _ => none

/-- The first method of that name. -/
def ClassDecl.method? (decl : ClassDecl) (name : String) : Option MethodDecl :=
  decl.methods.find? fun method => method.name == name

/-- One source file. -/
structure CompilationUnit where
  file : String
  package : Option String
  imports : List String
  types : List ClassDecl
  deriving Inhabited

end ClassCompiler
