import ClassCompiler.Number.Binary
import ClassCompiler.Tree.Operator
import ClassCompiler.Ty.Basic

/-!
# Expressions

The expression tree. The parser leaves types and bindings empty; analysis fills them in, and it may
put another node in a node's place: `+` on a `String` becomes a concatenation, and `length` of an
array a node of its own.

* `Node`: what every node carries
* `Expr`: the tree
* `Expr.qualifiedName?`: the dotted name that a chain of unbound names spells
-/

namespace ClassCompiler

/-! ## Parts -/

inductive Literal
  | int (value : Int32)
  | long (value : Int64)
  | float (value : Number.Binary32)
  | double (value : Number.Binary64)
  | bool (value : Bool)
  /-- One UTF-16 unit. -/
  | char (unit : UInt16)
  | string (value : String)
  | null
  deriving DecidableEq, Inhabited

/-- A resolved field. -/
structure FieldRef where
  owner : Ty
  ty : Ty
  isStatic : Bool
  deriving DecidableEq, Inhabited

/-- A resolved method. -/
structure MethodRef where
  owner : Ty
  descriptor : String
  returnTy : Ty
  isStatic : Bool
  isPrivate : Bool
  ownerIsInterface : Bool
  deriving DecidableEq, Inhabited

/-- What a simple name stands for. -/
inductive Binding
  | slot (index : Nat)
  | field (ref : FieldRef)
  deriving DecidableEq, Inhabited

/-- What every node carries: its line, its type once analysis has found one, and whether it is a
whole statement, so that its value is dropped. -/
structure Node where
  line : Nat
  ty : Option Ty := none
  isStatement : Bool := false
  deriving DecidableEq, Inhabited

/-! ## The tree -/

inductive Expr
  | literal (node : Node) (value : Literal)
  /-- A simple name: a local, a parameter or a field of the enclosing class. -/
  | name (node : Node) (name : String) (binding : Option Binding)
  | self (node : Node)
  | field (node : Node) (target : Expr) (name : String) (field : Option FieldRef)
  | index (node : Node) (array : Expr) (index : Expr)
  | length (node : Node) (array : Expr)
  | unary (node : Node) (op : UnaryOp) (operand : Expr)
  | not (node : Node) (operand : Expr)
  | binary (node : Node) (op : BinaryOp) (lhs : Expr) (rhs : Expr)
  | compare (node : Node) (op : CompareOp) (lhs : Expr) (rhs : Expr)
  | equality (node : Node) (op : EqualityOp) (lhs : Expr) (rhs : Expr)
  | logical (node : Node) (op : LogicalOp) (lhs : Expr) (rhs : Expr)
  | concat (node : Node) (lhs : Expr) (rhs : Expr)
  | assign (node : Node) (op : AssignOp) (lhs : Expr) (rhs : Expr)
  | increment (node : Node) (op : IncrementOp) (operand : Expr)
  /-- A method call; an unqualified one has no target. -/
  | call (node : Node) (target : Option Expr) (name : String) (args : List Expr)
      (method : Option MethodRef)
  deriving Inhabited

namespace Expr

def node : Expr → Node
  | literal n _ | name n _ _ | self n | field n _ _ _ | index n _ _ | length n _ | unary n _ _
  | not n _ | binary n _ _ _ | compare n _ _ _ | equality n _ _ _ | logical n _ _ _ | concat n _ _
  | assign n _ _ _ | increment n _ _ | call n _ _ _ _ => n

/-- The same expression under another node. -/
def withNode (n : Node) : Expr → Expr
  | literal _ value => literal n value
  | name _ text binding => name n text binding
  | self _ => self n
  | field _ target text ref => field n target text ref
  | index _ array position => index n array position
  | length _ array => length n array
  | unary _ op operand => unary n op operand
  | not _ operand => not n operand
  | binary _ op lhs rhs => binary n op lhs rhs
  | compare _ op lhs rhs => compare n op lhs rhs
  | equality _ op lhs rhs => equality n op lhs rhs
  | logical _ op lhs rhs => logical n op lhs rhs
  | concat _ lhs rhs => concat n lhs rhs
  | assign _ op lhs rhs => assign n op lhs rhs
  | increment _ op operand => increment n op operand
  | call _ target text args method => call n target text args method

def line (e : Expr) : Nat := e.node.line

def ty (e : Expr) : Option Ty := e.node.ty

def isStatement (e : Expr) : Bool := e.node.isStatement

/-- The type that analysis found, or `any`. -/
def tyOrAny (e : Expr) : Ty := e.ty.getD .any

/-- Marks an expression as a statement, or as a value. -/
def markStatement (isStatement : Bool) (e : Expr) : Expr :=
  e.withNode { e.node with isStatement }

@[simp] theorem node_withNode (n : Node) (e : Expr) : (e.withNode n).node = n := by
  cases e <;> rfl

/-! ## Forms -/

/-- Names, fields and array elements are places that can be stored to. -/
def isAssignable : Expr → Bool
  | name .. | field .. | index .. => true
  | _ => false

/-- The forms that have a jump of their own, without a value in between. -/
def hasBranchForm : Expr → Bool
  | compare .. | equality .. | logical .. | not .. | literal _ (.bool _) => true
  | _ => false

def simpleName? : Expr → Option String
  | name _ text _ => text
  | _ => none

/-- The forms that may stand as a statement. -/
def isStatementForm : Expr → Bool
  | assign .. | increment .. | call .. => true
  | _ => false

/-- The dotted text of a chain of names of which the first is unbound. -/
def qualifiedName? : Expr → Option String
  | name _ text none => text
  | field _ target text _ => target.qualifiedName?.map (· ++ "." ++ text)
  | _ => none

/-- A character literal; of a character outside the basic plane it keeps the first of its two
UTF-16 units. -/
def charLiteral (c : Char) (line : Nat) : Expr :=
  let code := c.toNat
  let unit := if code < 0x10000 then code else 0xd800 + (code - 0x10000) / 0x400
  literal { line } (.char unit.toUInt16)

end Expr

end ClassCompiler
