import ClassCompiler.Hash.Xxh64
import ClassCompiler.Text.Hex

/-!
# Types

A type is a handle: the hash of its internal name (`int`, `java/lang/String`, `[I`). Two handles
made from one name are equal, so a type can be named before anything is known about it; what is
known is kept in the registry.

The primitives, the type of `null`, the recovery type `any` and four classes have names of their
own here, because the rules of operators and of code depend on them.

* `Prim`: the primitive types, `void` included
* `Ty.prim?`: the primitive that a handle denotes
* `Ty.matchesExpected`: exact match, relaxed for `any` and `null`
-/

namespace ClassCompiler

/-! ## Handles -/

/-- A type, identified by the hash of its internal name. -/
structure Ty where
  hash : UInt64
  deriving DecidableEq, Inhabited

/-- Separates the hashes of types from other hashes of the same text. -/
def typeDomain : UInt64 := 0x2fac10b63a6cc57c

def Ty.named (name : String) : Ty := ⟨typeDomain ^^^ Hash.hashString name⟩

/-! ## Primitives -/

/-- The primitive types. -/
inductive Prim
  | int
  | long
  | float
  | double
  | boolean
  | char
  | byte
  | short
  | void
  deriving DecidableEq, Repr

namespace Prim

def all : List Prim := [int, long, float, double, boolean, char, byte, short, void]

/-- The keyword of the source language. -/
def keyword : Prim → String
  | int => "int"
  | long => "long"
  | float => "float"
  | double => "double"
  | boolean => "boolean"
  | char => "char"
  | byte => "byte"
  | short => "short"
  | void => "void"

/-- The letter that stands for the type in a descriptor. -/
def letter : Prim → String
  | int => "I"
  | long => "J"
  | float => "F"
  | double => "D"
  | boolean => "Z"
  | char => "C"
  | byte => "B"
  | short => "S"
  | void => "V"

/-- `long` and `double` take two words of a frame. -/
def isWide : Prim → Bool
  | long | double => true
  | _ => false

def isIntegral : Prim → Bool
  | int | long | char | byte | short => true
  | _ => false

def isNumeric : Prim → Bool
  | float | double => true
  | p => p.isIntegral

/-- The types whose values are kept as `int` on the operand stack. -/
def isIntLike : Prim → Bool
  | int | char | byte | short | boolean => true
  | _ => false

end Prim

namespace Ty

def int : Ty := named "int"
def long : Ty := named "long"
def float : Ty := named "float"
def double : Ty := named "double"
def boolean : Ty := named "boolean"
def char : Ty := named "char"
def byte : Ty := named "byte"
def short : Ty := named "short"
def void : Ty := named "void"

def prim : Prim → Ty
  | .int => int
  | .long => long
  | .float => float
  | .double => double
  | .boolean => boolean
  | .char => char
  | .byte => byte
  | .short => short
  | .void => void

/-- The primitive type that a handle denotes, if it denotes one. -/
def prim? (ty : Ty) : Option Prim := Prim.all.find? fun p => prim p == ty

theorem prim_eq_named (p : Prim) : prim p = named p.keyword := by
  cases p <;> rfl

/-! ## Other fixed types -/

/-- The type of `null`, which every reference type accepts. -/
def null : Ty := named "<null>"

/-- The type of an expression whose analysis failed. It matches every type, so that one mistake is
reported once. -/
def any : Ty := named "<any>"

def object : Ty := named "java/lang/Object"
def string : Ty := named "java/lang/String"
def stringBuilder : Ty := named "java/lang/StringBuilder"
def throwable : Ty := named "java/lang/Throwable"

/-! ## Classification -/

def isPrimitive (ty : Ty) : Bool := ty.prim?.isSome

/-- Everything but the primitives and `any`; `null` is a reference. -/
def isReference (ty : Ty) : Bool := !ty.isPrimitive && ty != any

def isWide (ty : Ty) : Bool := ty.prim?.any Prim.isWide

/-- Frame slots that a value of the type takes. -/
def slots (ty : Ty) : Nat :=
  if ty = void then 0 else if ty.isWide then 2 else 1

def isIntegral (ty : Ty) : Bool := ty.prim?.any Prim.isIntegral

def isNumeric (ty : Ty) : Bool := ty.prim?.any Prim.isNumeric

def isIntLike (ty : Ty) : Bool := ty.prim?.any Prim.isIntLike

/-- Is the type among `types`, or `any`? -/
def matchesOneOf (ty : Ty) (types : List Ty) : Bool := ty == any || types.contains ty

/-- Exact match, relaxed for `any` on either side and for `null` against references. -/
def matchesExpected (actual expected : Ty) : Bool :=
  actual == expected || actual == any || expected == any
    || (actual == null && expected.isReference)

/-! ## Text -/

def hashText (ty : Ty) : String := Text.hexWord ty.hash

/-- A short text that names the fixed types and shows the hash of all others. -/
def label (ty : Ty) : String :=
  match ty.prim? with
  | some p => "Type(" ++ p.keyword ++ ")"
  | none =>
    if ty = null then "Type(null)"
    else if ty = any then "Type(any)"
    else "Type(" ++ ty.hashText ++ ")"

end Ty

/-! ## Method keys -/

/-- The hash that identifies a method of `owner` by name and descriptor. -/
def methodKey (owner : Ty) (name descriptor : String) : UInt64 :=
  (0x7d3c8b4a92e15f6d ^^^ owner.hash ^^^ Hash.hashString name) * 0x4bc94d6bd06053ad
    + Hash.hashString descriptor

end ClassCompiler
