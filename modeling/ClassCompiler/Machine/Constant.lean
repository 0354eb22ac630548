import ClassCompiler.Number.Shortest
import ClassCompiler.Table
import ClassCompiler.Text.Quoted

/-!
# Constants and the constant pool

The values that a class loads from its pool, and the pool that gives each of them an index.
Constants that count as the same share an entry.

* `Constant.same`: equality of constants
* `ConstantPool.add`: the index of a constant, old or new
-/

namespace ClassCompiler

/-! ## Constants -/

inductive Constant
  | int (value : Int32)
  | long (value : Int64)
  | float (value : Number.Binary32)
  | double (value : Number.Binary64)
  | string (value : String)
  deriving DecidableEq, Inhabited

namespace Constant

/-- `long` and `double` take two indices of a pool. -/
def isWide : Constant → Bool
  | long _ | double _ => true
  | _ => false

def width (constant : Constant) : UInt16 := if constant.isWide then 2 else 1

/-- Constants of one type with one value; the zeros of a floating type are one value, and so are
its patterns of not-a-number. -/
def same : Constant → Constant → Bool
  | int v, int w => v == w
  | long v, long w => v == w
  | float v, float w => v.sameValue w
  | double v, double w => v.sameValue w
  | string v, string w => v == w
  | _, _ => false

def text : Constant → String
  | int v => toString v.toInt
  | long v => toString v.toInt ++ "L"
  | float v => v.toDecimal ++ "f"
  | double v => v.toDecimal
  | string v => Text.quoted v

end Constant

/-! ## The pool -/

/-- The bucket of a constant. Constants that are the same are in one bucket. -/
def Constant.bucket (constant : Constant) : Nat :=
  let digest := match constant with
    | int v => v.toUInt32.toNat
    | long v => v.toUInt64.toNat
    | float v => v.value.digest
    | double v => v.value.digest
    | string v => v.toList.foldl (fun digest c => (31 * digest + c.toNat) % 509) 0
  digest % 509

/-- The constants of a class in the order of their first use. Index zero stays free, and indices
are 16-bit words. -/
structure ConstantPool where
  /-- Latest first. -/
  latest : List (UInt16 × Constant) := []
  /-- The entries once more, by the buckets of their constants. -/
  buckets : Table Nat (List (UInt16 × Constant)) := ∅
  nextIndex : UInt16 := 0
  deriving DecidableEq, Inhabited

namespace ConstantPool

def empty : ConstantPool := {}

/-- In the order of their first use. -/
def entries (pool : ConstantPool) : List (UInt16 × Constant) := pool.latest.reverse

/-- The entries in the bucket of a constant. -/
def bucketOf (pool : ConstantPool) (constant : Constant) : List (UInt16 × Constant) :=
  (pool.buckets.get? constant.bucket).getD []

/-- The index of an entry that is the same constant. -/
def indexOf? (pool : ConstantPool) (constant : Constant) : Option UInt16 :=
  ((pool.bucketOf constant).find? fun entry => entry.2.same constant).map (·.1)

/-- The index of a constant, which joins the pool if it is new. -/
def add (pool : ConstantPool) (constant : Constant) : UInt16 × ConstantPool :=
  match pool.indexOf? constant with
  | some index => (index, pool)
  | none =>
    let entry := (max pool.nextIndex 1, constant)
    (entry.1,
      { latest := entry :: pool.latest
        buckets := pool.buckets.insert constant.bucket (entry :: pool.bucketOf constant)
        nextIndex := entry.1 + constant.width })

def get? (pool : ConstantPool) (index : UInt16) : Option Constant :=
  (pool.entries.find? fun entry => entry.1 == index).map (·.2)

def size (pool : ConstantPool) : Nat := pool.latest.length

def isEmpty (pool : ConstantPool) : Bool := pool.latest.isEmpty

end ConstantPool

end ClassCompiler
