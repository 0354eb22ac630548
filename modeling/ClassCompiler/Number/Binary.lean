/-!
# Binary floating point

Bit patterns of the two IEEE 754 widths and what they denote. A pattern is never rounded or
computed with here: literals are kept bit for bit, read apart into sign, mantissa and exponent, and
compared as constants.

* `FloatValue`: not a number, an infinity, or `mantissa * 2 ^ exponent` with a sign
* `Binary32.sameValue`, `Binary64.sameValue`: equality of constants
-/

namespace ClassCompiler.Number

/-! ## Values -/

/-- What a bit pattern denotes. `atBinade` says that the pattern is the least of its exponent, so
that the next value below is half as far away as the next one above. -/
inductive FloatValue
  | nan
  | infinite (negative : Bool)
  | finite (negative : Bool) (mantissa : Nat) (exponent : Int) (atBinade : Bool)
  deriving DecidableEq

/-- Widths of the two fields below the sign bit. -/
structure FloatFormat where
  mantissaBits : Nat
  exponentBits : Nat

namespace FloatFormat

def single : FloatFormat := ⟨23, 8⟩
def double : FloatFormat := ⟨52, 11⟩

/-- The exponent of the last mantissa bit of the smallest values. -/
def minExponent (format : FloatFormat) : Int :=
  2 - (Nat.pow 2 (format.exponentBits - 1) + format.mantissaBits : Nat)

/-- Reads a bit pattern apart. -/
def decode (format : FloatFormat) (bits : Nat) : FloatValue :=
  let one := Nat.pow 2 format.mantissaBits
  let exponents := Nat.pow 2 format.exponentBits
  let fraction := bits % one
  let exponent := bits / one % exponents
  let negative := bits / (one * exponents) % 2 = 1
  if exponent + 1 = exponents then
    if fraction = 0 then .infinite negative else .nan
  else if exponent = 0 then
    .finite negative fraction format.minExponent false
  else
    .finite negative (one + fraction) (format.minExponent + exponent - 1) (fraction = 0)

end FloatFormat

/-! ## The two widths -/

/-- A single-precision bit pattern. -/
structure Binary32 where
  bits : UInt32
  deriving DecidableEq, Inhabited

/-- A double-precision bit pattern. -/
structure Binary64 where
  bits : UInt64
  deriving DecidableEq, Inhabited

/-- Equality of constants of one width: all patterns of not-a-number are one, and so are the two
zeros. -/
def FloatValue.sameConstant : FloatValue → FloatValue → Bool
  | .nan, .nan => true
  | .infinite s, .infinite t => s == t
  | .finite s m e _, .finite t n f _ =>
    (m == 0 && n == 0) || (s == t && m == n && e == f)
  | _, _ => false

/-- A number that is the same for values that are one constant. -/
def FloatValue.digest : FloatValue → Nat
  | .nan => 0
  | .infinite _ => 1
  | .finite _ m _ _ => m

namespace Binary32

def zero : Binary32 := ⟨0⟩
def one : Binary32 := ⟨0x3f800000⟩
def two : Binary32 := ⟨0x40000000⟩

def value (x : Binary32) : FloatValue := FloatFormat.single.decode x.bits.toNat

def sameValue (x y : Binary32) : Bool := x.value.sameConstant y.value

end Binary32

namespace Binary64

def zero : Binary64 := ⟨0⟩
def one : Binary64 := ⟨0x3ff0000000000000⟩

def value (x : Binary64) : FloatValue := FloatFormat.double.decode x.bits.toNat

def sameValue (x y : Binary64) : Bool := x.value.sameConstant y.value

end Binary64

end ClassCompiler.Number
