import ClassCompiler.Number.Binary

/-!
# Shortest decimals

The shortest decimal that reads back as a given binary value, written in positional notation.

A finite value stands for an interval: every real number that rounds to it, the two ends included
when the mantissa is even. Going from coarse decimal grids to finer ones, the first grid with a
point of the value's neighbourhood inside the interval gives the digits; of two such points the
nearer one is taken, and of two equally near ones the upper.

* `shortest`: digits and decimal exponent
* `FloatValue.toDecimal`: the text
-/

namespace ClassCompiler.Number

/-! ## Intervals -/

/-- A value with its rounding interval, over one common denominator. -/
structure Interval where
  lower : Nat
  value : Nat
  upper : Nat
  denominator : Nat
  closed : Bool

/-- The interval of `mantissa * 2 ^ exponent`. -/
def Interval.of (mantissa : Nat) (exponent : Int) (atBinade : Bool) : Interval :=
  let up := Nat.pow 2 (exponent - 2).toNat
  { lower := (4 * mantissa - if atBinade then 1 else 2) * up
    value := 4 * mantissa * up
    upper := (4 * mantissa + 2) * up
    denominator := Nat.pow 2 (2 - exponent).toNat
    closed := mantissa % 2 = 0 }

/-- Is `point / denominator` inside, everything else being scaled by `scale`? -/
def Interval.contains (interval : Interval) (scale point : Nat) : Bool :=
  if interval.closed then interval.lower * scale ≤ point && point ≤ interval.upper * scale
  else interval.lower * scale < point && point < interval.upper * scale

/-- The digits of the point that the grid of step `10 ^ exponent` offers, if it has one. -/
def Interval.onGrid? (interval : Interval) (exponent : Int) : Option Nat :=
  let scale := Nat.pow 10 (-exponent).toNat
  let step := Nat.pow 10 exponent.toNat * interval.denominator
  let value := interval.value * scale
  let below := value / step
  match interval.contains scale (below * step), interval.contains scale ((below + 1) * step) with
  | true, true =>
    some (if 2 * (value - below * step) < step then below else below + 1)
  | true, false => some below
  | false, true => some (below + 1)
  | false, false => none

/-- Searches `fuel` grids downward from `10 ^ exponent`. -/
def Interval.search (interval : Interval) : Nat → Int → Nat × Int
  | 0, exponent => (0, exponent)
  | fuel + 1, exponent =>
    match interval.onGrid? exponent with
    | some digits => (digits, exponent)
    | none => interval.search fuel (exponent - 1)

/-- Digits and decimal exponent of the shortest decimal of a positive value. The first grid is
coarser than the value, the last finer than the spacing of the smallest doubles. -/
def shortest (mantissa : Nat) (exponent : Int) (atBinade : Bool) : Nat × Int :=
  let interval := Interval.of mantissa exponent atBinade
  let places := (Nat.toDigits 10 (interval.value / interval.denominator)).length
  interval.search (places + 350) places

/-! ## Text -/

/-- `digits * 10 ^ exponent` without an exponent, and with a point only before further digits. -/
def positional (digits : Nat) (exponent : Int) : String :=
  let text := Nat.toDigits 10 digits
  if 0 ≤ exponent then
    String.ofList (text ++ List.replicate exponent.toNat '0')
  else
    let places := (-exponent).toNat
    let padded := List.replicate (places + 1 - text.length) '0' ++ text
    String.ofList
      (padded.take (padded.length - places) ++ '.' :: padded.drop (padded.length - places))

/-- Infinities and not-a-number by name; zero keeps its sign. -/
def FloatValue.toDecimal : FloatValue → String
  | .nan => "NaN"
  | .infinite negative => if negative then "-inf" else "inf"
  | .finite negative mantissa exponent atBinade =>
    let magnitude :=
      if mantissa = 0 then "0"
      else
        let (digits, exponent) := shortest mantissa exponent atBinade
        positional digits exponent
    if negative then "-" ++ magnitude else magnitude

def Binary32.toDecimal (x : Binary32) : String := x.value.toDecimal

def Binary64.toDecimal (x : Binary64) : String := x.value.toDecimal

end ClassCompiler.Number
