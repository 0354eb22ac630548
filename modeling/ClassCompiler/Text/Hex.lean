/-!
# Hexadecimal text

Lower-case hexadecimal of a number, plain and as a full 64-bit word.
-/

namespace ClassCompiler.Text

/-- The hexadecimal digits of a number, without leading zeros. -/
def hexDigits (n : Nat) : String :=
  String.ofList (Nat.toDigits 16 n)

/-- A 64-bit word as `0x` and sixteen digits. -/
def hexWord (word : UInt64) : String :=
  let digits := hexDigits word.toNat
  "0x" ++ String.ofList (List.replicate (16 - digits.length) '0') ++ digits

end ClassCompiler.Text
