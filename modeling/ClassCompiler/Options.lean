/-!
# Options
-/

namespace ClassCompiler

structure Options where
  /-- How many errors are kept for a unit; further ones are counted. -/
  errorLimit : Option Nat := none
  /-- Do classes get a public constructor without parameters? -/
  implicitConstructor : Bool := true
  deriving DecidableEq, Inhabited

end ClassCompiler
