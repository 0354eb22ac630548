import ClassCompiler.Proofs.Machine.Numbers
import ClassCompiler.Proofs.Rules
import Mathlib.Algebra.Ring.Int.Defs

/-!
# Integral arithmetic

The integers behind the words of two widths, and the operators on them: results wrap around,
quotients are rounded towards zero, and a shift goes by the low bits of its distance. The machine
computes these results.

* `Width`, `BinaryOp.onNumbers?`: operators on integers
* `Value.number?`: the integer that a value is
* `BinaryOp.toInt_onBits?`, `Host.binary?_number`, `Host.binary?_shift`
-/

namespace ClassCompiler

/-! ## Widths -/

/-- The widths of the words that integral arithmetic computes on. -/
inductive Width
  | int
  | long
  deriving DecidableEq, Inhabited

namespace Width

def bits : Width → Nat
  | int => 32
  | long => 64

def prim : Width → Prim
  | int => .int
  | long => .long

/-- The wider of two widths. -/
def common : Width → Width → Width
  | int, int => int
  | _, _ => long

/-- The number of the width that has the same low bits. -/
def wrap (width : Width) (z : Int) : Int := z.bmod (2 ^ width.bits)

/-- The bits of a number in two's complement. -/
def pattern (width : Width) (z : Int) : Nat := (z % 2 ^ width.bits).toNat

/-- The low bits of a shift distance. -/
def distance (width : Width) (z : Int) : Nat := (z % width.bits).toNat

theorem pattern_toInt (width : Width) (word : BitVec width.bits) :
    width.pattern word.toInt = word.toNat := by
  have hpow : (2 : Int) ^ width.bits = ((2 ^ width.bits : Nat) : Int) := by norm_cast
  unfold pattern
  rw [hpow, ← BitVec.toNat_ofInt, BitVec.ofInt_toInt]

theorem bits_dvd (width : Width) {n : Nat} (hn : 32 ≤ n) : width.bits ∣ 2 ^ n := by
  have hpow : width.bits ∣ 2 ^ 32 := by cases width <;> decide
  exact Nat.dvd_trans hpow (Nat.pow_dvd_pow 2 hn)

theorem distance_bmod (width : Width) {n : Nat} (hn : 32 ≤ n) (z : Int) :
    width.distance (z.bmod (2 ^ n)) = width.distance z := by
  have hdvd : (width.bits : Int) ∣ ((2 ^ n : Nat) : Int) :=
    Int.natCast_dvd_natCast.mpr (width.bits_dvd hn)
  unfold distance
  rw [← Int.emod_emod_of_dvd _ hdvd, Int.bmod_emod, Int.emod_emod_of_dvd _ hdvd]

/-- The low bits of a distance do not depend on the width of the word that holds it. -/
theorem distance_toInt (width : Width) {n : Nat} (hn : 32 ≤ n) (word : BitVec n) :
    width.distance word.toInt = word.toNat % width.bits := by
  rw [BitVec.toInt_eq_toNat_bmod, distance_bmod width hn]
  unfold distance
  omega

theorem common_self (width : Width) : width.common width = width := by
  cases width <;> rfl

theorem common_prim (v w : Width) : v.prim.common w.prim = (v.common w).prim := by
  cases v <;> cases w <;> rfl

end Width

/-! ## Operators -/

/-- The result of a unary operator on a number of a width. -/
def UnaryOp.onNumber (op : UnaryOp) (width : Width) (x : Int) : Int :=
  match op with
  | plus => x
  | neg => width.wrap (-x)
  | bitNot => width.wrap (-x - 1)

/-- The result of a binary operator on numbers of a width; there is no quotient by zero. Quotients
are rounded towards zero, and remainders have the sign of the dividend. -/
def BinaryOp.onNumbers? (op : BinaryOp) (width : Width) (x y : Int) : Option Int :=
  match op with
  | add => some (width.wrap (x + y))
  | sub => some (width.wrap (x - y))
  | mul => some (width.wrap (x * y))
  | div => if y = 0 then none else some (width.wrap (x.tdiv y))
  | rem => if y = 0 then none else some (x.tmod y)
  | bitAnd => some (width.wrap (width.pattern x &&& width.pattern y : Nat))
  | bitOr => some (width.wrap (width.pattern x ||| width.pattern y : Nat))
  | bitXor => some (width.wrap (width.pattern x ^^^ width.pattern y : Nat))
  | shl => some (width.wrap (x * 2 ^ width.distance y))
  | shr => some (x / 2 ^ width.distance y)
  | ushr => some (width.wrap (width.pattern x / 2 ^ width.distance y : Nat))

namespace BinaryOp

/-- Arithmetic on words is arithmetic on the integers behind them. -/
theorem toInt_onBits? (op : BinaryOp) (width : Width) (x y : BitVec width.bits) :
    (op.onBits? x y).map BitVec.toInt = op.onNumbers? width x.toInt y.toInt := by
  have hzero : y = 0 ↔ y.toInt = 0 := by
    constructor
    · rintro rfl
      exact BitVec.toInt_zero
    · intro h
      apply BitVec.eq_of_toInt_eq
      rw [h]
      exact BitVec.toInt_zero.symm
  have hdistance : width.distance y.toInt = y.toNat % width.bits :=
    width.distance_toInt (by cases width <;> decide) y
  cases op with
  | add => exact congrArg some (BitVec.toInt_add x y)
  | sub => exact congrArg some BitVec.toInt_sub
  | mul => exact congrArg some (BitVec.toInt_mul x y)
  | div =>
    by_cases h : y = 0
    · simp only [onBits?, onNumbers?, if_pos h, if_pos (hzero.mp h), Option.map_none]
    · simp only [onBits?, onNumbers?, if_neg h, if_neg (mt hzero.mpr h), Option.map_some,
        BitVec.toInt_sdiv, Width.wrap]
  | rem =>
    by_cases h : y = 0
    · simp only [onBits?, onNumbers?, if_pos h, if_pos (hzero.mp h), Option.map_none]
    · simp only [onBits?, onNumbers?, if_neg h, if_neg (mt hzero.mpr h), Option.map_some,
        BitVec.toInt_srem]
  | bitAnd =>
    simp only [onBits?, onNumbers?, Option.map_some, Width.pattern_toInt, BitVec.toInt_and,
      Width.wrap]
  | bitOr =>
    simp only [onBits?, onNumbers?, Option.map_some, Width.pattern_toInt, BitVec.toInt_or,
      Width.wrap]
  | bitXor =>
    simp only [onBits?, onNumbers?, Option.map_some, Width.pattern_toInt, BitVec.toInt_xor,
      Width.wrap]
  | shl =>
    simp only [onBits?, onNumbers?, Option.map_some, hdistance, Width.wrap, BitVec.toInt_shiftLeft,
      Nat.shiftLeft_eq]
    rw [BitVec.toInt_eq_toNat_bmod x, Int.bmod_mul_bmod]
    norm_cast
  | shr =>
    simp only [onBits?, onNumbers?, Option.map_some, hdistance, BitVec.toInt_sshiftRight,
      Int.shiftRight_eq_div_pow]
    norm_cast
  | ushr =>
    simp only [onBits?, onNumbers?, Option.map_some, hdistance, Width.pattern_toInt, Width.wrap]
    rw [BitVec.toInt_eq_toNat_bmod, BitVec.toNat_ushiftRight, Nat.shiftRight_eq_div_pow]

/-- The complement is the exclusive disjunction with a word of ones. -/
theorem onNumbers?_bitXor_ones (width : Width) (word : BitVec width.bits) :
    bitXor.onNumbers? width word.toInt (-1) = some (UnaryOp.bitNot.onNumber width word.toInt) := by
  have hones : BitVec.ofInt width.bits (-1) = BitVec.allOnes width.bits := by
    cases width <;> decide
  have hminusOne : (BitVec.ofInt width.bits (-1)).toInt = -1 := by cases width <;> decide
  have hone : (BitVec.ofNat width.bits 1).toInt = 1 := by cases width <;> decide
  rw [← hminusOne, ← toInt_onBits?, hones]
  simp only [onBits?, BitVec.xor_allOnes, BitVec.not_eq_neg_add, Option.map_some,
    BitVec.toInt_sub, BitVec.toInt_neg, hone, Int.bmod_sub_bmod]
  rfl

/-- A shift depends on the low bits of its distance only. -/
theorem onNumbers?_shift {op : BinaryOp} (hshift : op.isShift = true) {width : Width} (x : Int)
    {y z : Int} (h : width.distance y = width.distance z) :
    op.onNumbers? width x y = op.onNumbers? width x z := by
  cases op with
  | shl | shr | ushr => simp only [onNumbers?, h]
  | _ => cases hshift

/-- Only quotients and remainders may have no result. -/
theorem eq_zero_of_onNumbers? {op : BinaryOp} {width : Width} {x y : Int}
    (h : op.onNumbers? width x y = none) : y = 0 ∧ op.isShift = false := by
  cases op with
  | div | rem =>
    refine ⟨?_, rfl⟩
    by_contra hy
    simp only [onNumbers?, if_neg hy] at h
    cases h
  | _ => cases h

end BinaryOp

/-! ## Values -/

namespace Value

/-- The number that a value is, with its width. -/
def number? : Value → Option (Width × Int)
  | int v => some (.int, v.toInt)
  | long v => some (.long, v.toInt)
  | _ => none

variable {v w : Value} {width : Width} {x y : Int}

theorem kind_of_number? (h : v.number? = some (width, x)) : v.kind = width.prim.kind := by
  cases v <;> cases h <;> rfl

/-- The number of a value is that of a word. -/
theorem exists_word (h : v.number? = some (width, x)) :
    ∃ word : BitVec width.bits, word.toInt = x := by
  cases v with
  | int v =>
    cases h
    exact ⟨v.toBitVec, rfl⟩
  | long v =>
    cases h
    exact ⟨v.toBitVec, rfl⟩
  | _ => cases h

theorem exists_number? (h : v.kind = width.prim.kind) : ∃ x, v.number? = some (width, x) := by
  cases width <;> cases v <;> first | exact ⟨_, rfl⟩ | cases h

end Value

/-- The instruction of an operator. -/
def BinaryOp.onWidth (op : BinaryOp) : Width → OpCode
  | .int => op.onInt
  | .long => op.onLong

namespace Host

variable (host : Host) (op : BinaryOp) {v w : Value} {width : Width} {x y : Int}

theorem binary?_int (v w : Int32) :
    (host.binary? (op.onWidth .int) (.int v) (.int w)).map (Option.map Value.number?)
      = some ((op.onNumbers? .int v.toInt w.toInt).map fun z => some (.int, z)) := by
  have hcode : (op.onWidth .int).arithmetic? = some (op, .int) := by cases op <;> rfl
  have hbits : (op.onBits? v.toBitVec w.toBitVec).map BitVec.toInt
      = op.onNumbers? .int v.toInt w.toInt := op.toInt_onBits? .int v.toBitVec w.toBitVec
  simp only [binary?, hcode, Option.map_some, Option.map_map, ← hbits]
  rfl

theorem arithmetic?_onLong (op : BinaryOp) :
    (op.onWidth .long).arithmetic? = some (op, .long) := by
  cases op <;> rfl

/-- An operator on two numbers of its width. -/
theorem binary?_number (hshift : op.isShift = false) (hv : v.number? = some (width, x))
    (hw : w.number? = some (width, y)) :
    (host.binary? (op.onWidth width) v w).map (Option.map Value.number?)
      = some ((op.onNumbers? width x y).map fun z => some (width, z)) := by
  cases width with
  | int =>
    cases v <;> cases hv
    cases w <;> cases hw
    exact host.binary?_int op _ _
  | long =>
    cases v <;> cases hv
    cases w <;> cases hw
    next v w =>
      have hbits : (op.onBits? v.toBitVec w.toBitVec).map BitVec.toInt
          = op.onNumbers? .long v.toInt w.toInt := op.toInt_onBits? .long v.toBitVec w.toBitVec
      simp only [binary?, arithmetic?_onLong, hshift, Bool.false_eq_true, if_false, Option.map_some,
        Option.map_map, ← hbits]
      rfl

/-- A shift of a number by a distance of the kind `int`. -/
theorem binary?_shift (hshift : op.isShift = true) (hv : v.number? = some (width, x))
    (hw : w.number? = some (.int, y)) :
    (host.binary? (op.onWidth width) v w).map (Option.map Value.number?)
      = some ((op.onNumbers? width x y).map fun z => some (width, z)) := by
  cases w <;> cases hw
  next w =>
    cases width with
    | int =>
      cases v <;> cases hv
      exact host.binary?_int op _ _
    | long =>
      cases v <;> cases hv
      next v =>
        have hdistance : Width.long.distance (w.toBitVec.setWidth 64).toInt
            = Width.long.distance w.toInt := by
          have hsame : (w.toBitVec.setWidth 64).toNat = w.toBitVec.toNat := by
            have hlt := w.toBitVec.isLt
            rw [BitVec.toNat_setWidth]
            exact Nat.mod_eq_of_lt (by omega)
          rw [Width.distance_toInt _ (by decide), hsame]
          exact (Width.distance_toInt .long (by decide) w.toBitVec).symm
        have hbits : (op.onBits? v.toBitVec (w.toBitVec.setWidth 64)).map BitVec.toInt
            = op.onNumbers? .long v.toInt w.toInt := by
          rw [← BinaryOp.onNumbers?_shift hshift _ hdistance]
          exact op.toInt_onBits? .long v.toBitVec (w.toBitVec.setWidth 64)
        simp only [binary?, arithmetic?_onLong, hshift, if_true, Option.map_some, Option.map_map,
          ← hbits]
        rfl

end Host

end ClassCompiler
