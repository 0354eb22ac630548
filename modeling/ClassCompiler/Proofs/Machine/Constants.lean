import ClassCompiler.Machine.Constant
import Mathlib.Tactic.ByContra

/-!
# Equality of constants

Constants that count as the same are alike to every other constant, and a pool looks for them in one
bucket. Their bits are the same, too, but for the patterns of not-a-number and for the sign of zero.

* `Constant.same_self`, `Constant.same_comm`, `Constant.same_trans`
* `Constant.bucket_of_same`
* `FloatFormat.eq_of_sameConstant`: the bits behind equal values
* `Constant.identical_of_same`: the bits behind constants that are the same
-/

namespace ClassCompiler

/-! ## Floating-point values -/

namespace Number

namespace FloatValue

variable {u v w : FloatValue}

theorem sameConstant_self (v : FloatValue) : v.sameConstant v = true := by
  cases v <;> simp [sameConstant]

theorem sameConstant_symm (h : v.sameConstant w = true) : w.sameConstant v = true := by
  cases v <;> cases w <;> simp only [sameConstant, Bool.false_eq_true] at h ⊢
  · exact beq_iff_eq.mpr (beq_iff_eq.mp h).symm
  · simp only [Bool.or_eq_true, Bool.and_eq_true, beq_iff_eq] at h ⊢
    rcases h with ⟨hm, hn⟩ | ⟨⟨hs, hmn⟩, he⟩
    · exact .inl ⟨hn, hm⟩
    · exact .inr ⟨⟨hs.symm, hmn.symm⟩, he.symm⟩

theorem sameConstant_trans (h : u.sameConstant v = true) (h' : v.sameConstant w = true) :
    u.sameConstant w = true := by
  cases u <;> cases v <;> cases w <;> simp [sameConstant] at h h' ⊢ <;> grind

theorem digest_of_sameConstant (h : v.sameConstant w = true) : v.digest = w.digest := by
  cases v <;> cases w <;> simp only [sameConstant, Bool.false_eq_true, digest] at h ⊢
  simp only [Bool.or_eq_true, Bool.and_eq_true, beq_iff_eq] at h
  omega

end FloatValue

namespace FloatFormat

variable (format : FloatFormat) {x y : Nat}

/-! ### The fields of a pattern -/

/-- One more than the greatest fraction. -/
def fractions : Nat := Nat.pow 2 format.mantissaBits

/-- One more than the greatest exponent field. -/
def exponents : Nat := Nat.pow 2 format.exponentBits

/-- One more than the greatest pattern. -/
def patterns : Nat := format.fractions * format.exponents * 2

def fraction (bits : Nat) : Nat := bits % format.fractions

def exponent (bits : Nat) : Nat := bits / format.fractions % format.exponents

def sign (bits : Nat) : Nat := bits / (format.fractions * format.exponents) % 2

/-- The pattern of a zero, with any sign. -/
def IsZero (bits : Nat) : Prop := format.exponent bits = 0 ∧ format.fraction bits = 0

theorem fractions_pos : 0 < format.fractions := Nat.pow_pos (by decide)

theorem exponents_pos : 0 < format.exponents := Nat.pow_pos (by decide)

theorem fraction_lt (bits : Nat) : format.fraction bits < format.fractions :=
  Nat.mod_lt _ format.fractions_pos

theorem sign_lt (bits : Nat) : format.sign bits < 2 := Nat.mod_lt _ (by decide)

/-- Two patterns with the same sign, exponent and fraction are equal. -/
theorem eq_of_fields (hx : x < format.patterns)
    (hy : y < format.patterns) (hsign : format.sign x = format.sign y)
    (hexponent : format.exponent x = format.exponent y)
    (hfraction : format.fraction x = format.fraction y) : x = y := by
  have hsize : 0 < format.fractions * format.exponents :=
    Nat.mul_pos format.fractions_pos format.exponents_pos
  have hrest : x % (format.fractions * format.exponents)
      = y % (format.fractions * format.exponents) := by
    rw [Nat.mod_mul, Nat.mod_mul]
    exact congr (congrArg HAdd.hAdd hfraction) (congrArg (format.fractions * ·) hexponent)
  unfold sign at hsign
  rw [Nat.mod_eq_of_lt (Nat.div_lt_of_lt_mul hx), Nat.mod_eq_of_lt (Nat.div_lt_of_lt_mul hy)]
    at hsign
  rw [← Nat.div_add_mod x (format.fractions * format.exponents), hsign, hrest, Nat.div_add_mod]

/-- The kinds of patterns, and what they denote. -/
inductive Decodes (bits : Nat) : FloatValue → Prop
  | infinite (exponent : format.exponent bits + 1 = format.exponents)
      (fraction : format.fraction bits = 0) : Decodes bits (.infinite (format.sign bits = 1))
  | nan : Decodes bits .nan
  | subnormal (exponent : format.exponent bits = 0) :
      Decodes bits (.finite (format.sign bits = 1) (format.fraction bits) format.minExponent false)
  | normal (exponent : 0 < format.exponent bits) :
      Decodes bits (.finite (format.sign bits = 1) (format.fractions + format.fraction bits)
        (format.minExponent + format.exponent bits - 1) (format.fraction bits = 0))

theorem decodes (bits : Nat) : format.Decodes bits (format.decode bits) := by
  have hdecode : format.decode bits =
      if format.exponent bits + 1 = format.exponents then
        if format.fraction bits = 0 then .infinite (format.sign bits = 1) else .nan
      else if format.exponent bits = 0 then
        .finite (format.sign bits = 1) (format.fraction bits) format.minExponent false
      else
        .finite (format.sign bits = 1) (format.fractions + format.fraction bits)
          (format.minExponent + format.exponent bits - 1) (format.fraction bits = 0) := rfl
  rw [hdecode]
  split
  · next hexponent =>
    split
    · next hfraction => exact .infinite hexponent hfraction
    · exact .nan
  · split
    · next hexponent => exact .subnormal hexponent
    · next hexponent => exact .normal (Nat.pos_of_ne_zero hexponent)

/-- Equal values have equal bits, unless they are zeros or not numbers. -/
theorem eq_of_sameConstant (hx : x < format.patterns)
    (hy : y < format.patterns)
    (h : (format.decode x).sameConstant (format.decode y) = true) :
    x = y ∨ (format.decode x = .nan ∧ format.decode y = .nan)
      ∨ (format.IsZero x ∧ format.IsZero y) := by
  have hsign : (decide (format.sign x = 1) = decide (format.sign y = 1)) →
      format.sign x = format.sign y := by
    have hx' := format.sign_lt x
    have hy' := format.sign_lt y
    intro hdecide
    have hiff := decide_eq_decide.mp hdecide
    omega
  have hlow := format.fraction_lt x
  have hlow' := format.fraction_lt y
  unfold IsZero
  generalize hv : format.decode x = v at h
  generalize hw : format.decode y = w at h
  -- Values of two kinds are not the same; a mantissa of a normal one is not less than `fractions`.
  obtain (⟨he, hf⟩ | _ | he | he) := hv ▸ format.decodes x <;>
    obtain (⟨he', hf'⟩ | _ | he' | he') := hw ▸ format.decodes y <;>
    simp only [FloatValue.sameConstant, Bool.or_eq_true, Bool.and_eq_true, beq_iff_eq,
      Bool.false_eq_true] at h
  · exact .inl (format.eq_of_fields hx hy (hsign h) (by omega) (by omega))
  · exact .inr (.inl ⟨rfl, rfl⟩)
  · rcases h with h | ⟨⟨hs, hm⟩, -⟩
    · exact .inr (.inr ⟨⟨he, h.1⟩, he', h.2⟩)
    · exact .inl (format.eq_of_fields hx hy (hsign hs) (by omega) hm)
  · omega
  · omega
  · rcases h with h | ⟨⟨hs, hm⟩, hexponent⟩
    · omega
    · exact .inl (format.eq_of_fields hx hy (hsign hs) (by omega) (by omega))

/-- Zeros of one sign have the same bits. -/
theorem IsZero.eq (hx : x < format.patterns)
    (hy : y < format.patterns) (hx' : format.IsZero x)
    (hy' : format.IsZero y) (hsign : format.sign x = format.sign y) : x = y :=
  format.eq_of_fields hx hy hsign (hx'.1.trans hy'.1.symm) (hx'.2.trans hy'.2.symm)

/-- Equal values, of which none is positive zero, have equal bits, unless they are not numbers. -/
theorem eq_or_nan_of_sameConstant (hx : x < format.patterns)
    (hy : y < format.patterns) (hx' : x ≠ 0) (hy' : y ≠ 0)
    (h : (format.decode x).sameConstant (format.decode y) = true) :
    x = y ∨ (format.decode x = .nan ∧ format.decode y = .nan) := by
  have hpositive : format.IsZero 0 ∧ format.sign 0 = 0 := by
    simp [IsZero, exponent, fraction, sign]
  -- A zero that is not all zero bits has the other sign.
  have hnegative : ∀ bits, bits < format.patterns → bits ≠ 0 →
      format.IsZero bits → format.sign bits = 1 := by
    intro bits hlt hne hzero
    have hsign := format.sign_lt bits
    by_contra hother
    exact hne (IsZero.eq format hlt (by omega) hzero hpositive.1 (by omega))
  rcases format.eq_of_sameConstant hx hy h with heq | hnan | ⟨hzero, hzero'⟩
  · exact .inl heq
  · exact .inr hnan
  · have hsign := (hnegative x hx hx' hzero).trans (hnegative y hy hy' hzero').symm
    exact .inl (IsZero.eq format hx hy hzero hzero' hsign)

end FloatFormat

theorem Binary32.eq_or_nan {v w : Binary32} (hv : v ≠ .zero) (hw : w ≠ .zero)
    (h : v.sameValue w = true) : v = w ∨ (v.value = .nan ∧ w.value = .nan) := by
  have hne : ∀ u : Binary32, u ≠ .zero → u.bits.toNat ≠ 0 := by
    intro u hu hbits
    exact hu (congrArg Binary32.mk (UInt32.toNat_inj.mp hbits))
  rcases FloatFormat.single.eq_or_nan_of_sameConstant v.bits.toNat_lt w.bits.toNat_lt
    (hne v hv) (hne w hw) h with heq | hnan
  · exact .inl (congrArg Binary32.mk (UInt32.toNat_inj.mp heq))
  · exact .inr hnan

theorem Binary64.eq_or_nan {v w : Binary64} (hv : v ≠ .zero) (hw : w ≠ .zero)
    (h : v.sameValue w = true) : v = w ∨ (v.value = .nan ∧ w.value = .nan) := by
  have hne : ∀ u : Binary64, u ≠ .zero → u.bits.toNat ≠ 0 := by
    intro u hu hbits
    exact hu (congrArg Binary64.mk (UInt64.toNat_inj.mp hbits))
  rcases FloatFormat.double.eq_or_nan_of_sameConstant v.bits.toNat_lt w.bits.toNat_lt
    (hne v hv) (hne w hw) h with heq | hnan
  · exact .inl (congrArg Binary64.mk (UInt64.toNat_inj.mp heq))
  · exact .inr hnan

end Number

/-! ## Constants -/

namespace Constant

variable {b c d : Constant}

theorem same_self (c : Constant) : c.same c = true := by
  cases c with
  | float v => exact v.value.sameConstant_self
  | double v => exact v.value.sameConstant_self
  | _ => exact beq_self_eq_true _

theorem same_symm (h : c.same d = true) : d.same c = true := by
  cases c <;> cases d <;> first
    | exact Number.FloatValue.sameConstant_symm h
    | exact beq_iff_eq.mpr (beq_iff_eq.mp h).symm
    | cases h

theorem same_comm (c d : Constant) : c.same d = d.same c :=
  Bool.eq_iff_iff.mpr ⟨same_symm, same_symm⟩

theorem same_trans (h : b.same c = true) (h' : c.same d = true) : b.same d = true := by
  cases b <;> cases c <;> first
    | cases h
    | cases d <;> first
      | cases h'
      | exact Number.FloatValue.sameConstant_trans h h'
      | exact beq_iff_eq.mpr ((beq_iff_eq.mp h).trans (beq_iff_eq.mp h'))

theorem bucket_of_same (h : c.same d = true) : c.bucket = d.bucket := by
  cases c <;> cases d <;> first
    | cases h
    | exact congrArg (· % 509) (Number.FloatValue.digest_of_sameConstant h)
    | exact congrArg _ (congrArg _ (beq_iff_eq.mp h))

/-- The same type and the same bits, where all patterns of not-a-number are one. -/
def Identical : Constant → Constant → Prop
  | float v, float w => v = w ∨ (v.value = .nan ∧ w.value = .nan)
  | double v, double w => v = w ∨ (v.value = .nan ∧ w.value = .nan)
  | c, d => c = d

theorem Identical.refl (c : Constant) : c.Identical c := by
  cases c with
  | float | double => exact .inl rfl
  | _ => rfl

/-- Positive zero has the bits of no other constant, though another one is the same. -/
def isPositiveZero (c : Constant) : Prop := c = float .zero ∨ c = double .zero

theorem identical_of_same (hc : ¬ c.isPositiveZero) (hd : ¬ d.isPositiveZero)
    (h : c.same d = true) : c.Identical d := by
  unfold isPositiveZero at hc hd
  cases c <;> cases d <;> first
    | cases h
    | exact Number.Binary32.eq_or_nan (by simpa using hc) (by simpa using hd) h
    | exact Number.Binary64.eq_or_nan (by simpa using hc) (by simpa using hd) h
    | exact congrArg _ (beq_iff_eq.mp h)

end Constant

end ClassCompiler
