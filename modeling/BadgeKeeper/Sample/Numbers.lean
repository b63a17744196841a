import Mathlib.Tactic
import BadgeKeeper.Foundation

/-!
The numbers that the sample converts and prints: an integer passed where a
double is expected, `%ld` of an integer and `%f` of a double. Both conversions
that round go to the nearest value, and to the even one of two.
-/

namespace BadgeKeeper

/-- The integer nearest to a quotient. -/
def roundHalfEven (num den : Nat) : Nat :=
  if den < 2 * (num % den) ∨ 2 * (num % den) = den ∧ num / den % 2 = 1 then num / den + 1
  else num / den

namespace Double

/-- An integer as a double: the significand is the integer shifted to 53 bits,
and its highest bit adds one to the exponent field. -/
def ofNat (n : Nat) : Double :=
  if n = 0 then zero
  else
    let exponent := n.log2
    let significand :=
      if exponent ≤ 52 then n * 2 ^ (52 - exponent)
      else roundHalfEven n (2 ^ (exponent - 52))
    ⟨UInt64.ofNat ((exponent + 1022) * 2 ^ 52 + significand)⟩

/-- Integers of at most 53 bits are exact. -/
theorem toRat_ofNat {n : Nat} (h : n < 2 ^ 53) : (ofNat n).toRat = n := by
  by_cases hzero : n = 0
  · subst hzero
    decide +kernel
  · have hlow : 2 ^ n.log2 ≤ n := Nat.log2_self_le hzero
    have hhigh : n < 2 ^ (n.log2 + 1) := Nat.lt_log2_self
    have hexponent : n.log2 ≤ 52 := by
      by_contra hlarge
      have hpower : 2 ^ 53 ≤ 2 ^ n.log2 := Nat.pow_le_pow_right (by omega) (by omega)
      omega
    obtain ⟨fraction, hsignificand, hfraction⟩ : ∃ fraction,
        n * 2 ^ (52 - n.log2) = 2 ^ 52 + fraction ∧ fraction < 2 ^ 52 := by
      have hshift : 2 ^ n.log2 * 2 ^ (52 - n.log2) = 2 ^ 52 := by
        rw [← pow_add]
        congr 1
        omega
      have hpos : 0 < 2 ^ (52 - n.log2) := Nat.two_pow_pos _
      have hmore := Nat.mul_le_mul_right (2 ^ (52 - n.log2)) hlow
      have hless := (Nat.mul_lt_mul_right hpos).mpr hhigh
      rw [pow_succ, Nat.mul_right_comm, hshift] at hless
      rw [hshift] at hmore
      exact ⟨n * 2 ^ (52 - n.log2) - 2 ^ 52, by omega, by omega⟩
    have hbits : (ofNat n).bits.toNat = (n.log2 + 1023) * 2 ^ 52 + fraction := by
      simp only [ofNat, if_neg hzero, if_pos hexponent, hsignificand, UInt64.toNat_ofNat']
      omega
    have hbiased : (ofNat n).biasedExponent = n.log2 + 1023 := by
      rw [biasedExponent, hbits]
      omega
    have hrest : (ofNat n).fraction = fraction := by
      rw [Double.fraction, hbits]
      omega
    have hsign : (ofNat n).isNegative = false := by
      rw [isNegative, hbits]
      apply decide_eq_false
      omega
    have hnormal : n.log2 + 1023 ≠ 0 := by omega
    have hexact : ((2 : ℚ) ^ 52 + fraction) = n * 2 ^ (52 - n.log2) := by
      exact_mod_cast hsignificand.symm
    have hscale : (2 : ℚ) ^ (52 - n.log2) * 2 ^ (((n.log2 + 1023 : Nat) : ℤ) - 1075) = 1 := by
      have hsum : ((52 - n.log2 : Nat) : ℤ) + (((n.log2 + 1023 : Nat) : ℤ) - 1075) = 0 := by
        omega
      rw [← zpow_natCast, ← zpow_add₀ (by norm_num), hsum, zpow_zero]
    simp only [toRat, hsign, hbiased, hrest, if_neg hnormal, hexact, mul_assoc, hscale, mul_one]
    rfl

/-- The six digits behind the point. -/
def millionths (n : Nat) : NSString :=
  (List.range 6).map fun place => UInt16.ofNat (0x30 + n / 10 ^ (5 - place) % 10)

/-- `%f` -/
def fixed (d : Double) : NSString :=
  if d.isNaN then ns "nan"
  else
    let sign := if d.isNegative then ns "-" else []
    if d.isFinite then
      let scaled := roundHalfEven (d.toRat.num.natAbs * 10 ^ 6) d.toRat.den
      sign ++ ns (toString (scaled / 10 ^ 6)) ++ ns "." ++ millionths (scaled % 10 ^ 6)
    else sign ++ ns "inf"

end Double

/-- `%ld` of a code that was cast to `unsigned long`, which extends its sign. -/
def formatCode (code : Int32) : NSString := ns (toString code.toInt)

end BadgeKeeper
