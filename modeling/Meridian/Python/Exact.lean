import Meridian.Python.Nearest

/-!
# Numbers a float holds

A number that is a float rounds to that float (`ofRat_toRat`), and every integer below `2 ^ 53` in
magnitude is one (`ofRat_intCast`). `Double.numEq` is `==`, which compares numbers: the two zeros are
equal, and a NaN equals nothing.
-/

namespace Meridian.Python

open Numeric

namespace F64

theorem value_eq_zpow (f : F64) : f.value = f.mant * 2 ^ f.exp := by
  rw [value_eq, quarter, zpow_sub₀ (by norm_num)]
  ring

theorem abs_toRat (f : F64) : |f.toRat| = f.mant * 2 ^ f.exp := by
  have hpos : (0 : ℚ) ≤ f.mant * 2 ^ f.exp := by positivity
  unfold toRat
  rw [value_eq_zpow]
  split
  · rw [abs_neg, abs_of_nonneg hpos]
  · rw [abs_of_nonneg hpos]

/-- The last place of a float is the exponent it has. -/
theorem lastPlace_toRat (f : F64) (hm : f.mant ≠ 0) : lastPlace f.toRat = f.exp := by
  have hmant : (0 : ℚ) < f.mant := by exact_mod_cast Nat.pos_of_ne_zero hm
  have hpos : (0 : ℚ) < f.mant * 2 ^ f.exp := by positivity
  have hexp : (0 : ℚ) < 2 ^ f.exp := by positivity
  rw [lastPlace, abs_toRat]
  rcases f.canonical with ⟨hlt, he⟩ | ⟨hle, hlt, he, -⟩
  · have hlog : Int.log 2 (f.mant * 2 ^ f.exp : ℚ) < 52 + f.exp := by
      have hlt : (f.mant : ℚ) < 2 ^ 52 := by exact_mod_cast hlt
      refine (Int.lt_zpow_iff_log_lt (by norm_num) hpos).mp ?_
      push_cast
      rw [zpow_add₀ (by norm_num)]
      exact mul_lt_mul_of_pos_right (by exact_mod_cast hlt) hexp
    omega
  · have hlow : 52 + f.exp ≤ Int.log 2 (f.mant * 2 ^ f.exp : ℚ) := by
      have hle : (2 : ℚ) ^ 52 ≤ f.mant := by exact_mod_cast hle
      refine (Int.zpow_le_iff_le_log (by norm_num) hpos).mp ?_
      push_cast
      rw [zpow_add₀ (by norm_num)]
      exact mul_le_mul_of_nonneg_right (by exact_mod_cast hle) hexp.le
    have hhigh : Int.log 2 (f.mant * 2 ^ f.exp : ℚ) < 53 + f.exp := by
      have hlt : (f.mant : ℚ) < 2 ^ 53 := by exact_mod_cast hlt
      refine (Int.lt_zpow_iff_log_lt (by norm_num) hpos).mp ?_
      push_cast
      rw [zpow_add₀ (by norm_num)]
      exact mul_lt_mul_of_pos_right (by exact_mod_cast hlt) hexp
    omega

theorem toRat_neg_iff (f : F64) (hm : f.mant ≠ 0) : f.toRat < 0 ↔ f.neg = true := by
  have hmant : (0 : ℚ) < f.mant := by exact_mod_cast Nat.pos_of_ne_zero hm
  have hpos : (0 : ℚ) < f.mant * 2 ^ f.exp := by positivity
  unfold toRat
  rw [value_eq_zpow]
  cases f.neg with
  | true => simpa using hpos
  | false => simpa using hpos.le

end F64

namespace Double

/-- **A float is its own rounding.** -/
theorem ofRat_toRat (f : F64) (hm : f.mant ≠ 0) : ofRat f.toRat = finite f := by
  have hmant : (0 : ℚ) < f.mant := by exact_mod_cast Nat.pos_of_ne_zero hm
  have hexp : (2 : ℚ) ^ f.exp ≠ 0 := by positivity
  have hne : f.toRat ≠ 0 := by
    rw [← abs_pos, f.abs_toRat]
    positivity
  have hwhole : halfEven (|f.toRat| / 2 ^ f.exp) = (f.mant : ℤ) := by
    rw [f.abs_toRat, mul_div_cancel_right₀ _ hexp, ← Int.cast_natCast, halfEven_intCast]
  have hneg : decide (f.toRat < 0) = f.neg := by
    rw [Bool.eq_iff_iff, decide_eq_true_iff]
    exact f.toRat_neg_iff hm
  have hcanonical : F64.Canonical f.mant f.exp := f.canonical
  rw [ofRat, if_neg hne, f.lastPlace_toRat hm, hwhole, hneg, Int.toNat_natCast]
  exact dif_pos hcanonical

/-- Every integer below `2 ^ 53` is a float. -/
theorem exists_toRat_eq {n : ℕ} (h0 : n ≠ 0) (h : n < 2 ^ 53) :
    ∃ f : F64, f.mant ≠ 0 ∧ f.neg = false ∧ f.toRat = n := by
  have hlog : Nat.log 2 n ≤ 52 := Nat.lt_succ_iff.mp (Nat.log_lt_of_lt_pow h0 h)
  have hlow : 2 ^ Nat.log 2 n ≤ n := Nat.pow_log_le_self 2 h0
  have hhigh : n < 2 ^ (Nat.log 2 n + 1) := Nat.lt_pow_succ_log_self (by norm_num) n
  have hscale : 2 ^ Nat.log 2 n * 2 ^ (52 - Nat.log 2 n) = 2 ^ 52 := by
    rw [← pow_add]
    congr 1
    omega
  have hscale' : 2 ^ (Nat.log 2 n + 1) * 2 ^ (52 - Nat.log 2 n) = 2 ^ 53 := by
    rw [← pow_add]
    congr 1
    omega
  have hcanonical : F64.Canonical (n * 2 ^ (52 - Nat.log 2 n)) (-((52 - Nat.log 2 n : ℕ) : ℤ)) := by
    refine .inr ⟨?_, ?_, by omega, by omega⟩
    · rw [← hscale]
      exact Nat.mul_le_mul_right _ hlow
    · rw [← hscale']
      exact Nat.mul_lt_mul_of_pos_right hhigh (by positivity)
  refine ⟨⟨false, _, _, hcanonical⟩, ?_, rfl, ?_⟩
  · exact Nat.mul_ne_zero h0 (by positivity)
  · rw [F64.toRat, F64.value_eq_zpow]
    push_cast
    rw [zpow_neg, zpow_natCast, mul_assoc, mul_inv_cancel₀ (by positivity), mul_one]

theorem ofRat_natCast {n : ℕ} (h : n < 2 ^ 53) :
    ∃ f : F64, ofRat n = finite f ∧ f.toRat = n := by
  by_cases h0 : n = 0
  · refine ⟨.zero, ?_, ?_⟩
    · rw [h0, ofRat, if_pos Nat.cast_zero]
    · have hzero : F64.zero.value = 0 := by
        rw [F64.value_eq_zpow, show F64.zero.mant = 0 from rfl, Nat.cast_zero, zero_mul]
      rw [h0, F64.toRat, hzero, neg_zero, ite_self, Nat.cast_zero]
  · obtain ⟨f, hm, -, hf⟩ := exists_toRat_eq h0 h
    exact ⟨f, by rw [← hf, ofRat_toRat f hm], hf⟩

/-- `x == y` -/
def numEq : Double → Double → Bool
  | finite f, finite g => f.toRat = g.toRat
  | infinite neg, infinite neg' => neg = neg'
  | _, _ => false

theorem numEq_ofRat_natCast {m n : ℕ} (hm : m < 2 ^ 53) (hn : n < 2 ^ 53) :
    (ofRat m).numEq (ofRat n) = decide (m = n) := by
  obtain ⟨f, hf, hfm⟩ := ofRat_natCast hm
  obtain ⟨g, hg, hgn⟩ := ofRat_natCast hn
  rw [hf, hg, numEq, hfm, hgn]
  simp

end Double

end Meridian.Python
