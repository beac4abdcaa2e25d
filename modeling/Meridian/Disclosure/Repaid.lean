import Meridian.Disclosure.Offered

/-!
# Ordinary rates repay the principal

The payments of a level loan are worth more than the principal by about `(n + 1) / 2` months of interest,
and the roundings of the payment take less than that away once the rate is `10 ^ -8` per cent
(`covers_of_rate`). Below that the factor `1 + r` keeps too few digits of `r`.
-/

namespace Meridian.Disclosure

open Python Numeric

/-- The relative error of an operation of 28 digits. -/
def unitError : ℚ := 1 / (2 * 10 ^ 27)

/-- A rounded operation of at least 28 digits. -/
theorem roundTo_error {w : ℕ} (hw : 28 ≤ w) (x : ℚ) : |roundTo w x - x| ≤ |x| * unitError := by
  have hplace : (10 : ℚ) ^ (1 - (w : ℤ)) / 2 ≤ unitError := by
    have hle : (10 : ℚ) ^ (1 - (w : ℤ)) ≤ 10 ^ (-27 : ℤ) :=
      zpow_le_zpow_right₀ (by norm_num) (by omega)
    have heq : unitError = (10 : ℚ) ^ (-27 : ℤ) / 2 := by
      rw [unitError]
      norm_num
    rw [heq]
    exact div_le_div_of_nonneg_right hle (by norm_num)
  exact (roundTo_near w x).trans (mul_le_mul_of_nonneg_left hplace (abs_nonneg x))

theorem fix_error (x : ℚ) : |Context.default.fix x - x| ≤ |x| * unitError :=
  roundTo_error le_rfl x

theorem roundTo_le {w : ℕ} (hw : 28 ≤ w) {x : ℚ} (hx : 0 ≤ x) : roundTo w x ≤ x * (1 + unitError) := by
  have herror := (abs_le.mp (roundTo_error hw x)).2
  rw [abs_of_nonneg hx] at herror
  linarith

theorem le_roundTo {w : ℕ} (hw : 28 ≤ w) {x : ℚ} (hx : 0 ≤ x) : x * (1 - unitError) ≤ roundTo w x := by
  have herror := (abs_le.mp (roundTo_error hw x)).1
  rw [abs_of_nonneg hx] at herror
  linarith

theorem le_fix {x : ℚ} (hx : 0 ≤ x) : x * (1 - unitError) ≤ Context.default.fix x :=
  le_roundTo le_rfl hx

theorem fix_le {x : ℚ} (hx : 0 ≤ x) : Context.default.fix x ≤ x * (1 + unitError) :=
  roundTo_le (by norm_num) hx

/-- A rounded power is above the power by two roundings for each factor. -/
theorem power_le {b : ℚ} {n : ℤ} (hb : 1 ≤ b) (hn : 1 ≤ n) :
    Context.default.power b n ≤ (b * (1 + unitError) ^ 2) ^ n.natAbs := by
  have hu : 0 < unitError := by norm_num [unitError]
  have hloop : ∀ w : ℕ, 28 ≤ w → ∀ fuel k, 1 ≤ k → k ≤ fuel →
      0 ≤ (⟨some w⟩ : Context).powerLoop b fuel k ∧
        (⟨some w⟩ : Context).powerLoop b fuel k * (1 + unitError) ≤ (b * (1 + unitError) ^ 2) ^ k := by
    intro w hw fuel
    induction fuel with
    | zero => omega
    | succ fuel ih =>
      intro k hk hfuel
      rw [Context.powerLoop, if_neg (by omega)]
      by_cases h1 : k = 1
      · rw [if_pos h1, h1, pow_one]
        exact ⟨by linarith, mul_le_mul_of_nonneg_left (le_self_pow₀ (by linarith) (by norm_num)) (by linarith)⟩
      · rw [if_neg h1]
        obtain ⟨hhalf0, hhalf⟩ := ih (k / 2) (by omega) (by omega)
        set half := (⟨some w⟩ : Context).powerLoop b fuel (k / 2)
        have hsq0 : 0 ≤ roundTo w (half * half) := roundTo_nonneg w (mul_nonneg hhalf0 hhalf0)
        have hsq : roundTo w (half * half) * (1 + unitError) ≤
            (b * (1 + unitError) ^ 2) ^ (k / 2 + k / 2) := by
          rw [pow_add]
          calc roundTo w (half * half) * (1 + unitError)
              ≤ half * half * (1 + unitError) * (1 + unitError) :=
                mul_le_mul_of_nonneg_right (roundTo_le hw (mul_nonneg hhalf0 hhalf0)) (by linarith)
            _ = half * (1 + unitError) * (half * (1 + unitError)) := by ring
            _ ≤ _ := mul_le_mul hhalf hhalf (mul_nonneg hhalf0 (by linarith)) (by positivity)
        split_ifs with hodd
        · have hstep : k = k / 2 + k / 2 + 1 := by omega
          have hprod : 0 ≤ roundTo w (half * half) * b := mul_nonneg hsq0 (by linarith)
          refine ⟨roundTo_nonneg w hprod, ?_⟩
          rw [hstep, pow_succ]
          calc roundTo w (roundTo w (half * half) * b) * (1 + unitError)
              ≤ roundTo w (half * half) * b * (1 + unitError) * (1 + unitError) :=
                mul_le_mul_of_nonneg_right (roundTo_le hw hprod) (by linarith)
            _ = roundTo w (half * half) * (b * (1 + unitError) ^ 2) := by ring
            _ ≤ roundTo w (half * half) * (1 + unitError) * (b * (1 + unitError) ^ 2) := by
                refine mul_le_mul_of_nonneg_right ?_ (by positivity)
                exact le_mul_of_one_le_right hsq0 (by linarith)
            _ ≤ _ := mul_le_mul_of_nonneg_right hsq (by positivity)
        · have hstep : k = k / 2 + k / 2 := by omega
          refine ⟨hsq0, ?_⟩
          rw [hstep]
          exact hsq
  obtain ⟨hnonneg, hle⟩ := hloop (28 + (Decimal.numDigits n.natAbs + 2)) (by omega) n.natAbs n.natAbs
    (by omega) le_rfl
  rw [Context.power, if_pos (by omega)]
  exact (fix_le hnonneg).trans hle

/-- Compound interest outgrows what it is discounted by. -/
theorem growth_mul_le {r : ℚ} (hr : 0 ≤ r) (hr' : r ≤ 1) {n : ℕ} (hn : 2 ≤ n) :
    (1 + r) ^ n * (1 - n * r + r ^ 2) ≤ 1 := by
  induction n, hn using Nat.le_induction with
  | base =>
    have hsq : (1 + r) ^ 2 * (1 - (2 : ℕ) * r + r ^ 2) = (1 - r ^ 2) ^ 2 := by
      push_cast
      ring
    rw [hsq]
    exact pow_le_one₀ (by nlinarith) (by nlinarith)
  | succ n hn ih =>
    have hstep : (1 + r) * (1 - (n + 1 : ℕ) * r + r ^ 2) ≤ 1 - n * r + r ^ 2 := by
      have hnq : (0 : ℚ) ≤ n := Nat.cast_nonneg n
      have hcube : r ^ 3 ≤ r ^ 2 := pow_le_pow_of_le_one hr hr' (by norm_num)
      have hsq : 0 ≤ n * r ^ 2 := by positivity
      push_cast
      nlinarith
    calc (1 + r) ^ (n + 1) * (1 - (n + 1 : ℕ) * r + r ^ 2)
        = (1 + r) ^ n * ((1 + r) * (1 - (n + 1 : ℕ) * r + r ^ 2)) := by ring
      _ ≤ (1 + r) ^ n * (1 - n * r + r ^ 2) := mul_le_mul_of_nonneg_left hstep (by positivity)
      _ ≤ 1 := ih

/-- The factor that is computed does the same, with room for the roundings of the payment. -/
theorem factor_mul_le {r : ℚ} {n : ℤ} (hlow : 8 / 10 ^ 12 ≤ r) (hhigh : r ≤ 1) (hn : 2 ≤ n)
    (hn' : n ≤ 60) :
    Context.default.power (Context.default.fix (1 + r)) n * (1 - n * r + 4 * unitError * (n * r)) ≤ 1 := by
  have hb : 1 ≤ Context.default.fix (1 + r) := by
    have hmono := fix_mono (show (1 : ℚ) ≤ 1 + r by linarith)
    rwa [fix_one] at hmono
  have hpower := power_le hb (show 1 ≤ n by omega)
  obtain ⟨m, rfl⟩ := Int.eq_ofNat_of_zero_le (show 0 ≤ n by omega)
  rw [Int.natAbs_natCast] at hpower
  rw [Int.cast_natCast]
  have hm : 2 ≤ m := by omega
  have hm' : (m : ℚ) ≤ 60 := by exact_mod_cast (by omega : m ≤ 60)
  have hm0 : (2 : ℚ) ≤ m := by exact_mod_cast hm
  have hu : unitError = 1 / (2 * 10 ^ 27) := rfl
  have hupos : 0 < unitError := by norm_num [unitError]
  set F := Context.default.power (Context.default.fix (1 + r)) m
  have hF : 1 ≤ F := hb.trans (le_power hb (fix_idem _) (by omega))
  -- three roundings for each factor
  have hcompound : F ≤ (1 + r) ^ m * (1 + 10 ^ 3 * unitError) := by
    have hone : (1 + unitError) ^ 180 ≤ 1 + 10 ^ 3 * unitError := by
      rw [hu]
      norm_num
    calc F ≤ (Context.default.fix (1 + r) * (1 + unitError) ^ 2) ^ m := hpower
      _ ≤ ((1 + r) * (1 + unitError) * (1 + unitError) ^ 2) ^ m := by
          gcongr
          exact fix_le (by linarith)
      _ = (1 + r) ^ m * (1 + unitError) ^ (3 * m) := by
          rw [mul_assoc, ← pow_succ', mul_pow, pow_mul]
      _ ≤ (1 + r) ^ m * (1 + unitError) ^ 180 := by
          gcongr
          · linarith
          · omega
      _ ≤ (1 + r) ^ m * (1 + 10 ^ 3 * unitError) := by gcongr
  set X := 1 - m * r + 4 * unitError * (m * r) with hX
  by_cases hneg : X ≤ 0
  · nlinarith
  · have hXpos : 0 < X := not_le.mp hneg
    have hsquare : (8 / 10 ^ 12) ^ 2 ≤ r ^ 2 := pow_le_pow_left₀ (by norm_num) hlow 2
    have hcross : 4 * unitError * (m * r) ≤ 240 * unitError := by
      have hmr : m * r ≤ 60 * 1 := mul_le_mul hm' hhigh (by linarith) (by norm_num)
      calc 4 * unitError * (m * r) ≤ 4 * unitError * (60 * 1) :=
            mul_le_mul_of_nonneg_left hmr (by positivity)
        _ = 240 * unitError := by ring
    have hmr0 : 0 ≤ m * r := by positivity
    have hXle : X ≤ 2 := by
      have hsmall : 240 * unitError ≤ 1 := by norm_num [unitError]
      linarith
    have hbound : (1 + 10 ^ 3 * unitError) * X ≤ 1 - m * r + r ^ 2 := by
      have hrest : 10 ^ 3 * unitError * X ≤ 10 ^ 3 * unitError * 2 :=
        mul_le_mul_of_nonneg_left hXle (by positivity)
      have hroom : 2240 * unitError ≤ (8 / 10 ^ 12) ^ 2 := by norm_num [unitError]
      linarith
    calc F * X ≤ (1 + r) ^ m * (1 + 10 ^ 3 * unitError) * X :=
          mul_le_mul_of_nonneg_right hcompound hXpos.le
      _ = (1 + r) ^ m * ((1 + 10 ^ 3 * unitError) * X) := by ring
      _ ≤ (1 + r) ^ m * (1 - m * r + r ^ 2) := mul_le_mul_of_nonneg_left hbound (by positivity)
      _ ≤ 1 := growth_mul_le (by linarith) hhigh hm

/-- The payments bring in the principal. -/
theorem principal_le_payments {principal rate payment : ℚ} {n : ℤ} (hp : 0 < principal)
    (hrate : 1 / 10 ^ 8 ≤ rate) (hrate' : rate ≤ 60) (hn : 12 ≤ n) (hn' : n ≤ 60)
    (h : monthlyPayment .default principal rate n = .ok payment) : principal ≤ payment * n := by
  have hu : 0 < unitError := by norm_num [unitError]
  have hu' : unitError ≤ 1 / 1000 := by norm_num [unitError]
  have hhigh := monthlyRate_le (show 0 ≤ rate by linarith) hrate'
  have hlow : 8 / 10 ^ 12 ≤ monthlyRate .default rate := by
    have hyear := le_fix (show 0 ≤ rate / 100 by linarith)
    have hyear0 := fix_nonneg (show 0 ≤ rate / 100 by linarith)
    have hmonth := le_fix (show 0 ≤ Context.default.fix (rate / 100) / 12 by linarith)
    have hyear' : rate / 100 * (999 / 1000) ≤ Context.default.fix (rate / 100) := by nlinarith
    have hmonth' : Context.default.fix (rate / 100) / 12 * (999 / 1000) ≤ monthlyRate .default rate := by
      unfold monthlyRate
      nlinarith
    linarith
  obtain ⟨_, -, h⟩ := of_bind_ok h
  set r := monthlyRate .default rate
  have hfactor := factor_mul_le hlow hhigh (show 2 ≤ n by omega) hn'
  rw [if_neg (show r ≠ 0 by linarith)] at h
  have h := of_raising_ok h
  set F := Context.default.power (Context.default.fix (1 + r)) n with hF
  have hb : 1 ≤ Context.default.fix (1 + r) := by
    have hmono := fix_mono (show (1 : ℚ) ≤ 1 + r by linarith)
    rwa [fix_one] at hmono
  have hge : 1 ≤ F := hb.trans (le_power hb (fix_idem _) (by omega))
  have hnq : (12 : ℚ) ≤ n := by exact_mod_cast hn
  unfold Context.div at h
  split_ifs at h with hzero
  cases h
  have hpr : 0 ≤ principal * r := mul_nonneg hp.le (by linarith)
  have hprod : 0 ≤ Context.default.fix (principal * r) * F := mul_nonneg (fix_nonneg hpr) (by linarith)
  have hden : 0 < Context.default.fix (F - 1) :=
    lt_of_le_of_ne (fix_nonneg (by linarith)) (Ne.symm hzero)
  set N := Context.default.fix (Context.default.fix (principal * r) * F) with hN
  set D := Context.default.fix (F - 1) with hD
  -- the roundings of the payment, one after the other
  have hnumerator : principal * r * F * (1 - unitError) ^ 2 ≤ N := by
    calc principal * r * F * (1 - unitError) ^ 2
        = principal * r * (1 - unitError) * F * (1 - unitError) := by ring
      _ ≤ Context.default.fix (principal * r) * F * (1 - unitError) := by
          refine mul_le_mul_of_nonneg_right ?_ (by linarith)
          exact mul_le_mul_of_nonneg_right (le_fix hpr) (by linarith)
      _ ≤ N := le_fix hprod
  have hquotient : N * (1 - unitError) ≤ Context.default.fix (N / D) * D := by
    have hle := mul_le_mul_of_nonneg_right (le_fix (div_nonneg (fix_nonneg hprod) hden.le)) hden.le
    calc N * (1 - unitError) = N / D * (1 - unitError) * D := by field_simp
      _ ≤ Context.default.fix (N / D) * D := hle
  have hdenominator : D ≤ (F - 1) * (1 + unitError) := fix_le (by linarith)
  have hworth : F - 1 ≤ n * r * F * (1 - 4 * unitError) := by linarith
  have herrors : (1 - 4 * unitError) * (1 + unitError) ≤ (1 - unitError) ^ 3 := by
    have hcube : unitError ^ 3 ≤ unitError ^ 2 := pow_le_pow_of_le_one hu.le (by linarith) (by norm_num)
    nlinarith
  have hnrF : 0 ≤ n * r * F := by
    have : 0 ≤ r := by linarith
    positivity
  refine le_of_mul_le_mul_right ?_ hden
  calc principal * D ≤ principal * ((F - 1) * (1 + unitError)) :=
        mul_le_mul_of_nonneg_left hdenominator hp.le
    _ ≤ principal * (n * r * F * (1 - 4 * unitError) * (1 + unitError)) := by
        refine mul_le_mul_of_nonneg_left ?_ hp.le
        exact mul_le_mul_of_nonneg_right hworth (by linarith)
    _ = principal * (n * r * F) * ((1 - 4 * unitError) * (1 + unitError)) := by ring
    _ ≤ principal * (n * r * F) * (1 - unitError) ^ 3 :=
        mul_le_mul_of_nonneg_left herrors (mul_nonneg hp.le hnrF)
    _ = n * (principal * r * F * (1 - unitError) ^ 2 * (1 - unitError)) := by ring
    _ ≤ n * (N * (1 - unitError)) := by
        refine mul_le_mul_of_nonneg_left ?_ (by linarith)
        exact mul_le_mul_of_nonneg_right hnumerator (by linarith)
    _ ≤ n * (Context.default.fix (N / D) * D) := mul_le_mul_of_nonneg_left hquotient (by linarith)
    _ = Context.default.fix (N / D) * n * D := by ring

/-- **An ordinary rate covers the principal.** -/
theorem covers_of_rate {s : FeeSchedule} {t : Terms} (h : 1 / 10 ^ 8 ≤ toDecimal t.annualRate) :
    Covers s t := by
  intro interest fee hinterest hfee
  have hp := toDecimal_pos t.principal_bounds.1
  have hfee0 := (fee_bounds (fee_pct_le s) hp hfee).1
  obtain ⟨_, -, hinterest⟩ := of_bind_ok hinterest
  obtain ⟨payment, hpayment, hinterest⟩ := of_bind_ok hinterest
  cases hinterest
  have hrepaid := fix_mono (principal_le_payments hp h (rate_bound t).2 t.term_bounds.1 t.term_bounds.2
    hpayment)
  rw [fix_toDecimal t.principal_bounds.1.le] at hrepaid
  have hinterest := fix_nonneg (sub_nonneg.mpr hrepaid)
  linarith

end Meridian.Disclosure
