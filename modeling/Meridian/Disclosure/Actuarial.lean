import Meridian.Disclosure.Apr
import Meridian.Numeric.Annuity

/-!
# The disclosed rate is the actuarial rate

Read as exact rationals, the level payment is the one whose value at the note rate is the principal
(`payment_annuity`), and `_present_value` is the value of the payments at a rate, its special case
at zero included (`presentValue_eq`). So the bracket of `compute_apr` holds the one rate at which
the payments are worth the amount financed, and the rate it returns is that rate up to the width of
the bracket and its own rounding (`apr_actuarial`).
-/

namespace Meridian.Disclosure

open Python Numeric

variable {feePct principal rate pmt financed : ℚ} {n : ℤ}

/-- The value of the payments at a rate above `-1`. -/
theorem presentValue_eq (pmt : ℚ) {i : ℚ} (hi : -1 < i) (hn : 0 ≤ n) :
    presentValue .exact pmt i n = pmt * annuity n.toNat i := by
  have hterm : ((n.toNat : ℕ) : ℤ) = n := Int.toNat_of_nonneg hn
  have hone : 1 + i ≠ 0 := by linarith
  unfold presentValue
  simp only [Context.exact_fix, Context.exact_power]
  by_cases h0 : i = 0
  · have hcast : (n : ℚ) = (n.toNat : ℚ) := by exact_mod_cast hterm.symm
    rw [if_pos h0, h0, annuity_rate_zero, hcast]
  · rw [if_neg h0, annuity_eq _ hone h0, ← hterm, Int.toNat_natCast, zpow_neg, zpow_natCast,
      inv_pow, mul_div_assoc]

/-- **The level payment** repays the principal at the note rate. -/
theorem payment_annuity (hr : 0 ≤ rate) (h : monthlyPayment .exact principal rate n = .ok pmt) :
    0 < principal ∧ 0 < n ∧ pmt * annuity n.toNat (rate / 100 / 12) = principal := by
  obtain ⟨u, hvalid, h⟩ := of_bind_ok h
  obtain ⟨hp, hn⟩ := validate_ok hvalid
  refine ⟨hp, hn, ?_⟩
  obtain ⟨m, hm⟩ := Int.eq_ofNat_of_zero_le hn.le
  have hm0 : m ≠ 0 := by omega
  subst hm
  have hrate : 0 ≤ rate / 100 / 12 := by positivity
  simp only [monthlyRate, Context.exact_fix, Context.exact_power, zpow_natCast,
    Int.toNat_natCast] at h ⊢
  generalize rate / 100 / 12 = r at h hrate ⊢
  by_cases h0 : r = 0
  · rw [if_pos h0] at h
    cases h
    have hcast : ((m : ℕ) : ℚ) ≠ 0 := Nat.cast_ne_zero.mpr hm0
    rw [h0, annuity_rate_zero, Int.cast_natCast, div_mul_cancel₀ _ hcast]
  · rw [if_neg h0] at h
    have hpos : 0 < r := lt_of_le_of_ne hrate (Ne.symm h0)
    have hgrow : 1 < (1 + r) ^ m := one_lt_pow₀ (by linarith) hm0
    have hdiv := of_raising_ok h
    rw [Context.exact_div (by linarith)] at hdiv
    cases hdiv
    have hone : 1 + r ≠ 0 := by linarith
    have hden : (1 + r) ^ m - 1 ≠ 0 := by linarith
    have hfactor : (1 + r) ^ m ≠ 0 := by linarith
    rw [annuity_eq _ hone h0, inv_pow]
    generalize (1 + r) ^ m = factor at hden hfactor ⊢
    field_simp

/-- The fee is not negative, so no more than the principal is financed. -/
theorem financed_le (hp : 0 < principal) (hfee : 0 ≤ feePct)
    (h : amountFinanced .exact feePct principal = .ok financed) : financed ≤ principal := by
  obtain ⟨fee, hfee', h⟩ := of_bind_ok h
  have hquantize := of_raising_ok hfee'
  rw [Context.exact_quantize] at hquantize
  cases hquantize
  cases h
  have hround : (0 : ℤ) ≤ halfUp (principal * feePct / cents) := by
    have hmono := halfUp_mono (K := ℚ) (x := ((0 : ℤ) : ℚ)) (y := principal * feePct / cents)
      (by unfold cents; push_cast; positivity)
    rwa [halfUp_intCast] at hmono
  have hround : (0 : ℚ) ≤ halfUp (principal * feePct / cents) := by exact_mod_cast hround
  have hcharge : 0 ≤ (halfUp (principal * feePct / cents) : ℚ) * cents :=
    mul_nonneg hround (by unfold cents; norm_num)
  simp only [Context.exact_fix]
  linarith

/-- **The bracket** after `k` steps: the payments are worth no less than the amount financed at its
lower end and no more at its upper one, and its width is `2 ^ -k`. -/
theorem bracket_spec (hzero : financed ≤ presentValue .exact pmt 0 n)
    (hone : presentValue .exact pmt 1 n ≤ financed) (k : ℕ) :
    financed ≤ presentValue .exact pmt (bracket .exact pmt financed n k).1 n ∧
      presentValue .exact pmt (bracket .exact pmt financed n k).2 n ≤ financed ∧
      (bracket .exact pmt financed n k).2 - (bracket .exact pmt financed n k).1 = 1 / 2 ^ k := by
  have hends := bisect_spec midpoint (p := fun i => financed ≤ presentValue .exact pmt i n)
    (q := fun i => presentValue .exact pmt i n ≤ financed)
    (fun i (hi : decide (financed < presentValue .exact pmt i n) = true) =>
      (of_decide_eq_true hi).le)
    (fun i hi => not_lt.mp (of_decide_eq_false hi)) (b := (0, 1)) ⟨hzero, hone⟩ k
  have hwidth := width_bisect (fun mid => decide (financed < presentValue .exact pmt mid n))
    ((0, 1) : ℚ × ℚ) k
  rw [sub_zero] at hwidth
  exact ⟨hends.1, hends.2, hwidth⟩

/-- The bracket lies between no interest and twelve hundred per cent. -/
theorem bracket_within (pmt financed : ℚ) (n : ℤ) (k : ℕ) :
    0 ≤ (bracket .exact pmt financed n k).1 ∧
    (bracket .exact pmt financed n k).1 ≤ (bracket .exact pmt financed n k).2 :=
  have hwithin := bisect_within (fun mid => decide (financed < presentValue .exact pmt mid n))
    (b := ((0, 1) : ℚ × ℚ)) zero_le_one k
  ⟨hwithin.1, hwithin.2.1⟩

/-- With exact arithmetic the level payment and the amount financed are always there. -/
theorem exact_returns (feePct : ℚ) (hp : 0 < principal) (hr : 0 ≤ rate) (hn : 1 ≤ n) :
    (∃ pmt, monthlyPayment .exact principal rate n = .ok pmt) ∧
      ∃ financed, amountFinanced .exact feePct principal = .ok financed := by
  refine ⟨?_, _, rfl⟩
  unfold monthlyPayment
  simp only [validate_eq hp (show 0 < n by omega), bind, Except.bind, monthlyRate,
    Context.exact_fix, Context.exact_power]
  by_cases h0 : rate / 100 / 12 = 0
  · exact ⟨_, if_pos h0⟩
  · have hrate : 0 ≤ rate / 100 / 12 := by positivity
    have hpos : 0 < rate / 100 / 12 := lt_of_le_of_ne hrate (Ne.symm h0)
    have hgrow : 1 < (1 + rate / 100 / 12) ^ n := one_lt_zpow₀ (by linarith) (by omega)
    rw [if_neg h0, Context.exact_div (by linarith)]
    exact ⟨_, rfl⟩

/-- The rate returned is off the payments' own by at most its rounding and the last width. -/
theorem apr_near (hp : 0 < principal) (hn : 0 < n)
    (hpmt : monthlyPayment .exact principal rate n = .ok pmt) (hpmt0 : 0 < pmt)
    (hfinanced : amountFinanced .exact feePct principal = .ok financed) (hpos : 0 < financed)
    (hzero : financed ≤ presentValue .exact pmt 0 n)
    (hone : presentValue .exact pmt 1 n ≤ financed) :
    ∃ apr, computeApr .exact feePct principal rate n = .ok apr ∧
      ∃ i : ℝ, 0 ≤ i ∧ pmt * annuity n.toNat i = financed ∧
        (∀ j : ℝ, -1 < j → pmt * annuity n.toNat j = financed → j = i) ∧
        |(apr : ℝ) - 1200 * i| ≤ 0.0005 + 1200 * (1 / 2 ^ 200) := by
  have hterm : 0 < n.toNat := by omega
  obtain ⟨hlow, hhigh, hwidth⟩ := bracket_spec hzero hone iterations
  obtain ⟨hlo, hle⟩ := bracket_within pmt financed n iterations
  generalize hb : bracket .exact pmt financed n iterations = b at hlow hhigh hwidth hlo hle
  refine ⟨halfUp ((b.1 + b.2) / 2 * 12 * 100 / aprPlaces) * aprPlaces, ?_, ?_⟩
  · unfold computeApr
    simp only [validate_eq hp hn, hpmt, hfinanced, hb, bind, Except.bind, Context.exact_fix,
      if_neg (not_le.mpr hpos), Context.exact_quantize, raising]
  · rw [presentValue_eq pmt (by linarith) hn.le] at hlow hhigh
    have hlow : (financed : ℝ) ≤ pmt * annuity n.toNat (b.1 : ℝ) := by
      rw [← annuity_cast]
      exact_mod_cast hlow
    have hhigh : (pmt : ℝ) * annuity n.toNat (b.2 : ℝ) ≤ financed := by
      rw [← annuity_cast]
      exact_mod_cast hhigh
    have hlo : (0 : ℝ) ≤ b.1 := by exact_mod_cast hlo
    obtain ⟨i, hi, hi', hroot, hunique⟩ := exists_rate hterm (by exact_mod_cast hpmt0)
      (show (-1 : ℝ) < b.1 by linarith) (by exact_mod_cast hle) hlow hhigh
    refine ⟨i, hlo.trans hi, hroot, hunique, ?_⟩
    -- the midpoint is within half the width of the root, the rounding half a thousandth off
    have hwidth : (b.2 : ℝ) - b.1 = 1 / 2 ^ 200 := by
      have hcast : ((b.2 - b.1 : ℚ) : ℝ) = ((1 / 2 ^ iterations : ℚ) : ℝ) := by rw [hwidth]
      rw [Rat.cast_sub] at hcast
      rw [hcast]
      norm_num [iterations]
    have hmid : |(((b.1 + b.2) / 2 * 12 * 100 : ℚ) : ℝ) - 1200 * i| ≤ 1200 * (1 / 2 ^ 200) := by
      rw [← hwidth, abs_le]
      push_cast
      constructor <;> linarith
    have hround : |((halfUp ((b.1 + b.2) / 2 * 12 * 100 / aprPlaces) * aprPlaces : ℚ) : ℝ) -
        (((b.1 + b.2) / 2 * 12 * 100 : ℚ) : ℝ)| ≤ 0.0005 := by
      have hnear := halfUp_near ((b.1 + b.2) / 2 * 12 * 100 / aprPlaces)
      have hscale : |halfUp ((b.1 + b.2) / 2 * 12 * 100 / aprPlaces) * aprPlaces -
          (b.1 + b.2) / 2 * 12 * 100| ≤ 1 / 2000 := by
        rw [abs_le] at hnear ⊢
        unfold aprPlaces at hnear ⊢
        constructor <;> linarith
      have hreal : ((1 / 2000 : ℚ) : ℝ) = 0.0005 := by norm_num
      rw [← hreal]
      exact_mod_cast hscale
    calc |((halfUp ((b.1 + b.2) / 2 * 12 * 100 / aprPlaces) * aprPlaces : ℚ) : ℝ) - 1200 * i|
        ≤ |((halfUp ((b.1 + b.2) / 2 * 12 * 100 / aprPlaces) * aprPlaces : ℚ) : ℝ) -
            (((b.1 + b.2) / 2 * 12 * 100 : ℚ) : ℝ)| +
          |(((b.1 + b.2) / 2 * 12 * 100 : ℚ) : ℝ) - 1200 * i| := abs_sub_le _ _ _
      _ ≤ 0.0005 + 1200 * (1 / 2 ^ 200) := add_le_add hround hmid

/-- **The disclosed rate is the actuarial rate.** With exact arithmetic the bisection keeps the
payments' values around the amount financed while its width halves, and the rate returned is off
the one monthly rate at which the payments are worth that amount, times 1200, by at most the final
rounding and the width left. -/
theorem apr_actuarial (hp : 0 < principal) (hr : 0 ≤ rate) (hn : 1 ≤ n) (hfee : 0 ≤ feePct) :
    ∃ pmt financed, monthlyPayment .exact principal rate n = .ok pmt ∧
      amountFinanced .exact feePct principal = .ok financed ∧
      (0 < financed → presentValue .exact pmt 1 n ≤ financed →
        (∀ k ≤ iterations,
          presentValue .exact pmt (bracket .exact pmt financed n k).1 n ≥ financed ∧
          financed ≥ presentValue .exact pmt (bracket .exact pmt financed n k).2 n ∧
          (bracket .exact pmt financed n k).2 - (bracket .exact pmt financed n k).1 = 1 / 2 ^ k) ∧
        ∃ apr, computeApr .exact feePct principal rate n = .ok apr ∧
          ∃ i : ℝ, 0 ≤ i ∧ pmt * annuity n.toNat i = financed ∧
            (∀ j : ℝ, -1 < j → pmt * annuity n.toNat j = financed → j = i) ∧
            |(apr : ℝ) - 1200 * i| ≤ 0.0005 + 1200 * (1 / 2 ^ 200)) := by
  obtain ⟨⟨pmt, hpmt⟩, financed, hfinanced⟩ := exact_returns feePct hp hr hn
  refine ⟨pmt, financed, hpmt, hfinanced, fun hpos hone => ?_⟩
  obtain ⟨-, hn', hvalue⟩ := payment_annuity hr hpmt
  have hrate : 0 ≤ rate / 100 / 12 := by positivity
  have hpmt0 : 0 < pmt := by
    by_contra hneg
    have hle : pmt * annuity n.toNat (rate / 100 / 12) ≤ 0 :=
      mul_nonpos_of_nonpos_of_nonneg (not_lt.mp hneg) (annuity_nonneg _ (by linarith))
    linarith
  -- without interest the payments are worth at least the principal
  have hzero : financed ≤ presentValue .exact pmt 0 n := by
    calc financed ≤ principal := financed_le hp hfee hfinanced
      _ = pmt * annuity n.toNat (rate / 100 / 12) := hvalue.symm
      _ ≤ pmt * (n.toNat : ℚ) := mul_le_mul_of_nonneg_left (annuity_le _ hrate) hpmt0.le
      _ = presentValue .exact pmt 0 n := by
        rw [presentValue_eq pmt (by norm_num) hn'.le, annuity_rate_zero]
  exact ⟨fun k _ => bracket_spec hzero hone k,
    apr_near hp hn' hpmt hpmt0 hfinanced hpos hzero hone⟩

/-- The worked example: 18000 at 7.99% over 48 months, with a fee of 3%. -/
theorem apr_actuarial_sample : ∃ pmt apr : ℚ, ∃ i : ℝ,
    monthlyPayment .exact 18000 7.99 48 = .ok pmt ∧
    computeApr .exact 0.03 18000 7.99 48 = .ok apr ∧ pmt * annuity 48 i = 17460 ∧
    |(apr : ℝ) - 1200 * i| ≤ 0.0005 + 1200 * (1 / 2 ^ 200) := by
  obtain ⟨pmt, financed, hpmt, hfinanced, hrest⟩ := @apr_actuarial 0.03 18000 7.99 48 (by norm_num)
    (by norm_num) (by norm_num) (by norm_num)
  obtain ⟨pmt', hpmt', hone⟩ := exists_ok (x := monthlyPayment .exact 18000 7.99 48)
    (p := fun pmt => presentValue .exact pmt 1 48 ≤ 17460) (by decide +kernel)
  obtain ⟨financed', hfinanced', rfl⟩ := exists_ok (x := amountFinanced .exact 0.03 18000)
    (p := fun financed => 17460 = financed) (by decide +kernel)
  obtain rfl : pmt = pmt' := Except.ok.inj (hpmt.symm.trans hpmt')
  obtain rfl : financed = 17460 := Except.ok.inj (hfinanced.symm.trans hfinanced')
  obtain ⟨-, apr, happr, i, -, hi, -, hnear⟩ := hrest (by norm_num) hone
  exact ⟨pmt, apr, i, hpmt, happr, by exact_mod_cast hi, hnear⟩

end Meridian.Disclosure
