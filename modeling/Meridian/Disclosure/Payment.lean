import Meridian.Disclosure.Repaid
import Meridian.Numeric.Annuity
import Meridian.Numeric.Relative

/-!
# The level payment in 28 digits

From a rate of `10 ^ -8` per cent on, the payment that is computed is the exact level payment but for
a part of `10 ^ -13` (`monthlyPayment_near`). Nearly all of it is lost where one is taken off the
compounded rate.

* `near_fix`, `near_power`: the roundings of the decimals as relative errors.
* `exists_payment`: the payment of a loan, and the sum of its payments.
-/

namespace Meridian.Disclosure

open Python Numeric

theorem unitError_nonneg : 0 ≤ unitError := by norm_num [unitError]

theorem unitError_le : unitError ≤ 1 / 10 ^ 14 := by norm_num [unitError]

section Roundings

variable {w k : ℕ} {x y : ℚ}

/-- A rounding loses no more than it is said to, also seen from its result. -/
theorem roundTo_mul_le (hw : 28 ≤ w) (hx : 0 ≤ x) : roundTo w x * (1 - unitError) ≤ x := by
  have hunit := unitError_nonneg
  have hunit' := unitError_le
  calc roundTo w x * (1 - unitError) ≤ x * (1 + unitError) * (1 - unitError) :=
        mul_le_mul_of_nonneg_right (roundTo_le hw hx) (by linarith)
    _ = x - x * unitError ^ 2 := by ring
    _ ≤ x := sub_le_self x (mul_nonneg hx (sq_nonneg _))

theorem near_roundTo (hw : 28 ≤ w) (h : Near unitError k x y) (hx : 0 ≤ x) :
    Near unitError (k + 1) (roundTo w x) y :=
  h.step (by linarith [unitError_le]) (le_roundTo hw hx) (roundTo_mul_le hw hx)

theorem near_fix (h : Near unitError k x y) (hx : 0 ≤ x) :
    Near unitError (k + 1) (Context.default.fix x) y :=
  near_roundTo le_rfl h hx

/-- An amount of this size is kept to the twelfth place. -/
theorem fix_amount {x : ℚ} (h : |x| ≤ 10 ^ 8) : |Context.default.fix x - x| ≤ 1 / 10 ^ 12 := by
  refine (fix_error x).trans ?_
  unfold unitError
  linarith

/-- A rounding, in a coarser unit. -/
theorem near_fix_of_le {v : ℚ} (hv : unitError ≤ v) (hv' : v ≤ 1) (h : Near v k x y) (hx : 0 ≤ x) :
    Near v (k + 1) (Context.default.fix x) y := by
  have hcoarse : 1 - v ≤ 1 - unitError := by linarith
  refine h.step hv' ?_ ?_
  · exact (mul_le_mul_of_nonneg_left hcoarse hx).trans (le_roundTo le_rfl hx)
  · exact (mul_le_mul_of_nonneg_left hcoarse (fix_nonneg hx)).trans (roundTo_mul_le le_rfl hx)

/-- A power takes one operation less than its exponent, where its base has none behind it. -/
theorem near_powerLoop (hw : 28 ≤ w) (h : Near unitError k x y) (hx : 0 ≤ x) (hy : 0 ≤ y) :
    ∀ fuel n, 1 ≤ n → n ≤ fuel → 0 ≤ (⟨some w⟩ : Context).powerLoop x fuel n ∧
      Near unitError ((k + 1) * n - 1) ((⟨some w⟩ : Context).powerLoop x fuel n) (y ^ n) := by
  have hunit := unitError_nonneg
  have hunit' : unitError ≤ 1 := by linarith [unitError_le]
  intro fuel
  induction fuel with
  | zero => omega
  | succ fuel ih =>
    intro n hn hfuel
    rw [Context.powerLoop, if_neg (by omega)]
    by_cases hone : n = 1
    · rw [if_pos hone, hone, pow_one, mul_one, Nat.add_sub_cancel]
      exact ⟨hx, h⟩
    · rw [if_neg hone]
      obtain ⟨hhalf0, hhalf⟩ := ih (n / 2) (by omega) (by omega)
      set half := (⟨some w⟩ : Context).powerLoop x fuel (n / 2)
      have hpos : 1 ≤ (k + 1) * (n / 2) := Nat.mul_pos (by omega) (by omega)
      have hy' : 0 ≤ y ^ (n / 2) := pow_nonneg hy _
      have hsquare0 : 0 ≤ roundTo w (half * half) := roundTo_nonneg w (mul_nonneg hhalf0 hhalf0)
      have hsquare : Near unitError (2 * ((k + 1) * (n / 2)) - 1) (roundTo w (half * half))
          (y ^ (n / 2) * y ^ (n / 2)) := by
        have hboth := near_roundTo hw (hhalf.mul hhalf hunit' hhalf0 hy' hhalf0 hy')
          (mul_nonneg hhalf0 hhalf0)
        rwa [show (k + 1) * (n / 2) - 1 + ((k + 1) * (n / 2) - 1) + 1 =
          2 * ((k + 1) * (n / 2)) - 1 by omega] at hboth
      have hsplit : (k + 1) * n = 2 * ((k + 1) * (n / 2)) + (k + 1) * (n % 2) := by
        conv_lhs => rw [← Nat.div_add_mod n 2]
        ring
      by_cases hodd : n % 2 = 1
      · rw [if_pos hodd]
        have hproduct0 : 0 ≤ roundTo w (half * half) * x := mul_nonneg hsquare0 hx
        have hproduct := near_roundTo hw (hsquare.mul h hunit' hsquare0 (mul_nonneg hy' hy') hx hy)
          hproduct0
        have hpow : y ^ (n / 2) * y ^ (n / 2) * y = y ^ n := by
          rw [← pow_add, ← pow_succ]
          congr 1
          omega
        rw [hpow, show 2 * ((k + 1) * (n / 2)) - 1 + k + 1 = (k + 1) * n - 1 by
          rw [hsplit, hodd]
          omega] at hproduct
        exact ⟨roundTo_nonneg w hproduct0, hproduct⟩
      · rw [if_neg hodd]
        have hpow : y ^ (n / 2) * y ^ (n / 2) = y ^ n := by
          rw [← pow_add]
          congr 1
          omega
        rw [hpow, show 2 * ((k + 1) * (n / 2)) - 1 = (k + 1) * n - 1 by
          rw [hsplit, show n % 2 = 0 by omega]
          omega] at hsquare
        exact ⟨hsquare0, hsquare⟩

theorem near_power {n : ℕ} (h : Near unitError k x y) (hx : 0 ≤ x) (hy : 0 ≤ y) (hn : 1 ≤ n) :
    0 ≤ Context.default.power x n ∧
      Near unitError ((k + 1) * n) (Context.default.power x n) (y ^ n) := by
  obtain ⟨hloop0, hloop⟩ := near_powerLoop (w := 28 + (Decimal.numDigits n + 2)) (by omega) h hx hy
    n n hn le_rfl
  have hpos : 1 ≤ (k + 1) * n := Nat.mul_pos (by omega) hn
  have hfixed := near_fix hloop hloop0
  rw [Nat.sub_add_cancel hpos] at hfixed
  have hpower : Context.default.power x n = Context.default.fix
      ((⟨some (28 + (Decimal.numDigits n + 2))⟩ : Context).powerLoop x n n) := by
    rw [Context.power, if_pos (by omega), Int.natAbs_natCast]
    rfl
  rw [hpower]
  exact ⟨fix_nonneg hloop0, hfixed⟩

end Roundings

/-- The monthly rate takes two operations. -/
theorem near_monthlyRate {rate : ℚ} (hrate : 0 ≤ rate) :
    Near unitError 2 (monthlyRate .default rate) (rate / 100 / 12) := by
  have hunit' : unitError ≤ 1 := by linarith [unitError_le]
  have hyear := near_fix (Near.refl unitError (rate / 100)) (by positivity)
  have hyear0 := fix_nonneg (show 0 ≤ rate / 100 by positivity)
  exact near_fix (hyear.div (Near.refl unitError 12) hunit' hyear0 (by positivity) (by norm_num)
    (by norm_num)) (by positivity)

theorem monthlyRate_near {rate : ℚ} (hrate : 0 ≤ rate) :
    |monthlyRate .default rate - rate / 100 / 12| ≤ rate / 100 / 12 / 10 ^ 20 := by
  have hi : 0 ≤ rate / 100 / 12 := by positivity
  refine ((near_monthlyRate hrate).abs_sub_le unitError_nonneg (by linarith [unitError_le])
    (monthlyRate_nonneg hrate) hi ?_).trans ?_
  · norm_num [unitError]
  · unfold unitError
    push_cast
    linarith

/-- What the compounded rate is above one has lost its digits to the one, but for a part of
`10 ^ -14`. -/
theorem near_growth {rate : ℚ} {n : ℕ} (hrate : 1 / 10 ^ 8 ≤ rate) (hn : 12 ≤ n) (hn' : n ≤ 60) :
    1 ≤ Context.default.power (Context.default.fix (1 + monthlyRate .default rate)) n ∧
    Near unitError 240
      (Context.default.power (Context.default.fix (1 + monthlyRate .default rate)) n)
      ((1 + rate / 100 / 12) ^ n) ∧
    Near (1 / 10 ^ 14) 1
      (Context.default.power (Context.default.fix (1 + monthlyRate .default rate)) n - 1)
      ((1 + rate / 100 / 12) ^ n - 1) := by
  have hunit := unitError_nonneg
  have hunit' : unitError ≤ 1 := by linarith [unitError_le]
  have hr0 : 0 ≤ monthlyRate .default rate := monthlyRate_nonneg (by linarith)
  have hr := near_monthlyRate (show 0 ≤ rate by linarith)
  have hi : 1 / 10 ^ 8 / 100 / 12 ≤ rate / 100 / 12 := by gcongr
  generalize monthlyRate .default rate = r at hr0 hr ⊢
  generalize rate / 100 / 12 = i at hr hi ⊢
  have hi0 : 0 ≤ i := le_trans (by norm_num) hi
  have hbase : 1 ≤ Context.default.fix (1 + r) := by
    have hmono := fix_mono (show (1 : ℚ) ≤ 1 + r by linarith)
    rwa [fix_one] at hmono
  obtain ⟨hF0, hF⟩ := near_power (near_fix (hr.one_add hunit hunit') (by linarith))
    (by linarith) (by linarith) (show 1 ≤ n by omega)
  have hF := hF.mono hunit hunit' hF0 (by positivity) (show (2 + 1 + 1) * n ≤ 240 by omega)
  have hgrow : 1 / 10 ^ 10 ≤ (1 + i) ^ n - 1 := by
    have hnq : (12 : ℚ) ≤ n := by exact_mod_cast hn
    calc (1 : ℚ) / 10 ^ 10 = 12 * (1 / 10 ^ 8 / 100 / 12) := by norm_num
      _ ≤ n * i := mul_le_mul hnq hi (by norm_num) (by linarith)
      _ ≤ (1 + i) ^ n - 1 := by linarith [one_add_mul_le_pow (show -2 ≤ i by linarith) n]
  have hunits : ((240 : ℕ) : ℚ) * unitError = 120 / 10 ^ 27 := by norm_num [unitError]
  refine ⟨?_, hF, hF.sub_one hunit hunit' hF0 (by linarith) ?_ (by norm_num) (by norm_num) ?_⟩
  · exact hbase.trans (le_power hbase (fix_idem _) (by omega))
  · rw [hunits]
    norm_num
  · rw [hunits]
    linarith

/-- **The computed payment** is the exact level payment, but for a part of `10 ^ -13`. -/
theorem monthlyPayment_near {principal rate : ℚ} {n : ℕ} (hp : 0 < principal)
    (hrate : 1 / 10 ^ 8 ≤ rate) (hn : 12 ≤ n) (hn' : n ≤ 60) :
    ∃ payment, monthlyPayment .default principal rate n = .ok payment ∧
      |payment - level principal n (rate / 100 / 12)| ≤
        level principal n (rate / 100 / 12) / 10 ^ 13 := by
  have hunit := unitError_nonneg
  have hunit' : unitError ≤ 1 := by linarith [unitError_le]
  obtain ⟨hF, hcompound, hgrowth⟩ := near_growth hrate hn hn'
  have hi : 0 < rate / 100 / 12 := div_pos (div_pos (by linarith) (by norm_num)) (by norm_num)
  have hr := near_monthlyRate (show 0 ≤ rate by linarith)
  unfold monthlyPayment
  rw [bind_of_ok (validate_eq hp (by omega)), level_eq _ (by omega) hi]
  generalize monthlyRate .default rate = r at hF hcompound hgrowth hr
  generalize rate / 100 / 12 = i at hi hcompound hgrowth hr
  have hrpos : 0 < r :=
    lt_of_lt_of_le (mul_pos hi (pow_pos (by linarith [unitError_le]) 2)) hr.low
  have hexact : 1 < (1 + i) ^ n := one_lt_pow₀ (by linarith) (by omega)
  dsimp only
  rw [if_neg hrpos.ne']
  set F := Context.default.power (Context.default.fix (1 + r)) n
  -- the numerator, in the coarser unit of the growth
  have hprod0 : 0 ≤ Context.default.fix (principal * r) := fix_nonneg (mul_nonneg hp.le hrpos.le)
  have hprod := near_fix ((Near.refl unitError principal).mul hr hunit' hp.le hp.le hrpos.le hi.le)
    (mul_nonneg hp.le hrpos.le)
  have hnum0 : 0 ≤ Context.default.fix (Context.default.fix (principal * r) * F) :=
    fix_nonneg (mul_nonneg hprod0 (by linarith))
  have hnum := near_fix (hprod.mul hcompound hunit' hprod0 (mul_nonneg hp.le hi.le) (by linarith)
    (by linarith)) (mul_nonneg hprod0 (by linarith))
  have hnum := hnum.coarsen hnum0 (by positivity)
    (show 1 - 1 / 10 ^ 14 ≤ (1 - unitError) ^ (0 + 2 + 1 + 240 + 1) by
      refine le_trans ?_ (Near.one_sub_mul_le hunit' _)
      norm_num [unitError])
  -- the denominator
  have hgrow0 : 0 < F - 1 :=
    lt_of_lt_of_le (mul_pos (by linarith) (by norm_num)) hgrowth.low
  have hden0 : 0 < Context.default.fix (F - 1) :=
    lt_of_lt_of_le (mul_pos hgrow0 (by linarith [unitError_le])) (le_fix hgrow0.le)
  have hden := near_fix_of_le unitError_le (by norm_num) hgrowth hgrow0.le
  set N := Context.default.fix (Context.default.fix (principal * r) * F)
  set D := Context.default.fix (F - 1)
  have hquotient := near_fix_of_le unitError_le (by norm_num) (hnum.div hden (by norm_num) hnum0
    (by positivity) hden0 (by linarith)) (div_nonneg hnum0 hden0.le)
  refine ⟨Context.default.fix (N / D), ?_, ?_⟩
  · rw [Context.div, if_neg hden0.ne']
    rfl
  · refine (hquotient.abs_sub_le (by norm_num) (by norm_num)
      (fix_nonneg (div_nonneg hnum0 hden0.le)) (by positivity) (by norm_num)).trans ?_
    have hlevel : 0 ≤ principal * i * (1 + i) ^ n / ((1 + i) ^ n - 1) :=
      div_nonneg (by positivity) (by linarith)
    push_cast
    linarith

/-! ## The payment of a loan -/

section Loan

variable (t : Terms)

/-- The exact monthly rate. -/
def Terms.rate : ℚ := toDecimal t.annualRate / 100 / 12

/-- The exact level payment. -/
def Terms.payment : ℚ := level (toDecimal t.principal) t.termMonths.toNat t.rate

theorem Terms.rate_le : 0 < t.rate ∧ t.rate ≤ 1 / 20 := by
  have hpos := toDecimal_pos t.rate_bounds.1
  have hle := (rate_bound t).2
  unfold Terms.rate
  constructor
  · positivity
  · linarith

theorem Terms.payment_le : 0 < t.payment ∧ t.payment ≤ 78750 := by
  obtain ⟨hrate, hrate'⟩ := t.rate_le
  have hterm := t.term_bounds.1
  have hpos := toDecimal_pos t.principal_bounds.1
  refine ⟨level_pos hpos (by omega) (by linarith), ?_⟩
  calc t.payment ≤ toDecimal t.principal * (1 + t.rate) := level_le hpos.le (by omega) hrate.le
    _ ≤ 75000 * (1 + 1 / 20) :=
      mul_le_mul (principal_le t) (by linarith) (by linarith) (by norm_num)
    _ = 78750 := by norm_num

theorem Terms.owed_payment : owed t.payment t.rate t.termMonths.toNat = toDecimal t.principal := by
  have hterm := t.term_bounds.1
  exact owed_level _ (by omega) (by linarith [t.rate_le.1])

/-- **The payment of a loan** at an ordinary rate, and the sum of its payments. -/
theorem exists_payment (hrate : 1 / 10 ^ 8 ≤ toDecimal t.annualRate) :
    ∃ pmt, monthlyPayment .default (toDecimal t.principal) (toDecimal t.annualRate) t.termMonths =
        .ok pmt ∧ 0 ≤ pmt ∧ |pmt - t.payment| ≤ 1 / 10 ^ 8 ∧
      |Context.default.fix (pmt * t.termMonths) - t.termMonths * t.payment| ≤ 9 / 10 ^ 7 := by
  have hterm := t.term_bounds
  have hn : ((t.termMonths.toNat : ℕ) : ℤ) = t.termMonths := Int.toNat_of_nonneg (by omega)
  have hnq : (12 : ℚ) ≤ t.termMonths := by exact_mod_cast hterm.1
  have hnq' : (t.termMonths : ℚ) ≤ 60 := by exact_mod_cast hterm.2
  obtain ⟨hpmt0, hpmt'⟩ := t.payment_le
  obtain ⟨pmt, hpmt, hpart⟩ := monthlyPayment_near (n := t.termMonths.toNat)
    (toDecimal_pos t.principal_bounds.1) hrate (by omega) (by omega)
  rw [hn] at hpmt
  have hpart : |pmt - t.payment| ≤ t.payment / 10 ^ 13 := hpart
  have hpos : 0 ≤ pmt := by linarith [(abs_le.mp hpart).1]
  have hnear : |pmt - t.payment| ≤ 1 / 10 ^ 8 := hpart.trans (by linarith)
  refine ⟨pmt, hpmt, hpos, hnear, ?_⟩
  have hall : |pmt * t.termMonths - t.payment * t.termMonths| ≤ 1 / 10 ^ 8 * 60 := by
    rw [← sub_mul, abs_mul, abs_of_nonneg (show (0 : ℚ) ≤ t.termMonths by linarith)]
    exact mul_le_mul hnear hnq' (by linarith) (by norm_num)
  have hle : pmt * t.termMonths ≤ 10 ^ 5 * 60 :=
    mul_le_mul (by linarith [(abs_le.mp hnear).2]) hnq' (by linarith) (by norm_num)
  have hfix := abs_le.mp (fix_amount (show |pmt * t.termMonths| ≤ 10 ^ 8 by
    rw [abs_of_nonneg (mul_nonneg hpos (by linarith))]
    linarith))
  rw [abs_le] at hall ⊢
  constructor <;> linarith

end Loan

end Meridian.Disclosure
