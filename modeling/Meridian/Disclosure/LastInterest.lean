import Meridian.Disclosure.Payment

/-!
# Loans whose last interest covers the roundings

Every row may be off by half a cent of interest and the level payment by half a cent, and each grows
with the months that follow. All of it comes out of the last row's interest, so no figure is
negative where the exact loan's last interest is at least what that can add up to (`CoversRoundings`,
`noNegative_of_covers`).

* `carried_near`: the running balance, with the rounding of the payment told from those of the interest.
* `finalPayment_near`: the final payment.
-/

namespace Meridian.Disclosure

open Python Numeric

/-! ## One level payment -/

section Level

variable {rate m b : ℚ}

/-- Interest is off by half a cent. -/
theorem interestOn_near (hrate : 0 ≤ rate) (hrate' : rate ≤ 60) (hb : |b| ≤ 10 ^ 5) :
    |interestOn (monthlyRate .default rate) b - b * (rate / 100 / 12)| ≤ 1 / 200 + 1 / 10 ^ 10 := by
  have hnear := monthlyRate_near hrate
  have hi : 0 ≤ rate / 100 / 12 := by positivity
  have hi' : rate / 100 / 12 ≤ 1 / 20 := by linarith
  unfold interestOn
  generalize monthlyRate .default rate = r at hnear ⊢
  generalize rate / 100 / 12 = i at hnear hi hi' ⊢
  have hr : |r| ≤ 1 := by
    have hbounds := abs_le.mp hnear
    rw [abs_le]
    constructor <;> linarith [hbounds.1, hbounds.2]
  have hcharge : |b * r - b * i| ≤ 1 / 10 ^ 12 := by
    rw [← mul_sub, abs_mul]
    calc |b| * |r - i| ≤ 10 ^ 5 * (i / 10 ^ 20) := mul_le_mul hb hnear (abs_nonneg _) (by norm_num)
      _ ≤ 1 / 10 ^ 12 := by linarith
  have hsize : |b * r| ≤ 10 ^ 5 * 1 := by
    rw [abs_mul]
    exact mul_le_mul hb hr (abs_nonneg _) (by norm_num)
  have hfix := fix_amount (hsize.trans (by norm_num))
  have hround := abs_le.mp (halfUp_near (Context.default.fix (b * r) * 100))
  rw [abs_le] at hcharge hfix ⊢
  constructor <;> linarith [hround.1, hround.2, hcharge.1, hcharge.2, hfix.1, hfix.2]

/-- **A level payment** moves the balance as the exact loan's does, up to half a cent. -/
theorem afterLevel_near (hrate : 0 ≤ rate) (hrate' : rate ≤ 60) (hb : |b| ≤ 10 ^ 5)
    (hm : |m| ≤ 10 ^ 5) :
    |levelPart (monthlyRate .default rate) m b| ≤ 10 ^ 6 ∧
    |afterLevel (monthlyRate .default rate) m b - ((1 + rate / 100 / 12) * b - m)| ≤
      1 / 200 + 1 / 10 ^ 9 := by
  have hinterest := abs_le.mp (interestOn_near hrate hrate' hb)
  have hi : 0 ≤ rate / 100 / 12 := by positivity
  have hi' : rate / 100 / 12 ≤ 1 / 20 := by linarith
  unfold afterLevel levelPart
  generalize interestOn (monthlyRate .default rate) b = ι at hinterest ⊢
  generalize rate / 100 / 12 = i at hinterest hi hi' ⊢
  have hcharge := abs_le.mp (show |b * i| ≤ 10 ^ 5 * (1 / 20) by
    rw [abs_mul, abs_of_nonneg hi]
    exact mul_le_mul hb hi' hi (by norm_num))
  rw [abs_le] at hb hm
  have hpartle : |m - ι| ≤ 5 * 10 ^ 5 := by
    rw [abs_le]
    constructor <;> linarith [hcharge.1, hcharge.2, hinterest.1, hinterest.2, hb.1, hb.2, hm.1, hm.2]
  have hpart := fix_amount (hpartle.trans (by norm_num))
  rw [abs_le] at hpart hpartle
  generalize Context.default.fix (m - ι) = part at hpart ⊢
  have hafterle : |b - part| ≤ 10 ^ 6 := by
    rw [abs_le]
    constructor <;> linarith [hpart.1, hpart.2, hpartle.1, hpartle.2, hb.1, hb.2]
  have hafter := abs_le.mp (fix_amount (hafterle.trans (by norm_num)))
  refine ⟨abs_le.mpr ⟨by linarith [hpart.1, hpartle.1], by linarith [hpart.2, hpartle.2]⟩, ?_⟩
  rw [abs_le]
  constructor <;> linarith [hinterest.1, hinterest.2, hpart.1, hpart.2, hafter.1, hafter.2]

/-- The last row repays the balance. -/
theorem lastPart_near (hrate : 0 ≤ rate) (hrate' : rate ≤ 60) (hb : |b| ≤ 10 ^ 5)
    (hm : |m| ≤ 10 ^ 5) : |lastPart (monthlyRate .default rate) m b - b| ≤ 1 / 10 ^ 11 := by
  obtain ⟨hpart, -⟩ := afterLevel_near hrate hrate' hb hm
  unfold lastPart afterLevel
  generalize levelPart (monthlyRate .default rate) m b = part at hpart ⊢
  rw [abs_le] at hb hpart
  have hafter := abs_le.mp (fix_amount (x := b - part) (by
    rw [abs_le]
    constructor <;> linarith))
  have hsum := abs_le.mp (fix_amount (x := part + Context.default.fix (b - part)) (by
    rw [abs_le]
    constructor <;> linarith))
  rw [abs_le]
  constructor <;> linarith

theorem carried_succ (rate m : ℚ) (k : ℕ) (b : ℚ) :
    carried rate m (k + 1) b = afterLevel rate m (carried rate m k b) := by
  induction k generalizing b with
  | zero => rfl
  | succ k ih =>
    show carried rate m (k + 1) (afterLevel rate m b) = _
    rw [ih]
    rfl

end Level

/-! ## The exact loan -/

section Loan

variable (t : Terms)

/-- The exact loan's last interest is at least what the roundings may take from it. -/
def CoversRoundings : Prop :=
  (accumulation (t.termMonths.toNat - 1) t.rate - (t.termMonths - 2) / 2) / 100 + 1 / 10 ^ 5 ≤
    accrued t.payment t.rate 1

/-- Sixty payments at five per cent a month. -/
theorem Terms.accumulation_le {k : ℕ} (hk : k ≤ t.termMonths.toNat) :
    0 ≤ accumulation k t.rate ∧ accumulation k t.rate ≤ 400 := by
  obtain ⟨hrate, hrate'⟩ := t.rate_le
  have hterm := t.term_bounds.2
  have hlong := accumulation_mono hrate.le hrate' (show k ≤ 60 by omega)
  have hvalue := accumulation_mul_rate 60 ((1 : ℚ) / 20)
  norm_num at hvalue
  exact ⟨(Nat.cast_nonneg k).trans (le_accumulation hrate.le k), by linarith⟩

variable {t} {m : ℚ}

/-- **The running balance** is the exact one but for the rounding of the payment, which each month
repeats, and half a cent of interest a month. -/
theorem carried_near (hm : |m - t.payment| ≤ 1 / 100) : ∀ k ≤ t.termMonths.toNat,
    |carried (monthlyRate .default (toDecimal t.annualRate)) m k (toDecimal t.principal) -
        owed t.payment t.rate (t.termMonths.toNat - k) + (m - t.payment) * accumulation k t.rate| ≤
      (1 / 200 + 1 / 10 ^ 9) * accumulation k t.rate := by
  obtain ⟨hrate, hrate'⟩ := t.rate_le
  obtain ⟨hpmt, hpmt'⟩ := t.payment_le
  have hm' := abs_le.mp hm
  refine abs_le_accumulation (n := t.termMonths.toNat)
    (x := fun k =>
      carried (monthlyRate .default (toDecimal t.annualRate)) m k (toDecimal t.principal) -
      owed t.payment t.rate (t.termMonths.toNat - k) + (m - t.payment) * accumulation k t.rate)
    hrate.le ?_ ?_
  · rw [Nat.sub_zero, t.owed_payment, accumulation_zero, mul_zero, add_zero]
    exact sub_self _
  · intro k hk hnear
    obtain ⟨j, hj⟩ := Nat.exists_eq_add_of_le' (show 1 ≤ t.termMonths.toNat - k by omega)
    have hj' : t.termMonths.toNat - (k + 1) = j := by omega
    obtain ⟨hacc, hacc'⟩ := t.accumulation_le hk.le
    have howed := owed_nonneg hpmt.le (show -1 < t.rate by linarith) (j + 1)
    have howed' : owed t.payment t.rate (j + 1) ≤ 75000 := by
      refine (owed_mono hpmt.le hrate.le (show j + 1 ≤ t.termMonths.toNat by omega)).trans ?_
      rw [t.owed_payment]
      exact principal_le t
    have hgrow := owed_grow t.payment (show 1 + t.rate ≠ 0 by linarith) j
    rw [hj] at hnear ⊢
    rw [hj', carried_succ, accumulation_succ]
    generalize carried (monthlyRate .default (toDecimal t.annualRate)) m k (toDecimal t.principal) =
      b at hnear ⊢
    -- the balance stays of the loan's size
    have hb : |b| ≤ 10 ^ 5 := by
      have hdrift := abs_le.mp hnear
      have hpayment := abs_le.mp (show |(m - t.payment) * accumulation k t.rate| ≤ 1 / 100 * 400 by
        rw [abs_mul, abs_of_nonneg hacc]
        exact mul_le_mul hm hacc' hacc (by norm_num))
      rw [abs_le]
      constructor <;> linarith [hdrift.1, hdrift.2, hpayment.1, hpayment.2]
    have hstep := (afterLevel_near (toDecimal_pos t.rate_bounds.1).le (rate_bound t).2 hb
      (show |m| ≤ 10 ^ 5 by rw [abs_le]; constructor <;> linarith [hm'.1, hm'.2])).2
    have hrateEq : toDecimal t.annualRate / 100 / 12 = t.rate := rfl
    rw [hrateEq] at hstep
    generalize afterLevel (monthlyRate .default (toDecimal t.annualRate)) m b = b' at hstep ⊢
    have hsame : b' - owed t.payment t.rate j +
        (m - t.payment) * ((1 + t.rate) * accumulation k t.rate + 1) - (1 + t.rate) *
          (b - owed t.payment t.rate (j + 1) + (m - t.payment) * accumulation k t.rate) =
        b' - ((1 + t.rate) * b - m) := by
      linarith [hgrow]
    rw [hsame]
    exact hstep

theorem shownCents_near (x : ℚ) : |shownCents x - x| ≤ 1 / 200 := by
  have hround := abs_le.mp (halfUp_near (x * 100))
  unfold shownCents
  rw [abs_le]
  constructor <;> linarith [hround.1, hround.2]

/-- The level payment and the final one. -/
structure PlanNear (t : Terms) (p : Plan) : Prop where
  payment : |p.pmtCents - t.payment| ≤ 1 / 200 + 1 / 10 ^ 8
  /-- the total of payments keeps what the level payments are off by -/
  final : |p.finalPayment - (t.payment - (t.termMonths - 1) * (p.pmtCents - t.payment))| ≤
    1 / 200 + 1 / 10 ^ 6

/-- **The plan** of a loan at an ordinary rate is within its own roundings of the exact one. -/
theorem exists_plan (hrate : 1 / 10 ^ 8 ≤ toDecimal t.annualRate) (start : CalendarDate) :
    ∃ p, planOf t start = .ok p ∧ PlanNear t p := by
  have hterm := t.term_bounds
  have hnq : (12 : ℚ) ≤ t.termMonths := by exact_mod_cast hterm.1
  have hnq' : (t.termMonths : ℚ) ≤ 60 := by exact_mod_cast hterm.2
  obtain ⟨hpmt0, hpmt'⟩ := t.payment_le
  obtain ⟨pmt, hpmt, hpos, hnear, hall⟩ := exists_payment t hrate
  rw [abs_le] at hnear hall
  have htotal0 : 0 ≤ Context.default.fix (pmt * t.termMonths) :=
    fix_nonneg (mul_nonneg hpos (by linarith))
  have hsum : t.termMonths * t.payment ≤ 60 * 78750 := mul_le_mul hnq' hpmt' hpmt0.le (by norm_num)
  have hcents := toCentPlaces_shown hpos (by linarith)
  have hround := abs_le.mp (shownCents_near pmt)
  have htotal := toCentPlaces_shown htotal0 (by linarith)
  have hround' := abs_le.mp (shownCents_near (Context.default.fix (pmt * t.termMonths)))
  generalize shownCents (Context.default.fix (pmt * t.termMonths)) = total at htotal hround'
  generalize shownCents pmt = m at hcents hround
  -- what the level payments before the last leave of the total
  have hmonths : ((t.termMonths - 1 : ℤ) : ℚ) = t.termMonths - 1 := by push_cast; rfl
  have hlevel : |m * (t.termMonths - 1)| ≤ 10 ^ 5 * 60 := by
    rw [abs_mul, abs_of_nonneg (show (0 : ℚ) ≤ t.termMonths - 1 by linarith)]
    refine mul_le_mul ?_ (by linarith) (by linarith) (by norm_num)
    rw [abs_le]
    constructor <;> linarith
  have hlevels := abs_le.mp (fix_amount (hlevel.trans (by norm_num)))
  rw [abs_le] at hlevel
  have hfinal := abs_le.mp (fix_amount
    (show |total - Context.default.fix (m * (t.termMonths - 1))| ≤ 10 ^ 8 by
      rw [abs_le]
      constructor <;> linarith))
  have hplan : planOf t start = .ok ⟨start, t.termMonths, m,
      Context.default.fix (total - Context.default.fix (m * (t.termMonths - 1))),
      monthlyRate .default (toDecimal t.annualRate)⟩ := by
    unfold planOf plan
    rw [hpmt, Except.bind]
    dsimp only
    rw [bind_of_ok hcents, bind_of_ok htotal, hmonths]
    rfl
  refine ⟨_, hplan, abs_le.mpr ⟨?_, ?_⟩, abs_le.mpr ⟨?_, ?_⟩⟩ <;> dsimp only <;> linarith

/-- What a loan is like whose last interest covers the roundings. -/
theorem CoversRoundings.large (h : CoversRoundings t) :
    1 / 10 ^ 8 ≤ toDecimal t.annualRate ∧
      (t.termMonths : ℚ) - 1 ≤ accumulation (t.termMonths.toNat - 1) t.rate ∧
      accumulation (t.termMonths.toNat - 1) t.rate / 200 ≤ accrued t.payment t.rate 1 ∧
      20 * accrued t.payment t.rate 1 ≤ owed t.payment t.rate 1 ∧
      owed t.payment t.rate 1 + accrued t.payment t.rate 1 = t.payment := by
  obtain ⟨hrate, hrate'⟩ := t.rate_le
  obtain ⟨hpmt, hpmt'⟩ := t.payment_le
  have hterm := t.term_bounds
  have hnq : (12 : ℚ) ≤ t.termMonths := by exact_mod_cast hterm.1
  have hmonths : ((t.termMonths.toNat - 1 : ℕ) : ℚ) = t.termMonths - 1 := by
    have hn : ((t.termMonths.toNat - 1 : ℕ) : ℤ) = t.termMonths - 1 := by omega
    exact_mod_cast congrArg (Int.cast : ℤ → ℚ) hn
  have hacc := le_accumulation hrate.le (t.termMonths.toNat - 1)
  rw [hmonths] at hacc
  have hcharge := owed_mul_rate t.payment (show 1 + t.rate ≠ 0 by linarith) 1
  have hone : owed t.payment t.rate 1 = repaid t.payment t.rate 1 := by
    rw [owed_succ, owed_zero, zero_add]
  have hsum := repaid_add_accrued t.payment t.rate 1
  have howed := owed_nonneg hpmt.le (show -1 < t.rate by linarith) 1
  have haccrued := accrued_nonneg hpmt.le hrate.le 1
  unfold CoversRoundings at h
  have hlow : accumulation (t.termMonths.toNat - 1) t.rate / 200 ≤ accrued t.payment t.rate 1 := by
    linarith
  refine ⟨?_, hacc, hlow, ?_, by rw [hone, hsum]⟩
  · have hle : accrued t.payment t.rate 1 ≤ 78750 * t.rate := by
      rw [← hcharge]
      exact mul_le_mul_of_nonneg_right (by linarith) hrate.le
    have hyear : t.rate = toDecimal t.annualRate / 100 / 12 := rfl
    linarith
  · have hle := mul_le_mul_of_nonneg_left hrate' howed
    linarith

/-- The first month's interest leaves a twenty-first of the payment. -/
theorem firstInterest_le (h : CoversRoundings t) (hm : |m - t.payment| ≤ 1 / 200 + 1 / 10 ^ 8) :
    interestOn (monthlyRate .default (toDecimal t.annualRate)) (toDecimal t.principal) ≤ m := by
  obtain ⟨hrate, hrate'⟩ := t.rate_le
  obtain ⟨hpmt, -⟩ := t.payment_le
  obtain ⟨-, hacc, hlow, howed, hsum⟩ := h.large
  have hnq : (12 : ℚ) ≤ t.termMonths := by exact_mod_cast t.term_bounds.1
  have hm := abs_le.mp hm
  have hgrow := accumulation_mul_rate t.termMonths.toNat t.rate
  have hfactor : (1 + t.rate) ^ t.termMonths.toNat ≤ 21 := by
    have hle := mul_le_mul (t.accumulation_le le_rfl).2 hrate' hrate.le (by norm_num)
    linarith
  have hback : repaid t.payment t.rate t.termMonths.toNat * (1 + t.rate) ^ t.termMonths.toNat =
      t.payment := by
    rw [repaid, mul_assoc, ← mul_pow, inv_mul_cancel₀ (by linarith), one_pow, mul_one]
  have hfirst := mul_le_mul_of_nonneg_left hfactor
    (repaid_nonneg hpmt.le hrate.le t.termMonths.toNat)
  rw [hback] at hfirst
  -- the exact first interest, and the disclosed one beside it
  have hcharge := owed_mul_rate t.payment (show 1 + t.rate ≠ 0 by linarith) t.termMonths.toNat
  rw [t.owed_payment] at hcharge
  have hall := repaid_add_accrued t.payment t.rate t.termMonths.toNat
  have hinterest := abs_le.mp (interestOn_near (b := toDecimal t.principal)
    (toDecimal_pos t.rate_bounds.1).le (rate_bound t).2 (by
      rw [abs_of_nonneg (toDecimal_pos t.principal_bounds.1).le]
      linarith [principal_le t]))
  have hrateEq : toDecimal t.annualRate / 100 / 12 = t.rate := rfl
  rw [hrateEq, hcharge] at hinterest
  linarith

/-- The level payments leave some of the principal, and no more than the final payment. -/
theorem PlanNear.last {p : Plan} (hp : PlanNear t p) (h : CoversRoundings t)
    (hrate : p.monthlyRate = monthlyRate .default (toDecimal t.annualRate)) :
    0 ≤ carried p.monthlyRate p.pmtCents (t.termMonths.toNat - 1) (toDecimal t.principal) ∧
      lastPart p.monthlyRate p.pmtCents (carried p.monthlyRate p.pmtCents (t.termMonths.toNat - 1)
        (toDecimal t.principal)) ≤ p.finalPayment := by
  obtain ⟨hpmt, hpmt'⟩ := t.payment_le
  have hterm := t.term_bounds.1
  have hnq : (12 : ℚ) ≤ t.termMonths := by exact_mod_cast hterm
  obtain ⟨-, hacc, hlow, howed, hsum⟩ := h.large
  have hacc' := (t.accumulation_le (Nat.sub_le _ 1)).2
  obtain ⟨hpayment, hfinal⟩ := hp
  have hrunning := carried_near (hpayment.trans (by norm_num)) (t.termMonths.toNat - 1)
    (Nat.sub_le _ 1)
  rw [show t.termMonths.toNat - (t.termMonths.toNat - 1) = 1 by omega, ← hrate] at hrunning
  have hm : |p.pmtCents| ≤ 10 ^ 5 := by
    have hbounds := abs_le.mp hpayment
    rw [abs_le]
    constructor <;> linarith
  generalize carried p.monthlyRate p.pmtCents (t.termMonths.toNat - 1) (toDecimal t.principal) = q
    at hrunning ⊢
  set A := accumulation (t.termMonths.toNat - 1) t.rate
  set e := p.pmtCents - t.payment
  -- the rounding of the payment, before the last row and in the total
  have hall := abs_le.mp (show |e * A| ≤ (1 / 200 + 1 / 10 ^ 8) * A by
    rw [abs_mul, abs_of_nonneg (show 0 ≤ A by linarith)]
    exact mul_le_mul_of_nonneg_right hpayment (by linarith))
  have hrest := abs_le.mp (show |e * (A - (t.termMonths - 1))| ≤
      (1 / 200 + 1 / 10 ^ 8) * (A - (t.termMonths - 1)) by
    rw [abs_mul, abs_of_nonneg (show 0 ≤ A - (t.termMonths - 1) by linarith)]
    exact mul_le_mul_of_nonneg_right hpayment (by linarith))
  rw [abs_le] at hrunning hfinal
  have hq : 0 ≤ q := by linarith
  have hlast := abs_le.mp (lastPart_near (m := p.pmtCents) (toDecimal_pos t.rate_bounds.1).le
    (rate_bound t).2 (b := q) (by
      rw [abs_of_nonneg hq]
      linarith) hm)
  rw [← hrate] at hlast
  unfold CoversRoundings at h
  exact ⟨hq, by linarith⟩

/-- **What the roundings leave** fits the final payment. -/
theorem residueFits_of_covers (h : CoversRoundings t) (start : CalendarDate) :
    ResidueFits t start := by
  obtain ⟨p, hplan, hnear⟩ := exists_plan h.large.1 start
  have hrate : p.monthlyRate = monthlyRate .default (toDecimal t.annualRate) :=
    (planOf_ok hplan).2.2.1
  have hfirst := firstInterest_le h hnear.payment
  rw [← hrate] at hfirst
  exact ⟨p, hplan, hfirst, hnear.last h hrate⟩

/-- **Where the last interest covers the roundings** no disclosed row is negative. -/
theorem noNegative_of_covers (h : CoversRoundings t) (start : CalendarDate) : NoNegative t start ↔
    start.year + (start.month - 1 + t.termMonths.toNat) / 12 ≤ 9999 := by
  rw [noNegative_iff]
  exact and_iff_right (residueFits_of_covers h start)

end Loan

/-- 18000 over 48 months, at the rate an offer has by default. -/
def workedTerms : Terms where
  principal := carPrice
  annualRate := defaultRate
  termMonths := 48
  principal_bounds := carPrice_bounds
  rate_bounds := defaultRate_bounds
  term_bounds := fourYears_bounds

theorem worked_noNegative : NoNegative workedTerms ⟨2026, 1, 1, by decide⟩ := by
  have hcovers : CoversRoundings workedTerms := by
    unfold CoversRoundings
    decide +kernel
  exact (noNegative_of_covers hcovers _).mpr (by decide)

end Meridian.Disclosure
