import Meridian.Disclosure.Payment
import Meridian.Servicing.Agreement

/-!
# Loans the two services show alike

Where the principal is so many equal payments of whole cents and all the interest of the loan is
below half a cent, no figure has a residue and the schedules are the same (`Even`). Elsewhere the last
payment of the disclosure squares a residue that servicing does not know of. Both ways:

* `addsUp_of_even`: an even loan adds up in cents.
* `wholePayment_of_addsUp`: a loan that adds up has a level payment all but in whole cents.
* `sameSchedule_bounds`: what this says of the schedules; `differs_of_residue`: for a principal in
  equal parts there is nothing in between until the interest is near a cent for each payment.
-/

namespace Meridian.Servicing

open Python Numeric Disclosure

variable (t : Terms)

/-- All the interest of the exact loan. -/
def wholeInterest : ℚ := t.termMonths * exactPayment t - toDecimal t.principal

/-- Equal payments of whole cents repay the principal, and the interest comes to less than half a
cent. -/
structure Even : Prop where
  /-- a rate that 28 digits can tell from one -/
  rate : 1 / 10 ^ 8 ≤ toDecimal t.annualRate
  principal : ∃ q : ℤ, toDecimal t.principal = t.termMonths * q / 100
  interest : wholeInterest t ≤ 1 / 200 - 1 / 10 ^ 5

/-- So many payments of some whole cents are the exact ones, up to the rounding of their sum. -/
def WholePayment : Prop :=
  ∃ m : ℤ, |t.termMonths * exactPayment t - t.termMonths * m / 100| ≤ 1 / 200 + 1 / 10 ^ 5

variable {t}

theorem centsOf_eq {x : ℚ} {k : ℤ} (h : |x - k / 100| < 1 / 200) : centsOf x = k := by
  refine eq_of_near (halfEven_near (x * 100)) ?_
  rw [abs_lt] at h ⊢
  constructor <;> linarith [h.1, h.2]

theorem toCentPlaces_near {x : ℚ} {k : ℤ} (h : |x - k / 100| < 1 / 200) (hk : |k| < 10 ^ 28) :
    toCentPlaces x = .ok (k / 100) := by
  refine toCentPlaces_eq (eq_of_near (halfUp_near (x * 100)) ?_) hk
  rw [abs_lt] at h ⊢
  constructor <;> linarith [h.1, h.2]

/-! ## The figures of an even loan -/

/-- The term as the numbers it is counted in. -/
theorem term_cast (t : Terms) :
    ((t.termMonths.toNat : ℕ) : ℤ) = t.termMonths ∧ ((t.termMonths.toNat : ℕ) : ℚ) = t.termMonths ∧
      (12 : ℚ) ≤ t.termMonths ∧ (t.termMonths : ℚ) ≤ 60 := by
  have hterm := t.term_bounds
  have hn : ((t.termMonths.toNat : ℕ) : ℤ) = t.termMonths := Int.toNat_of_nonneg (by omega)
  exact ⟨hn, by exact_mod_cast hn, by exact_mod_cast hterm.1, by exact_mod_cast hterm.2⟩

/-- The loan is never off by more than all its interest from one without interest. -/
structure Flat (t : Terms) (q : ℤ) : Prop where
  cents : 0 ≤ q ∧ q ≤ 10 ^ 7
  principal : toDecimal t.principal = t.termMonths * q / 100
  payment : 0 ≤ exactPayment t - q / 100 ∧ exactPayment t - q / 100 ≤ wholeInterest t
  balance : ∀ j ≤ t.termMonths.toNat,
    |owed (exactPayment t) (exactRate t) j - j * q / 100| ≤ wholeInterest t
  charge : ∀ j ≤ t.termMonths.toNat, 0 ≤ accrued (exactPayment t) (exactRate t) j ∧
    accrued (exactPayment t) (exactRate t) j ≤ wholeInterest t

/-- What is owed of a principal in equal parts, of which each payment is `s` above its part. -/
theorem owed_parts {pmt i q s : ℚ} {n j : ℕ} (hpmt : 0 ≤ pmt) (hi : 0 ≤ i) (hs : pmt = q + s)
    (htotal : owed pmt i n = n * q) (hj : j ≤ n) :
    j * q - (n - j) * s ≤ owed pmt i j ∧ owed pmt i j ≤ j * q + j * s := by
  have hhigh := owed_le hpmt hi j
  have hlow := owed_le_add hpmt hi hj
  rw [htotal, Nat.cast_sub hj] at hlow
  rw [hs] at hhigh hlow ⊢
  constructor <;> linarith

/-- What each payment is above its part of the principal makes all the interest, and what is owed is
off by no more of it than the payments before or after. -/
theorem owed_equal_parts {q : ℤ} (hq : toDecimal t.principal = t.termMonths * q / 100) :
    wholeInterest t = t.termMonths * (exactPayment t - q / 100) ∧ 0 ≤ exactPayment t - q / 100 ∧
      ∀ j ≤ t.termMonths.toNat,
        j * (q / 100 : ℚ) - (t.termMonths - j) * (exactPayment t - q / 100) ≤
            owed (exactPayment t) (exactRate t) j ∧
          owed (exactPayment t) (exactRate t) j ≤
            j * (q / 100 : ℚ) + j * (exactPayment t - q / 100) := by
  obtain ⟨-, hnq, hlow, -⟩ := term_cast t
  obtain ⟨hrate, -⟩ := exactRate_bounds t
  have howed : owed (exactPayment t) (exactRate t) t.termMonths.toNat =
      (t.termMonths.toNat : ℚ) * (q / 100) := by
    rw [owed_exact, hq, hnq, mul_div_assoc]
  have hparts := fun j (hj : j ≤ t.termMonths.toNat) =>
    owed_parts (j := j) (exactPayment_pos t).le hrate.le
      (show exactPayment t = q / 100 + (exactPayment t - q / 100) by rw [add_sub_cancel]) howed hj
  rw [hnq] at hparts
  refine ⟨?_, ?_, hparts⟩
  · rw [wholeInterest, hq]
    ring
  · have hall := (hparts _ le_rfl).2
    rw [howed, hnq] at hall
    exact nonneg_of_mul_nonneg_right
      (by linarith : 0 ≤ (t.termMonths : ℚ) * (exactPayment t - q / 100)) (by linarith)

theorem Even.flat (h : Even t) : ∃ q, Flat t q := by
  obtain ⟨q, hq⟩ := h.principal
  obtain ⟨-, hnq, hlow, -⟩ := term_cast t
  obtain ⟨hrate, -⟩ := exactRate_bounds t
  have hpmt := exactPayment_pos t
  have hP := toDecimal_pos t.principal_bounds.1
  have hP' := principal_le t
  obtain ⟨hwhole, hs0, hparts⟩ := owed_equal_parts hq
  set s := exactPayment t - q / 100 with hs
  have hcents : (0 : ℚ) < t.termMonths * q := by linarith
  have hq0 : (0 : ℚ) < q := (mul_pos_iff_of_pos_left (by linarith)).mp hcents
  have hq' : (q : ℚ) ≤ 10 ^ 7 := by
    have hle : (q : ℚ) ≤ t.termMonths * q := le_mul_of_one_le_left hq0.le (by linarith)
    linarith
  have hsome : ∀ j ≤ t.termMonths.toNat, (j : ℚ) * s ≤ wholeInterest t ∧
      (t.termMonths - j : ℚ) * s ≤ wholeInterest t := by
    intro j hj
    have hj0 : (0 : ℚ) ≤ j := Nat.cast_nonneg j
    have hj' : (j : ℚ) ≤ t.termMonths := by
      rw [← hnq]
      exact_mod_cast hj
    rw [hwhole]
    exact ⟨mul_le_mul_of_nonneg_right hj' hs0, mul_le_mul_of_nonneg_right (by linarith) hs0⟩
  refine ⟨q, ⟨by exact_mod_cast hq0.le, by exact_mod_cast hq'⟩, hq, ⟨hs0, ?_⟩, ?_, ?_⟩
  · have hterm := t.term_bounds
    have hone := (hsome 1 (show 1 ≤ t.termMonths.toNat by omega)).1
    rwa [Nat.cast_one, one_mul] at hone
  · intro j hj
    obtain ⟨hless, hmore⟩ := hparts j hj
    obtain ⟨hfew, hrest⟩ := hsome j hj
    rw [abs_le]
    constructor <;> linarith
  · intro j hj
    refine ⟨accrued_nonneg hpmt.le hrate.le j, ?_⟩
    have hsum := repaid_add_accrued (exactPayment t) (exactRate t) j
    cases j with
    | zero =>
      rw [accrued, pow_zero, sub_self, mul_zero, hwhole]
      positivity
    | succ j =>
      -- what a payment repays is between two balances
      have hstep := owed_succ (exactPayment t) (exactRate t) j
      have hless := (hparts (j + 1) hj).1
      have hmore := (hparts j (by omega)).2
      push_cast at hless
      linarith

/-- What is shown of an even loan. -/
theorem Flat.shown {q : ℤ} {j : ℕ} (h : Flat t q)
    (hinterest : wholeInterest t ≤ 1 / 200 - 1 / 10 ^ 5) (hj : j ≤ t.termMonths.toNat) :
    centsOf (exactPayment t) = q ∧ centsOf (owed (exactPayment t) (exactRate t) j) = j * q ∧
      centsOf (accrued (exactPayment t) (exactRate t) j) = 0 ∧
      centsOf (repaid (exactPayment t) (exactRate t) j) = q := by
  obtain ⟨hsurplus, hsurplus'⟩ := h.payment
  obtain ⟨hcharge, hcharge'⟩ := h.charge j hj
  have hsum := repaid_add_accrued (exactPayment t) (exactRate t) j
  refine ⟨centsOf_eq ?_, centsOf_eq ?_, centsOf_eq ?_, centsOf_eq ?_⟩
  · rw [abs_of_nonneg hsurplus]
    linarith
  · push_cast
    exact (h.balance j hj).trans_lt (by linarith)
  · rw [Int.cast_zero, zero_div, sub_zero, abs_of_nonneg hcharge]
    linarith
  · rw [abs_lt]
    constructor <;> linarith

/-- The disclosure charges an even loan nothing. -/
theorem Flat.charges {q : ℤ} {j : ℕ} (h : Flat t q)
    (hinterest : wholeInterest t ≤ 1 / 200 - 1 / 10 ^ 5) (hj : j ≤ t.termMonths.toNat) :
    Charges (exactPayment t) (exactRate t)
      (Disclosure.monthlyRate .default (toDecimal t.annualRate)) j := by
  obtain ⟨-, howed, hcharge, -⟩ := h.shown hinterest hj
  obtain ⟨hn, hnq, hlow, hhigh⟩ := term_cast t
  obtain ⟨hrate, -⟩ := exactRate_bounds t
  obtain ⟨hdecimal, hdecimal'⟩ := decimalRate_bounds t
  have hP := toDecimal_pos t.principal_bounds.1
  have hnear := (abs_le.mp (monthlyRate_near (toDecimal_pos t.rate_bounds.1).le)).2
  have hrateEq : toDecimal t.annualRate / 100 / 12 = exactRate t := rfl
  rw [hrateEq] at hnear
  rw [Charges, round2_eq, round2_eq, howed, hcharge]
  push_cast
  generalize Disclosure.monthlyRate .default (toDecimal t.annualRate) = r
    at hnear hdecimal hdecimal' ⊢
  -- the first month's interest is the most
  have hfirst : toDecimal t.principal * exactRate t ≤ 1 / 200 - 1 / 10 ^ 5 := by
    have hall := owed_mul_rate (exactPayment t) (show 1 + exactRate t ≠ 0 by linarith)
      t.termMonths.toNat
    rw [owed_exact] at hall
    rw [hall]
    exact (h.charge _ le_rfl).2.trans hinterest
  have hq : (0 : ℚ) ≤ q := by exact_mod_cast h.cents.1
  have hbalance : 0 ≤ (j : ℚ) * q / 100 ∧ (j : ℚ) * q / 100 ≤ toDecimal t.principal := by
    have hj' : (j : ℚ) ≤ t.termMonths := by
      rw [← hnq]
      exact_mod_cast hj
    rw [h.principal]
    exact ⟨by positivity, by gcongr⟩
  have hnonneg : 0 ≤ (j : ℚ) * q / 100 * r := mul_nonneg hbalance.1 hdecimal
  have hle : (j : ℚ) * q / 100 * r ≤ 1 / 200 - 1 / (2 * 10 ^ 5) := by
    have hscale := mul_le_mul_of_nonneg_left
      (show r ≤ exactRate t + exactRate t / 10 ^ 20 by linarith) hP.le
    have hsmaller := mul_le_mul_of_nonneg_right hbalance.2 hdecimal
    linarith
  have hfix := abs_le.mp (fix_amount (x := (j : ℚ) * q / 100 * r) (by
    rw [abs_of_nonneg hnonneg]
    linarith))
  have hshown := toCentPlaces_near (x := Context.default.fix ((j : ℚ) * q / 100 * r)) (k := 0) (by
    rw [abs_lt]
    push_cast
    constructor <;> linarith) (by norm_num)
  rwa [Int.cast_zero] at hshown

/-- **An even loan adds up in cents.** -/
theorem addsUp_of_even (h : Even t) : AddsUp t := by
  obtain ⟨q, hflat⟩ := h.flat
  obtain ⟨hn, hnq, hlow, hhigh⟩ := term_cast t
  obtain ⟨hq, hq'⟩ := hflat.cents
  obtain ⟨pmt, hpmt, -, hnear, hall⟩ := exists_payment t h.rate
  have hinterest := h.interest
  have hpayment := (hflat.shown hinterest (Nat.zero_le _)).1
  obtain ⟨hsurplus, hsurplus'⟩ := hflat.payment
  have hsame : t.payment = exactPayment t := rfl
  rw [hsame, abs_le] at hnear hall
  have hmonthly : toCentPlaces pmt = .ok (round2 (exactPayment t)) := by
    rw [round2_eq, hpayment]
    refine toCentPlaces_near (k := q) ?_ (by rw [abs_lt]; omega)
    rw [abs_lt]
    constructor <;> linarith
  have htotal : toCentPlaces (Context.default.fix (pmt * t.termMonths)) =
      .ok (t.termMonths * round2 (exactPayment t)) := by
    have hcents : ((t.termMonths * q : ℤ) : ℚ) / 100 = t.termMonths * ((q : ℚ) / 100) := by
      push_cast
      ring
    have hwhole : t.termMonths * exactPayment t - toDecimal t.principal = wholeInterest t := rfl
    have hnonneg := (hflat.charge 0 (Nat.zero_le _)).1.trans (hflat.charge 0 (Nat.zero_le _)).2
    rw [round2_eq, hpayment, ← hcents]
    refine toCentPlaces_near (k := t.termMonths * q) ?_ ?_
    · rw [hcents, ← mul_div_assoc, ← hflat.principal, abs_lt]
      constructor <;> linarith
    · have hterm := t.term_bounds
      have hle : t.termMonths * q ≤ 60 * 10 ^ 7 := mul_le_mul hterm.2 hq' hq (by norm_num)
      rw [abs_of_nonneg (mul_nonneg (by omega) hq)]
      omega
  refine ⟨?_, ?_, ?_, fun j _ hj => hflat.charges h.interest hj⟩
  · rw [hpmt]
    exact hmonthly
  · rw [hpmt]
    exact htotal
  · intro j hone hj
    obtain ⟨hpayment, hbalance, hcharge, hpart⟩ := hflat.shown h.interest hj
    have hbefore := (hflat.shown h.interest (show j - 1 ≤ t.termMonths.toNat by omega)).2.1
    rw [splits_iff, hpayment, hbalance, hcharge, hpart, hbefore, Nat.cast_sub hone]
    constructor
    · rw [add_zero]
    · push_cast
      ring

/-- **A loan that adds up** has a level payment all but in whole cents. -/
theorem wholePayment_of_addsUp (hrate : 1 / 10 ^ 8 ≤ toDecimal t.annualRate) (h : AddsUp t) :
    WholePayment t := by
  obtain ⟨pmt, hpmt, -, hnear, hall⟩ := exists_payment t hrate
  have hsame : t.payment = exactPayment t := rfl
  rw [hsame, abs_le] at hall
  have htotal := h.total
  rw [hpmt] at htotal
  obtain ⟨hvalue, -⟩ := toCentPlaces_ok (htotal : toCentPlaces _ = _)
  have hround := abs_le.mp (halfUp_near (Context.default.fix (pmt * t.termMonths) * 100))
  rw [round2_eq] at hvalue
  refine ⟨centsOf (exactPayment t), abs_le.mpr ⟨?_, ?_⟩⟩ <;> linarith

/-- **The two schedules** are the same for an even loan whose due dates exist, and only where the
exact level payment is all but in whole cents. -/
theorem sameSchedule_bounds (hwhole : t.WholeCents) (apr : ℚ) (start : CalendarDate) :
    (Even t → start.year + (start.month - 1 + t.termMonths.toNat) / 12 ≤ 9999 →
      SameSchedule t apr start) ∧
    (SameSchedule t apr start → start.year + (start.month - 1 + t.termMonths.toNat) / 12 ≤ 9999 ∧
      (1 / 10 ^ 8 ≤ toDecimal t.annualRate → WholePayment t)) := by
  rw [sameSchedule_iff hwhole]
  refine ⟨fun heven hyear => ⟨addsUp_of_even heven, hyear⟩, fun h => ⟨h.2, fun hrate => ?_⟩⟩
  exact wholePayment_of_addsUp hrate h.1

/-- **A residue shows**: equal payments of whole cents, and interest from half a cent up to half a
cent below one for each payment. -/
theorem differs_of_residue {q : ℤ} (hprincipal : toDecimal t.principal = t.termMonths * q / 100)
    (hrate : 1 / 10 ^ 8 ≤ toDecimal t.annualRate) (hlow : 1 / 200 + 1 / 10 ^ 5 < wholeInterest t)
    (hhigh : wholeInterest t < t.termMonths / 100 - (1 / 200 + 1 / 10 ^ 5)) (apr : ℚ)
    (start : CalendarDate) : ¬SameSchedule t apr start := by
  intro h
  have hwhole : t.WholeCents := ⟨t.termMonths * q, by push_cast; exact hprincipal⟩
  obtain ⟨m, hm⟩ := wholePayment_of_addsUp hrate ((sameSchedule_iff hwhole apr start).mp h).1
  have hn : (12 : ℚ) ≤ t.termMonths := by exact_mod_cast t.term_bounds.1
  have hsum : t.termMonths * exactPayment t = t.termMonths * q / 100 + wholeInterest t := by
    rw [wholeInterest, hprincipal, add_sub_cancel]
  rw [hsum, abs_le] at hm
  rcases le_or_gt m q with hle | hgt
  · have hmq : (m : ℚ) ≤ q := by exact_mod_cast hle
    linarith [mul_le_mul_of_nonneg_left hmq (show (0 : ℚ) ≤ t.termMonths by linarith)]
  · have hmq : (q : ℚ) + 1 ≤ m := by exact_mod_cast hgt
    linarith [mul_le_mul_of_nonneg_left hmq (show (0 : ℚ) ≤ t.termMonths by linarith)]

/-- 1200 over twelve months at 0.0005 per cent. -/
def evenLoan : Terms where
  principal := ⟨false, 5277655813324800, -42, by decide⟩
  annualRate := ⟨false, 4611686018427388, -63, by decide⟩
  termMonths := 12
  principal_bounds := by decide +kernel
  rate_bounds := by decide +kernel
  term_bounds := oneYear_bounds

/-- Twelve payments of 100.00. -/
theorem evenLoan_even : Even evenLoan := by
  refine ⟨?_, ⟨10000, ?_⟩, ?_⟩ <;> decide +kernel

theorem evenLoan_same : evenLoan.WholeCents ∧ SameSchedule evenLoan 0 newYear := by
  have hwhole : evenLoan.WholeCents := ⟨120000, by decide +kernel⟩
  exact ⟨hwhole, (sameSchedule_bounds hwhole 0 newYear).1 evenLoan_even (by decide)⟩

end Meridian.Servicing
