import Meridian.Disclosure.Apr
import Meridian.Python.Nearest
import Meridian.Python.Reading

/-!
# The offer

`offer.py` over the fee schedule `rules.py` loads and the terms `OfferIn` and `DisclosureIn` admit.
A `FeeSchedule` and a `Terms` carry the bounds they were accepted under.
-/

namespace Meridian.Disclosure

open Python Numeric

/-- The part of `FeeSchedule` a disclosure is computed under, as `load_fee_schedule` accepts it. -/
structure FeeSchedule where
  version : Text
  originationFeePct : F64
  version_ne : strip version ≠ []
  fee_bounds : 0 ≤ originationFeePct.toRat ∧ originationFeePct.toRat ≤ 1 / 4

/-- `principal`, `annual_rate` and `term_months` of `OfferIn` and of `DisclosureIn`. -/
structure Terms where
  principal : F64
  annualRate : F64
  termMonths : ℤ
  principal_bounds : 0 < principal.toRat ∧ principal.toRat ≤ 50000
  rate_bounds : 0 < annualRate.toRat ∧ annualRate.toRat ≤ 35
  term_bounds : 12 ≤ termMonths ∧ termMonths ≤ 60

/-- The rate an offer has by default, 7.99 percent. -/
def defaultRate : F64 := ⟨false, 8995940255672566, -50, by decide⟩

theorem defaultRate_bounds : 0 < defaultRate.toRat ∧ defaultRate.toRat ≤ 35 := by decide +kernel

theorem fourYears_bounds : (12 : ℤ) ≤ 48 ∧ (48 : ℤ) ≤ 60 := by decide

theorem oneYear_bounds : (12 : ℤ) ≤ 12 ∧ (12 : ℤ) ≤ 60 := by decide

/-- A principal of 18000. -/
def carPrice : F64 := ⟨false, 4947802324992000, -38, by decide⟩

theorem carPrice_bounds : 0 < carPrice.toRat ∧ carPrice.toRat ≤ 50000 := by decide +kernel

/-- The five figures of the Reg Z box. -/
structure Box (α : Type) where
  apr : α
  financeCharge : α
  monthlyPayment : α
  amountFinanced : α
  totalOfPayments : α
  deriving DecidableEq

def Box.map {α β : Type} (f : α → β) (b : Box α) : Box β :=
  ⟨f b.apr, f b.financeCharge, f b.monthlyPayment, f b.amountFinanced, f b.totalOfPayments⟩

/-- `value.quantize(CENTS, rounding=ROUND_HALF_UP)` -/
def toCentPlaces (value : ℚ) : Except Fault ℚ := raising (Context.default.quantize cents value)

/-- `build_offer` before the figures become floats. -/
def offerFigures (feePct principal annualRatePct : ℚ) (termMonths : ℤ) : Except Fault (Box ℚ) := do
  let c := Context.default
  let pmt ← monthlyPayment c principal annualRatePct termMonths
  let apr ← computeApr c feePct principal annualRatePct termMonths
  let financeCharge ← toCentPlaces (← financeCharge c feePct principal annualRatePct termMonths)
  let monthlyPayment ← toCentPlaces pmt
  let amountFinanced ← toCentPlaces (← amountFinanced c feePct principal)
  let totalOfPayments ← toCentPlaces (c.fix (pmt * termMonths))
  pure ⟨apr, financeCharge, monthlyPayment, amountFinanced, totalOfPayments⟩

/-- `build_offer` -/
def buildOffer (s : FeeSchedule) (t : Terms) : Except Fault (Box Double) := do
  let figures ← offerFigures (toDecimal s.originationFeePct) (toDecimal t.principal)
    (toDecimal t.annualRate) t.termMonths
  pure (figures.map Double.ofRat)

/-! ## What a float's text says about its bounds -/

theorem toDecimal_eq (f : F64) : toDecimal f = (if f.neg then -1 else 1) * f.decimal := by
  obtain ⟨d, hd, hneg, hvalue⟩ := F64.ofText_repr f
  simp only [toDecimal, hd, Decimal.value, signed, hneg, ← hvalue]
  split_ifs <;> push_cast <;> ring

/-- A number that is not below zero is read as its text without a sign. -/
theorem toDecimal_of_nonneg {f : F64} (h : 0 ≤ f.toRat) :
    toDecimal f = f.decimal ∧ f.toRat = f.value := by
  unfold F64.toRat at h ⊢
  rw [toDecimal_eq]
  by_cases hneg : f.neg = true
  · rw [if_pos hneg] at h ⊢
    have hmant : f.mant = 0 := by
      by_contra hne
      have hpos := F64.value_pos hne
      linarith
    rw [if_pos hneg, F64.decimal_zero hmant, F64.value_zero hmant, mul_zero, neg_zero]
    exact ⟨rfl, rfl⟩
  · rw [if_neg hneg, if_neg hneg, one_mul]
    exact ⟨rfl, rfl⟩

theorem toDecimal_nonneg {f : F64} (h : 0 ≤ f.toRat) : 0 ≤ toDecimal f := by
  rw [(toDecimal_of_nonneg h).1]
  by_cases hmant : f.mant = 0
  · exact (F64.decimal_zero hmant).ge
  · exact (F64.decimal_pos hmant).le

theorem toDecimal_pos {f : F64} (h : 0 < f.toRat) : 0 < toDecimal f := by
  rw [(toDecimal_of_nonneg h.le).1]
  refine F64.decimal_pos fun hmant => ?_
  rw [(toDecimal_of_nonneg h.le).2, F64.value_zero hmant] at h
  exact h.false

theorem toDecimal_le {f : F64} (h : 0 ≤ f.toRat) : toDecimal f ≤ 3 / 2 * f.toRat := by
  rw [(toDecimal_of_nonneg h).1, (toDecimal_of_nonneg h).2]
  exact f.decimal_le

end Meridian.Disclosure
