import Meridian.Numeric.Bisection
import Meridian.Python.Context
import Meridian.Python.Float
import Meridian.Python.Raise

/-!
# The disclosed figures

`apr.py`: the level payment, the prepaid finance charge, the finance charge and the actuarial rate,
over an arithmetic context. A figure is computed under `Context.default`; `Context.exact` reads the
same code as exact rationals. Amounts and rates are the decimals `to_decimal` makes of a float's
text; the fee is the fraction the loaded schedule holds.
-/

namespace Meridian.Disclosure

open Python Numeric

/-- What a computation raises. -/
inductive Fault
  | decimal (f : DecimalFault)
  /-- `principal must be positive, got {principal}` -/
  | principalNotPositive (principal : ℚ)
  /-- `term_months must be positive, got {term_months}` -/
  | termNotPositive (termMonths : ℤ)
  /-- `amount financed must be positive, got {financed} (principal {principal} net of prepaid finance
  charges)` -/
  | financedNotPositive (financed principal : ℚ)
  deriving DecidableEq

/-- An operation's own exception. -/
def raising {α : Type} : Except DecimalFault α → Except Fault α
  | .ok a => .ok a
  | .error f => .error (.decimal f)

/-- `CENTS` -/
def cents : ℚ := 1 / 100

/-- `APR_PLACES` -/
def aprPlaces : ℚ := 1 / 1000

/-- `_ITERATIONS` -/
def iterations : ℕ := 200

/-- `to_decimal` of a float: the number its text spells. -/
def toDecimal (f : F64) : ℚ :=
  match Decimal.ofText f.repr with
  | .ok d => d.value
  | .error _ => 0

/-- `_validate` -/
def validate (principal : ℚ) (termMonths : ℤ) : Except Fault Unit :=
  if principal ≤ 0 then .error (.principalNotPositive principal)
  else if termMonths ≤ 0 then .error (.termNotPositive termMonths)
  else .ok ()

section Figures

variable (c : Context)

/-- The monthly rate of an annual percentage. -/
def monthlyRate (annualRatePct : ℚ) : ℚ := c.fix (c.fix (annualRatePct / 100) / 12)

/-- `monthly_payment` -/
def monthlyPayment (principal annualRatePct : ℚ) (termMonths : ℤ) : Except Fault ℚ := do
  validate principal termMonths
  let r := monthlyRate c annualRatePct
  if r = 0 then pure (c.fix (principal / termMonths))
  else
    let factor := c.power (c.fix (1 + r)) termMonths
    raising (c.div (c.fix (c.fix (principal * r) * factor)) (c.fix (factor - 1)))

/-- `prepaid_finance_charge` -/
def prepaidFinanceCharge (feePct principal : ℚ) : Except Fault ℚ :=
  raising (c.quantize cents (c.fix (principal * feePct)))

/-- `amount_financed` -/
def amountFinanced (feePct principal : ℚ) : Except Fault ℚ := do
  let fee ← prepaidFinanceCharge c feePct principal
  pure (c.fix (principal - fee))

/-- `interest_charge` -/
def interestCharge (principal annualRatePct : ℚ) (termMonths : ℤ) : Except Fault ℚ := do
  validate principal termMonths
  let pmt ← monthlyPayment c principal annualRatePct termMonths
  pure (c.fix (c.fix (pmt * termMonths) - principal))

/-- `finance_charge` -/
def financeCharge (feePct principal annualRatePct : ℚ) (termMonths : ℤ) : Except Fault ℚ := do
  let interest ← interestCharge c principal annualRatePct termMonths
  let fee ← prepaidFinanceCharge c feePct principal
  raising (c.quantize cents (c.fix (interest + fee)))

/-- `_present_value` -/
def presentValue (payment rate : ℚ) (termMonths : ℤ) : ℚ :=
  if rate = 0 then c.fix (payment * termMonths)
  else c.fix (c.fix (payment * c.fix (1 - c.power (c.fix (1 + rate)) (-termMonths))) / rate)

/-- The bracket of `compute_apr` after `k` halvings. -/
def bracket (payment financed : ℚ) (termMonths : ℤ) (k : ℕ) : ℚ × ℚ :=
  bisect (fun lo hi => c.fix (c.fix (lo + hi) / 2))
    (fun mid => financed < presentValue c payment mid termMonths) k (0, 1)

/-- `compute_apr` -/
def computeApr (feePct principal annualRatePct : ℚ) (termMonths : ℤ) : Except Fault ℚ := do
  validate principal termMonths
  let payment ← monthlyPayment c principal annualRatePct termMonths
  let financed ← amountFinanced c feePct principal
  if financed ≤ 0 then .error (.financedNotPositive financed principal)
  else
    let b := bracket c payment financed termMonths iterations
    let monthly := c.fix (c.fix (b.1 + b.2) / 2)
    raising (c.quantize aprPlaces (c.fix (c.fix (monthly * 12) * 100)))

end Figures

/-! ## Computations that return -/

theorem of_raising_ok {α : Type} {x : Except DecimalFault α} {a : α} (h : raising x = .ok a) :
    x = .ok a := by
  cases x with
  | error f => cases h
  | ok b =>
    cases h
    rfl

theorem validate_ok {principal : ℚ} {termMonths : ℤ} {u : Unit}
    (h : validate principal termMonths = .ok u) : 0 < principal ∧ 0 < termMonths := by
  unfold validate at h
  split_ifs at h with hp hn
  exact ⟨not_le.mp hp, not_le.mp hn⟩

theorem validate_eq {principal : ℚ} {termMonths : ℤ} (hp : 0 < principal) (hn : 0 < termMonths) :
    validate principal termMonths = .ok () := by
  unfold validate
  rw [if_neg (not_le.mpr hp), if_neg (not_le.mpr hn)]

end Meridian.Disclosure
