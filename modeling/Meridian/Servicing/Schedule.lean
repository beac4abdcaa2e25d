import Meridian.Disclosure.Schedule
import Meridian.Numeric.Annuity

/-!
# The servicing schedule

`schedule.py` and `loan_schedule` of the servicing service. Its floats are read as the numbers they
stand for and its arithmetic as exact; `round(x, 2)` goes to the even cent.
-/

namespace Meridian.Servicing

open Python Numeric Disclosure

/-- What building a schedule raises. -/
inductive ScheduleFault
  /-- `ZeroDivisionError` -/
  | zeroDivision
  /-- `year is out of range` -/
  | yearOutOfRange
  deriving DecidableEq

/-- `x / y` -/
def divide (x y : ℚ) : Except ScheduleFault ℚ :=
  if y = 0 then .error .zeroDivision else .ok (x / y)

/-- `round(x, 2)` -/
def round2 (x : ℚ) : ℚ := halfEven (x * 100) / 100

/-- `(annual_rate_pct / 100.0) / 12.0` -/
def monthlyRate (annualRatePct : ℚ) : ℚ := annualRatePct / 100 / 12

/-- `monthly_payment` -/
def monthlyPayment (principal annualRatePct : ℚ) (termMonths : ℤ) : Except ScheduleFault ℚ :=
  let r := monthlyRate annualRatePct
  if r = 0 then divide principal termMonths
  else
    let factor := (1 + r) ^ termMonths
    divide (principal * r * factor) (factor - 1)

/-- `_add_months` -/
def addMonths (d : CalendarDate) (months : ℕ) : Option CalendarDate :=
  let month := d.month - 1 + months
  calendarDate (d.year + month / 12) (month % 12 + 1) (min d.day 28)

/-- `due.isoformat()` -/
def dueDate (start : CalendarDate) (n : ℕ) : Except ScheduleFault Text :=
  match addMonths start n with
  | some d => .ok d.isoFormat
  | none => .error .yearOutOfRange

/-- The rows of these numbers, from a balance on. -/
def amortizeRows (start : CalendarDate) (termMonths : ℤ) (pmt monthlyRate : ℚ) :
    List ℕ → ℚ → Except ScheduleFault (List (ScheduleRow ℚ))
  | [], _ => pure []
  | n :: ns, balance => do
    let interest := balance * monthlyRate
    let part := pmt - interest
    let left := balance - part
    let last : Bool := (n : ℤ) = termMonths
    let principalPart := if last then part + left else part
    let balance := if last then 0 else left
    let due ← dueDate start n
    let rows ← amortizeRows start termMonths pmt monthlyRate ns balance
    pure (⟨n, due, round2 pmt, round2 principalPart, round2 interest, round2 (max balance 0)⟩ :: rows)

/-- `amortization` -/
def amortization (principal annualRatePct : ℚ) (termMonths : ℤ) (start : CalendarDate) :
    Except ScheduleFault (List (ScheduleRow ℚ)) := do
  let pmt ← monthlyPayment principal annualRatePct termMonths
  amortizeRows start termMonths pmt (monthlyRate annualRatePct)
    (List.range' 1 termMonths.toNat) principal

/-- The columns of `loans` a schedule is built of. -/
structure Loan where
  principal : ℚ
  apr : ℚ
  noteRate : Option ℚ
  termMonths : ℤ

/-- `loan_schedule` -/
def loanSchedule (loan : Loan) (start : CalendarDate) :
    Except ScheduleFault (List (ScheduleRow ℚ)) :=
  amortization loan.principal (loan.noteRate.getD loan.apr) loan.termMonths start

end Meridian.Servicing
