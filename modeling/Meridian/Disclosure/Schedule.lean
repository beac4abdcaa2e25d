import Meridian.Disclosure.Figures
import Meridian.Python.Date

/-!
# The disclosed schedule

`schedule.py` of the disclosure service. A row is in the decimals it is computed in; `float` and the
response keep the cents. The last row closes the loan and squares the total: its payment is what is
left of the disclosed total of payments, which is taken of the unrounded payment.

* `amortizeRows`: the loop, over the numbers of the rows that are left.
* `split_level`, `split_last`: a row in whole cents, and the row that closes the loan.
* `plan_ok`: the level payment and the total before the rows.
-/

namespace Meridian.Disclosure

open Python Numeric

/-- A row of a schedule. -/
structure ScheduleRow (α : Type) where
  n : ℕ
  dueDate : Text
  payment : α
  principal : α
  interest : α
  balance : α
  deriving DecidableEq

/-- What building a schedule raises. -/
inductive ScheduleFault
  | figure (f : Fault)
  /-- `year is out of range` -/
  | yearOutOfRange
  deriving DecidableEq

/-- A figure's own exception. -/
def figuring {α : Type} : Except Fault α → Except ScheduleFault α
  | .ok a => .ok a
  | .error f => .error (.figure f)

/-- `_add_months` -/
def addMonths (d : CalendarDate) (months : ℕ) : Option CalendarDate :=
  let month := d.month - 1 + months
  calendarDate (d.year + month / 12) (month % 12 + 1) (min d.day 28)

/-- `due.isoformat()` -/
def dueDate (start : CalendarDate) (n : ℕ) : Except ScheduleFault Text :=
  match addMonths start n with
  | some d => .ok d.isoFormat
  | none => .error .yearOutOfRange

/-- What `amortization` computes before its rows. -/
structure Plan where
  start : CalendarDate
  termMonths : ℤ
  pmtCents : ℚ
  finalPayment : ℚ
  monthlyRate : ℚ

section Rows

variable (p : Plan)

/-- A row's payment, principal and interest, and the balance after it. -/
structure Split where
  payment : ℚ
  principal : ℚ
  interest : ℚ
  balance : ℚ

/-- A row's split, of the balance before it and the interest on it. -/
def split (n : ℕ) (balance interest : ℚ) : Split :=
  let c := Context.default
  let principalPart := c.fix (p.pmtCents - interest)
  let balance := c.fix (balance - principalPart)
  if (n : ℤ) = p.termMonths then
    let principalPart := c.fix (principalPart + balance)
    ⟨p.finalPayment, principalPart, c.fix (p.finalPayment - principalPart), 0⟩
  else ⟨p.pmtCents, principalPart, interest, balance⟩

/-- The rows of these numbers, from a balance on. -/
def amortizeRows : List ℕ → ℚ → Except ScheduleFault (List (ScheduleRow ℚ))
  | [], _ => pure []
  | n :: ns, balance => do
    let interest ← figuring (toCentPlaces (Context.default.fix (balance * p.monthlyRate)))
    let s := split p n balance interest
    let due ← dueDate p.start n
    let principal ← figuring (toCentPlaces s.principal)
    let shown ← figuring (toCentPlaces (max s.balance 0))
    let rows ← amortizeRows ns s.balance
    pure (⟨n, due, s.payment, principal, s.interest, shown⟩ :: rows)

end Rows

/-- What `amortization` computes before its rows, of the payment. -/
def plan (start : CalendarDate) (annualRatePct : ℚ) (termMonths : ℤ) (pmt : ℚ) :
    Except Fault Plan := do
  let c := Context.default
  let pmtCents ← toCentPlaces pmt
  let totalOfPayments ← toCentPlaces (c.fix (pmt * termMonths))
  pure ⟨start, termMonths, pmtCents,
    c.fix (totalOfPayments - c.fix (pmtCents * ((termMonths - 1 : ℤ) : ℚ))),
    monthlyRate c annualRatePct⟩

/-- `amortization` -/
def amortization (principal annualRatePct : ℚ) (termMonths : ℤ) (start : CalendarDate) :
    Except ScheduleFault (List (ScheduleRow ℚ)) := do
  let pmt ← figuring (monthlyPayment Context.default principal annualRatePct termMonths)
  let p ← figuring (plan start annualRatePct termMonths pmt)
  amortizeRows p (List.range' 1 termMonths.toNat) principal

/-- A due date is a date up to the year 9999. -/
theorem addMonths_isSome (d : CalendarDate) (months : ℕ) :
    (addMonths d months).isSome ↔ d.year + (d.month - 1 + months) / 12 ≤ 9999 := by
  have hvalid : 1 ≤ d.year ∧ 1 ≤ d.day := by
    have hsome := d.valid
    unfold ordinal at hsome
    split at hsome
    · rename_i hfields
      exact ⟨hfields.1, hfields.2.2.2.2.1⟩
    · cases hsome
  exact calendarDate_isSome (by omega) (by omega) (by omega) (by omega) (by omega)

/-! ## Loops that return -/

section Returns

variable {p : Plan} {n : ℕ} {ns : List ℕ} {b i : ℚ} {rows : List (ScheduleRow ℚ)}

theorem of_figuring_ok {α : Type} {x : Except Fault α} {a : α} (h : figuring x = .ok a) :
    x = .ok a := by
  cases x with
  | error f => cases h
  | ok b =>
    cases h
    rfl

/-- What a row that was built shows. -/
theorem amortizeRows_ok (h : amortizeRows p (n :: ns) b = .ok rows) :
    ∃ i due principal shown rest,
      toCentPlaces (Context.default.fix (b * p.monthlyRate)) = .ok i ∧
      dueDate p.start n = .ok due ∧ toCentPlaces (split p n b i).principal = .ok principal ∧
      toCentPlaces (max (split p n b i).balance 0) = .ok shown ∧
      amortizeRows p ns (split p n b i).balance = .ok rest ∧
      rows = ⟨n, due, (split p n b i).payment, principal, (split p n b i).interest, shown⟩ :: rest := by
  obtain ⟨i, hi, h⟩ := of_bind_ok h
  obtain ⟨due, hdue, h⟩ := of_bind_ok h
  obtain ⟨principal, hprincipal, h⟩ := of_bind_ok h
  obtain ⟨shown, hshown, h⟩ := of_bind_ok h
  obtain ⟨rest, hrest, h⟩ := of_bind_ok h
  cases h
  exact ⟨i, due, principal, shown, rest, of_figuring_ok hi, hdue, of_figuring_ok hprincipal,
    of_figuring_ok hshown, hrest, rfl⟩

theorem amortizeRows_eq {due : Text} {principal shown : ℚ}
    (hi : toCentPlaces (Context.default.fix (b * p.monthlyRate)) = .ok i)
    (hdue : dueDate p.start n = .ok due)
    (hprincipal : toCentPlaces (split p n b i).principal = .ok principal)
    (hshown : toCentPlaces (max (split p n b i).balance 0) = .ok shown)
    (hrest : amortizeRows p ns (split p n b i).balance = .ok rows) :
    amortizeRows p (n :: ns) b = .ok
      (⟨n, due, (split p n b i).payment, principal, (split p n b i).interest, shown⟩ :: rows) := by
  unfold amortizeRows
  rw [hi, figuring, bind_of_ok rfl]
  dsimp only
  rw [bind_of_ok hdue, hprincipal, figuring, bind_of_ok rfl, hshown, figuring, bind_of_ok rfl,
    bind_of_ok hrest]
  rfl

theorem plan_ok {start : CalendarDate} {rate pmt : ℚ} {termMonths : ℤ}
    (h : plan start rate termMonths pmt = .ok p) :
    ∃ pmtCents total, toCentPlaces pmt = .ok pmtCents ∧
      toCentPlaces (Context.default.fix (pmt * termMonths)) = .ok total ∧
      p = ⟨start, termMonths, pmtCents, Context.default.fix
        (total - Context.default.fix (pmtCents * ((termMonths - 1 : ℤ) : ℚ))),
        monthlyRate .default rate⟩ := by
  obtain ⟨pmtCents, hpmtCents, h⟩ := of_bind_ok h
  obtain ⟨total, htotal, h⟩ := of_bind_ok h
  cases h
  exact ⟨pmtCents, total, hpmtCents, htotal, rfl⟩

end Returns

/-! ## Rows in whole cents -/

section Cents

variable {p : Plan} {n : ℕ} {m b i : ℤ}

theorem fix_sub_cents {a b : ℤ} (h : |a - b| ≤ 10 ^ 28) :
    Context.default.fix ((a : ℚ) / 100 - b / 100) = ((a - b : ℤ) : ℚ) / 100 := by
  rw [← sub_div, ← Int.cast_sub, fix_hundredths h]

theorem fix_add_cents {a b : ℤ} (h : |a + b| ≤ 10 ^ 28) :
    Context.default.fix ((a : ℚ) / 100 + b / 100) = ((a + b : ℤ) : ℚ) / 100 := by
  rw [← add_div, ← Int.cast_add, fix_hundredths h]

/-- A level row. -/
theorem split_level (hn : (n : ℤ) ≠ p.termMonths) (hm : p.pmtCents = m / 100)
    (hpart : |m - i| ≤ 10 ^ 28) (hleft : |b - (m - i)| ≤ 10 ^ 28) :
    split p n (b / 100) (i / 100) =
      ⟨m / 100, ((m - i : ℤ) : ℚ) / 100, i / 100, ((b - (m - i) : ℤ) : ℚ) / 100⟩ := by
  unfold split
  simp only [if_neg hn, hm, fix_sub_cents hpart, fix_sub_cents hleft]

/-- **The last row** repays what is left. -/
theorem split_last (hn : (n : ℤ) = p.termMonths) (hm : p.pmtCents = m / 100) (hb : |b| ≤ 10 ^ 28)
    (hpart : |m - i| ≤ 10 ^ 28) (hleft : |b - (m - i)| ≤ 10 ^ 28) :
    split p n (b / 100) (i / 100) =
      ⟨p.finalPayment, b / 100, Context.default.fix (p.finalPayment - b / 100), 0⟩ := by
  have hall : m - i + (b - (m - i)) = b := by omega
  unfold split
  simp only [if_pos hn, hm, fix_sub_cents hpart, fix_sub_cents hleft,
    fix_add_cents (hall.symm ▸ hb), hall]

/-- Interest on an amount at a rate below one fits. -/
theorem interest_fits {rate : ℚ} (hrate : 0 ≤ rate) (hrate' : rate ≤ 1) (hb : 0 ≤ b)
    (hb' : b ≤ 10 ^ 12) : ∃ i : ℤ, 0 ≤ i ∧ i ≤ 10 ^ 13 ∧
      toCentPlaces (Context.default.fix (b / 100 * rate)) = .ok (i / 100) := by
  have hbq : (0 : ℚ) ≤ b := by exact_mod_cast hb
  have hbq' : (b : ℚ) ≤ 10 ^ 12 := by exact_mod_cast hb'
  have hlow : 0 ≤ (b : ℚ) / 100 * rate := by positivity
  have hhigh : (b : ℚ) / 100 * rate ≤ 10 ^ 10 := by
    calc (b : ℚ) / 100 * rate ≤ b / 100 * 1 := mul_le_mul_of_nonneg_left hrate' (by positivity)
      _ ≤ 10 ^ 10 := by linarith
  have hfix := abs_le.mp (fix_near ((b : ℚ) / 100 * rate))
  rw [abs_of_nonneg hlow] at hfix
  have hzero : halfUp (0 : ℚ) = 0 := by simpa using halfUp_intCast (K := ℚ) 0
  have hpos : 0 ≤ halfUp (Context.default.fix ((b : ℚ) / 100 * rate) * 100) := by
    rw [← hzero]
    exact halfUp_mono (by linarith [hfix.1])
  have hle : halfUp (Context.default.fix ((b : ℚ) / 100 * rate) * 100) ≤ 10 ^ 13 := by
    have htop : halfUp ((10 ^ 13 : ℤ) : ℚ) = 10 ^ 13 := halfUp_intCast _
    rw [← htop]
    refine halfUp_mono ?_
    push_cast
    linarith [hfix.2]
  refine ⟨_, hpos, hle, toCentPlaces_eq rfl ?_⟩
  rw [abs_of_nonneg hpos]
  exact hle.trans_lt (by norm_num)

/-- **The last payment is level** when the total is that many level payments. -/
theorem finalPayment_level_iff {pmt total : ℚ} {n : ℤ} (hm : toCentPlaces pmt = .ok (m / 100))
    (htotal : toCentPlaces (Context.default.fix (pmt * n)) = .ok total) (hm0 : 0 ≤ m)
    (hm' : m ≤ 10 ^ 8) (hn : 1 ≤ n) (hn' : n ≤ 60) :
    Context.default.fix (total - Context.default.fix ((m : ℚ) / 100 * ((n - 1 : ℤ) : ℚ))) =
      (m : ℚ) / 100 ↔ total = n * ((m : ℚ) / 100) := by
  obtain ⟨hpmt, -⟩ := toCentPlaces_ok hm
  rw [div_left_inj' (by norm_num), Int.cast_inj] at hpmt
  obtain ⟨hT, -⟩ := toCentPlaces_ok htotal
  have hnear := abs_le.mp (halfUp_near (pmt * 100))
  rw [← hpmt] at hnear
  have hmq : (0 : ℚ) ≤ m := by exact_mod_cast hm0
  have hmq' : (m : ℚ) ≤ 10 ^ 8 := by exact_mod_cast hm'
  have hnq : (1 : ℚ) ≤ n := by exact_mod_cast hn
  have hnq' : (n : ℚ) ≤ 60 := by exact_mod_cast hn'
  have habs : |pmt * n| ≤ 10 ^ 9 := by
    have hp : |pmt| ≤ 10 ^ 7 := by
      rw [abs_le]
      constructor <;> linarith [hnear.1, hnear.2]
    calc |pmt * n| = |pmt| * |(n : ℚ)| := abs_mul _ _
      _ ≤ 10 ^ 7 * 60 := mul_le_mul hp (by rwa [abs_of_nonneg (by linarith)]) (abs_nonneg _) (by norm_num)
      _ ≤ 10 ^ 9 := by norm_num
  have hfix := abs_le.mp (fix_near (pmt * n))
  have hlow := abs_le.mp habs
  have hround := abs_le.mp (halfUp_near (Context.default.fix (pmt * n) * 100))
  generalize halfUp (Context.default.fix (pmt * n) * 100) = τ at hT hround
  have hτ : (τ : ℚ) ≤ 10 ^ 12 ∧ -(10 : ℚ) ^ 12 ≤ τ := by
    constructor <;> linarith [hfix.1, hfix.2, hround.1, hround.2, hlow.1, hlow.2]
  have hτ : τ ≤ 10 ^ 12 ∧ -10 ^ 12 ≤ τ := by exact_mod_cast hτ
  have hprod : m * (n - 1) ≤ 10 ^ 10 := by
    calc m * (n - 1) ≤ 10 ^ 8 * 59 := mul_le_mul hm' (by omega) (by omega) (by norm_num)
      _ ≤ 10 ^ 10 := by norm_num
  have hprod0 : 0 ≤ m * (n - 1) := mul_nonneg hm0 (by omega)
  have hlevel : (m : ℚ) / 100 * ((n - 1 : ℤ) : ℚ) = ((m * (n - 1) : ℤ) : ℚ) / 100 := by
    push_cast
    ring
  rw [hlevel, fix_hundredths (by rw [abs_le]; omega), hT, fix_sub_cents (by rw [abs_le]; omega),
    div_left_inj' (by norm_num), Int.cast_inj, ← mul_div_assoc, div_left_inj' (by norm_num)]
  have hcast : ((τ : ℚ) = n * m) ↔ τ = n * m := by exact_mod_cast Iff.rfl
  rw [hcast, mul_sub, mul_one, mul_comm n m]
  omega

end Cents

end Meridian.Disclosure
