import Meridian.Disclosure.Schedule

/-!
# The rows of a schedule account for the loan

An induction over the rows that are left. The balance before a row is any number of cents, what a
level row charges and repays is exact as long as the balance stays within the digits of the context,
and the last row repays whatever the roundings have left.

* `Accounts`: payments split, principal parts sum to the balance, the shown balances follow.
* `levelRow_accounts`, `lastRow_accounts`: one row; `rows_account`: the rows that are left.
* `schedule_accounts`: the schedule of a loan.
-/

namespace Meridian.Disclosure

open Python Numeric

/-! ## Due dates -/

section Dates

variable {start d d' : CalendarDate} {k k' : ℕ} {t t' : Text}

theorem calendarDate_fields {y m n : ℕ} (h : calendarDate y m n = some d) :
    d.year = y ∧ d.month = m ∧ d.day = n := by
  unfold calendarDate at h
  split at h
  · cases h
    exact ⟨rfl, rfl, rfl⟩
  · cases h

theorem parseDate_of_date (d : CalendarDate) :
    ∃ n, ordinal d.year d.month d.day = some n ∧ parseDate d.isoFormat = some n := by
  obtain ⟨n, hn⟩ := Option.isSome_iff_exists.mp d.valid
  exact ⟨n, hn, parseDate_isoFormat hn⟩

/-- The due date of the next row is later. -/
theorem addMonths_lt_succ (h : addMonths start k = some d) (h' : addMonths start (k + 1) = some d') :
    ∃ a b, parseDate d.isoFormat = some a ∧ parseDate d'.isoFormat = some b ∧ a < b := by
  obtain ⟨hy, hm, hd⟩ := calendarDate_fields h
  obtain ⟨hy', hm', hd'⟩ := calendarDate_fields h'
  obtain ⟨a, ha, hparse⟩ := parseDate_of_date d
  obtain ⟨b, hb, hparse'⟩ := parseDate_of_date d'
  refine ⟨a, b, hparse, hparse', ordinal_lt_next ha ?_⟩
  have hyear : d'.year = d.year + d.month / 12 := by omega
  have hmonth : d'.month = d.month % 12 + 1 := by omega
  rw [← hyear, ← hmonth, hd, ← hd']
  exact hb

theorem addMonths_isSome_of_le (h : (addMonths start k').isSome) (hk : k ≤ k') :
    (addMonths start k).isSome := by
  rw [addMonths_isSome] at h ⊢
  have hmono : (start.month - 1 + k) / 12 ≤ (start.month - 1 + k') / 12 :=
    Nat.div_le_div_right (by omega)
  omega

/-- **Due dates strictly increase.** -/
theorem addMonths_lt (h : addMonths start k = some d) (hk : k < k')
    (h' : addMonths start k' = some d') :
    ∃ a b, parseDate d.isoFormat = some a ∧ parseDate d'.isoFormat = some b ∧ a < b := by
  induction k', hk using Nat.le_induction generalizing d' with
  | base => exact addMonths_lt_succ h h'
  | succ k' hk ih =>
    have hsome : (addMonths start k').isSome :=
      addMonths_isSome_of_le (by rw [h']; rfl) (Nat.le_succ k')
    obtain ⟨d₁, h₁⟩ := Option.isSome_iff_exists.mp hsome
    obtain ⟨a, b, ha, hb, hab⟩ := ih h₁
    obtain ⟨b', c, hb', hc, hbc⟩ := addMonths_lt_succ h₁ h'
    cases hb.symm.trans hb'
    exact ⟨a, c, ha, hc, hab.trans hbc⟩

theorem dueDate_ok (h : dueDate start k = .ok t) :
    ∃ d, addMonths start k = some d ∧ d.isoFormat = t := by
  unfold dueDate at h
  split at h
  · rename_i d hd
    cases h
    exact ⟨d, hd, rfl⟩
  · cases h

theorem dueDate_of_isSome (h : (addMonths start k).isSome) : ∃ t, dueDate start k = .ok t := by
  obtain ⟨d, hd⟩ := Option.isSome_iff_exists.mp h
  exact ⟨d.isoFormat, by rw [dueDate, hd]⟩

/-- Rows that were built have their dates. -/
theorem due_of_rows {p : Plan} {ns : List ℕ} {b : ℚ} {rows : List (ScheduleRow ℚ)}
    (h : amortizeRows p ns b = .ok rows) : ∀ k ∈ ns, (addMonths p.start k).isSome := by
  induction ns generalizing b rows with
  | nil => exact fun k hk => absurd hk List.not_mem_nil
  | cons k' ns ih =>
    obtain ⟨i, due, principal, shown, rest, -, hdue, -, -, hrest, -⟩ := amortizeRows_ok h
    refine List.forall_mem_cons.mpr ⟨?_, ih hrest⟩
    obtain ⟨d, hd, -⟩ := dueDate_ok hdue
    rw [hd]
    rfl

/-- The date of a later row is later. -/
def Later (row row' : ScheduleRow ℚ) : Prop :=
  ∃ a b, parseDate row.dueDate = some a ∧ parseDate row'.dueDate = some b ∧ a < b

theorem pairwise_later {rows : List (ScheduleRow ℚ)} {j : ℕ}
    (hnumbers : rows.map ScheduleRow.n = List.range' k j)
    (hdates : ∀ row ∈ rows, dueDate start row.n = .ok row.dueDate) : rows.Pairwise Later := by
  have hsorted : (rows.map ScheduleRow.n).Pairwise (· < ·) := hnumbers ▸ List.pairwise_lt_range'
  rw [List.pairwise_map] at hsorted
  refine hsorted.imp_of_mem fun {row row'} hrow hrow' hlt => ?_
  obtain ⟨d, hd, ht⟩ := dueDate_ok (hdates row hrow)
  obtain ⟨d', hd', ht'⟩ := dueDate_ok (hdates row' hrow')
  rw [Later, ← ht, ← ht']
  exact addMonths_lt hd hlt hd'

end Dates

/-! ## Rows -/

/-- The rows account for a balance. -/
structure Accounts (b : ℚ) (rows : List (ScheduleRow ℚ)) : Prop where
  payment : ∀ row ∈ rows, row.payment = row.principal + row.interest
  repaid : (rows.map ScheduleRow.principal).sum = b
  balance : ∀ before row after, rows = before ++ row :: after →
    row.balance = max (b - ((before ++ [row]).map ScheduleRow.principal).sum) 0

/-- Accounts that close end in a balance of zero. -/
theorem Accounts.closed {b : ℚ} {rows before : List (ScheduleRow ℚ)} {row : ScheduleRow ℚ}
    (h : Accounts b rows) (hlast : rows = before ++ [row]) : row.balance = 0 := by
  rw [h.balance before row [] hlast, ← hlast, h.repaid, sub_self, max_self]

theorem accounts_cons {b : ℚ} {row : ScheduleRow ℚ} {rows : List (ScheduleRow ℚ)}
    (hpayment : row.payment = row.principal + row.interest)
    (hbalance : row.balance = max (b - row.principal) 0) (h : Accounts (b - row.principal) rows) :
    Accounts b (row :: rows) where
  payment := List.forall_mem_cons.mpr ⟨hpayment, h.payment⟩
  repaid := by
    rw [List.map_cons, List.sum_cons, h.repaid]
    ring
  balance := by
    intro before row' after heq
    cases before with
    | nil =>
      cases heq
      simpa using hbalance
    | cons row₀ before =>
      cases heq
      rw [h.balance before row' after rfl, List.cons_append, List.map_cons, List.sum_cons]
      congr 1
      ring

/-- What is known of the rows that are left. -/
structure Rows (p : Plan) (ns : List ℕ) (b total : ℚ) (rows : List (ScheduleRow ℚ)) : Prop where
  returned : amortizeRows p ns b = .ok rows
  numbers : rows.map ScheduleRow.n = ns
  accounts : Accounts b rows
  paid : (rows.map ScheduleRow.payment).sum = total
  dates : ∀ row ∈ rows, dueDate p.start row.n = .ok row.dueDate

section Rows

variable {p : Plan} {n k : ℕ} {m f b : ℤ}

theorem max_cents (a : ℤ) : max ((a : ℚ) / 100) 0 = ((max a 0 : ℤ) : ℚ) / 100 := by
  rcases le_total 0 a with h | h
  · have hq : (0 : ℚ) ≤ (a : ℚ) / 100 := div_nonneg (by exact_mod_cast h) (by norm_num)
    rw [max_eq_left h, max_eq_left hq]
  · have hq : (a : ℚ) / 100 ≤ 0 := div_nonpos_of_nonpos_of_nonneg (by exact_mod_cast h) (by norm_num)
    rw [max_eq_right h, max_eq_right hq, Int.cast_zero, zero_div]

/-- What `j` rows may need, in cents: the balance and the payments, grown at the rate. -/
def reach (rate : ℚ) (m : ℤ) (j : ℕ) (b : ℤ) : ℚ := (|(b : ℚ)| + j * (|(m : ℚ)| + 1)) * (1 + rate) ^ j

/-- Interest is rounded by less than a cent. -/
theorem interest_near {rate : ℚ} (hb : |(b : ℚ) * rate| ≤ 10 ^ 26) :
    ∃ i : ℤ, |(i : ℚ) - b * rate| ≤ 1 ∧
      toCentPlaces (Context.default.fix ((b : ℚ) / 100 * rate)) = .ok (i / 100) := by
  have hnear := roundTo_near 28 ((b : ℚ) / 100 * rate)
  have hsize : |(b : ℚ) / 100 * rate| ≤ 10 ^ 24 := by
    have hshift : (b : ℚ) / 100 * rate = b * rate / 100 := by ring
    rw [hshift, abs_div, abs_of_pos (show (0 : ℚ) < 100 by norm_num)]
    linarith
  have herror : |Context.default.fix ((b : ℚ) / 100 * rate) - b / 100 * rate| ≤ 1 / 1000 := by
    rw [Context.fix_default]
    refine hnear.trans ?_
    have hmul := mul_le_mul_of_nonneg_right hsize
      (show (0 : ℚ) ≤ 10 ^ (1 - ((28 : ℕ) : ℤ)) / 2 by positivity)
    refine hmul.trans ?_
    norm_num
  have hround := halfUp_near (Context.default.fix ((b : ℚ) / 100 * rate) * 100)
  have hclose : |(halfUp (Context.default.fix ((b : ℚ) / 100 * rate) * 100) : ℚ) - b * rate| ≤ 1 := by
    rw [abs_le] at hround herror ⊢
    constructor <;> linarith [hround.1, hround.2, herror.1, herror.2]
  refine ⟨_, hclose, toCentPlaces_eq rfl ?_⟩
  have hq : |(halfUp (Context.default.fix ((b : ℚ) / 100 * rate) * 100) : ℚ)| < 10 ^ 28 := by
    rw [abs_le] at hclose hb
    rw [abs_lt]
    constructor <;> linarith [hclose.1, hclose.2, hb.1, hb.2]
  exact_mod_cast hq

/-- One month takes a balance no further than the rest of the rows may need. -/
theorem reach_step {rate : ℚ} (hrate : 0 ≤ rate) {j : ℕ} {i : ℤ}
    (hi : |(i : ℚ) - b * rate| ≤ 1) : reach rate m j (b - (m - i)) ≤ reach rate m (j + 1) b := by
  have hgrow : (1 : ℚ) ≤ 1 + rate := by linarith
  have hpow : (0 : ℚ) ≤ (1 + rate) ^ j := by positivity
  have hstep : |((b - (m - i) : ℤ) : ℚ)| ≤ |(b : ℚ)| * (1 + rate) + (|(m : ℚ)| + 1) := by
    have hsplit : ((b - (m - i) : ℤ) : ℚ) = b * (1 + rate) - m + (i - b * rate) := by
      push_cast
      ring
    calc |((b - (m - i) : ℤ) : ℚ)| = |(b : ℚ) * (1 + rate) - m + (i - b * rate)| := by rw [hsplit]
      _ ≤ |(b : ℚ) * (1 + rate) - m| + |(i : ℚ) - b * rate| := abs_add_le _ _
      _ ≤ |(b : ℚ) * (1 + rate)| + |(m : ℚ)| + 1 := add_le_add (abs_sub _ _) hi
      _ = |(b : ℚ)| * (1 + rate) + (|(m : ℚ)| + 1) := by
        rw [abs_mul, abs_of_nonneg (show (0 : ℚ) ≤ 1 + rate by linarith)]
        ring
  have hm : (0 : ℚ) ≤ |(m : ℚ)| + 1 := by positivity
  have hall : |((b - (m - i) : ℤ) : ℚ)| + j * (|(m : ℚ)| + 1) ≤
      (|(b : ℚ)| + (j + 1 : ℕ) * (|(m : ℚ)| + 1)) * (1 + rate) := by
    have hrest : (j + 1 : ℕ) * (|(m : ℚ)| + 1) ≤ (j + 1 : ℕ) * (|(m : ℚ)| + 1) * (1 + rate) :=
      le_mul_of_one_le_right (by positivity) hgrow
    push_cast at hstep hrest ⊢
    linarith
  calc reach rate m j (b - (m - i)) ≤
      (|(b : ℚ)| + (j + 1 : ℕ) * (|(m : ℚ)| + 1)) * (1 + rate) * (1 + rate) ^ j :=
        mul_le_mul_of_nonneg_right hall hpow
    _ = reach rate m (j + 1) b := by
      rw [reach, pow_succ]
      ring

/-- What a row needs is within reach. -/
theorem within_reach {rate : ℚ} (hrate : 0 ≤ rate) {j : ℕ} (h : reach rate m (j + 1) b ≤ 10 ^ 26) :
    |b| ≤ 10 ^ 26 ∧ |m| ≤ 10 ^ 26 ∧ |(b : ℚ) * rate| ≤ 10 ^ 26 := by
  have hb : (0 : ℚ) ≤ |(b : ℚ)| := abs_nonneg _
  have hm : (0 : ℚ) ≤ |(m : ℚ)| := abs_nonneg _
  have hone : (1 : ℚ) ≤ (j + 1 : ℕ) := by exact_mod_cast Nat.le_add_left 1 j
  have hpow : 1 + rate ≤ (1 + rate) ^ (j + 1) :=
    le_self_pow₀ (by linarith) (Nat.succ_ne_zero j)
  have hsum : |(b : ℚ)| + (|(m : ℚ)| + 1) ≤ |(b : ℚ)| + (j + 1 : ℕ) * (|(m : ℚ)| + 1) := by
    have hmul : |(m : ℚ)| + 1 ≤ (j + 1 : ℕ) * (|(m : ℚ)| + 1) :=
      le_mul_of_one_le_left (by positivity) hone
    linarith
  have hreach : (|(b : ℚ)| + (|(m : ℚ)| + 1)) * (1 + rate) ≤ 10 ^ 26 :=
    (mul_le_mul hsum hpow (by linarith) (by positivity)).trans h
  have hrest : 0 ≤ (|(b : ℚ)| + (|(m : ℚ)| + 1)) * rate := by positivity
  have hgrown : 0 ≤ (|(m : ℚ)| + 1) * rate := by positivity
  refine ⟨?_, ?_, ?_⟩
  · have hle : |(b : ℚ)| ≤ 10 ^ 26 := by linarith
    exact_mod_cast hle
  · have hle : |(m : ℚ)| ≤ 10 ^ 26 := by linarith
    exact_mod_cast hle
  · rw [abs_mul, abs_of_nonneg hrate]
    linarith

/-- **The last row** repays the balance in the final payment. -/
theorem lastRow_accounts (hm : p.pmtCents = m / 100) (hf : p.finalPayment = f / 100)
    (hf' : |f| ≤ 10 ^ 27) (hrate : 0 ≤ p.monthlyRate) (hn : (k : ℤ) = p.termMonths)
    (hdue : (addMonths p.start k).isSome) (hb : reach p.monthlyRate m 1 b ≤ 10 ^ 26) :
    ∃ rows, Rows p [k] (b / 100) (f / 100) rows := by
  obtain ⟨hbs, hms, hinterest⟩ := within_reach hrate hb
  obtain ⟨i, hi, hok⟩ := interest_near hinterest
  obtain ⟨due, hdue⟩ := dueDate_of_isSome hdue
  have his : |i| ≤ 10 ^ 27 := by
    have hq : |(i : ℚ)| ≤ 10 ^ 27 := by
      rw [abs_le] at hi hinterest ⊢
      constructor <;> linarith [hi.1, hi.2, hinterest.1, hinterest.2]
    exact_mod_cast hq
  rw [abs_le] at hbs hms his hf'
  have hsplit := split_last (m := m) (b := b) (i := i) hn hm (by rw [abs_le]; omega)
    (by rw [abs_le]; omega) (by rw [abs_le]; omega)
  have hremainder : Context.default.fix (p.finalPayment - (b : ℚ) / 100) = ((f - b : ℤ) : ℚ) / 100 := by
    rw [hf]
    exact fix_sub_cents (by rw [abs_le]; omega)
  rw [hremainder, hf] at hsplit
  have hprincipal : toCentPlaces (split p k (b / 100) (i / 100)).principal = .ok ((b : ℚ) / 100) := by
    rw [hsplit]
    exact toCentPlaces_hundredths (by rw [abs_lt]; omega)
  have hshown : toCentPlaces (max (split p k (b / 100) (i / 100)).balance 0) = .ok 0 := by
    have hzero := toCentPlaces_hundredths (n := 0) (by norm_num)
    rw [Int.cast_zero, zero_div] at hzero
    rw [hsplit, max_self]
    exact hzero
  have hrest : amortizeRows p [] (split p k (b / 100) (i / 100)).balance = .ok [] := rfl
  have hrows := amortizeRows_eq hok hdue hprincipal hshown hrest
  rw [hsplit] at hrows
  refine ⟨_, hrows, rfl, accounts_cons ?_ ?_ ⟨?_, ?_, ?_⟩, ?_, ?_⟩
  · push_cast
    ring
  · rw [sub_self, max_self]
  · exact fun row hrow => absurd hrow List.not_mem_nil
  · rw [sub_self]
    rfl
  · exact fun before row after heq => absurd heq.symm (by simp)
  · simp
  · intro row hrow
    rw [List.mem_singleton.mp hrow]
    exact hdue

/-- **A level row** repays the payment less the interest. -/
theorem levelRow_accounts (hm : p.pmtCents = m / 100) (hrate : 0 ≤ p.monthlyRate)
    (hn : (k : ℤ) ≠ p.termMonths) (hdue : (addMonths p.start k).isSome) {j : ℕ}
    (hb : reach p.monthlyRate m (j + 1) b ≤ 10 ^ 26) {ns : List ℕ} {total : ℚ}
    (hrest : ∀ b' : ℤ, reach p.monthlyRate m j b' ≤ 10 ^ 26 →
      ∃ rows, Rows p ns (b' / 100) total rows) :
    ∃ rows, Rows p (k :: ns) (b / 100) (m / 100 + total) rows := by
  obtain ⟨hbs, hms, hinterest⟩ := within_reach hrate hb
  obtain ⟨i, hi, hok⟩ := interest_near hinterest
  obtain ⟨due, hdue⟩ := dueDate_of_isSome hdue
  have his : |i| ≤ 10 ^ 27 := by
    have hq : |(i : ℚ)| ≤ 10 ^ 27 := by
      rw [abs_le] at hi hinterest ⊢
      constructor <;> linarith [hi.1, hi.2, hinterest.1, hinterest.2]
    exact_mod_cast hq
  obtain ⟨rows, hrows, hnumbers, haccounts, hpaid, hdates⟩ :=
    hrest (b - (m - i)) ((reach_step hrate hi).trans hb)
  rw [abs_le] at hbs hms his
  have hsplit := split_level (m := m) (b := b) (i := i) hn hm (by rw [abs_le]; omega)
    (by rw [abs_le]; omega)
  have hprincipal : toCentPlaces (split p k (b / 100) (i / 100)).principal =
      .ok (((m - i : ℤ) : ℚ) / 100) := by
    rw [hsplit]
    exact toCentPlaces_hundredths (by rw [abs_lt]; omega)
  have hshown : toCentPlaces (max (split p k (b / 100) (i / 100)).balance 0) =
      .ok (((max (b - (m - i)) 0 : ℤ) : ℚ) / 100) := by
    rw [hsplit, max_cents]
    exact toCentPlaces_hundredths (by rw [abs_lt]; omega)
  have hleft : amortizeRows p ns (split p k (b / 100) (i / 100)).balance = .ok rows := by
    rw [hsplit]
    exact hrows
  have hall := amortizeRows_eq hok hdue hprincipal hshown hleft
  rw [hsplit] at hall
  have hbalance : (b : ℚ) / 100 - ((m - i : ℤ) : ℚ) / 100 = ((b - (m - i) : ℤ) : ℚ) / 100 := by
    push_cast
    ring
  refine ⟨_, hall, ?_, accounts_cons ?_ ?_ (hbalance ▸ haccounts), ?_, ?_⟩
  · rw [List.map_cons, hnumbers]
  · push_cast
    ring
  · rw [hbalance, max_cents]
  · rw [List.map_cons, List.sum_cons, hpaid]
  · exact List.forall_mem_cons.mpr ⟨hdue, hdates⟩

/-- **The rows that are left** account for the balance before them. -/
theorem rows_account (hm : p.pmtCents = m / 100) (hf : p.finalPayment = f / 100)
    (hf' : |f| ≤ 10 ^ 27) (hrate : 0 ≤ p.monthlyRate) (hn : (n : ℤ) = p.termMonths)
    (hdue : (addMonths p.start n).isSome) : ∀ {j k : ℕ} {b : ℤ}, k + j = n →
    reach p.monthlyRate m (j + 1) b ≤ 10 ^ 26 →
    ∃ rows, Rows p (List.range' k (j + 1)) (b / 100) (j * (m / 100) + f / 100) rows := by
  intro j
  induction j with
  | zero =>
    intro k b hk hb
    have hrow := lastRow_accounts (k := k) hm hf hf' hrate (by omega)
      (addMonths_isSome_of_le hdue (by omega)) hb
    simpa using hrow
  | succ j ih =>
    intro k b hk hb
    have hrow := levelRow_accounts (k := k) hm hrate (by omega) (addMonths_isSome_of_le hdue (by omega)) hb
      fun b' hb' => ih (k := k + 1) (by omega) hb'
    have htotal : ((j + 1 : ℕ) : ℚ) * (m / 100) + f / 100 = m / 100 + (j * (m / 100) + f / 100) := by
      push_cast
      ring
    rw [List.range'_succ, htotal]
    exact hrow

end Rows

/-! ## The schedule of a loan -/

/-- The total of payments is near that many level payments. -/
theorem total_fits {pmt : ℚ} {m : ℤ} {n : ℕ} (hm : toCentPlaces pmt = .ok (m / 100))
    (hsize : n * (|(m : ℚ)| + 1) ≤ 10 ^ 26) : ∃ τ : ℤ, |τ| ≤ 2 * 10 ^ 26 ∧
      toCentPlaces (Context.default.fix (pmt * n)) = .ok (τ / 100) := by
  obtain ⟨hpmt, -⟩ := toCentPlaces_ok hm
  rw [div_left_inj' (by norm_num), Int.cast_inj] at hpmt
  have hnear := halfUp_near (pmt * 100)
  rw [← hpmt] at hnear
  have hn : (0 : ℚ) ≤ n := Nat.cast_nonneg n
  have hpmt' : |pmt * 100| ≤ |(m : ℚ)| + 1 := by
    have htri := abs_sub_abs_le_abs_sub (pmt * 100) m
    rw [abs_sub_comm] at hnear
    linarith
  have hall : |pmt * n * 100| ≤ 10 ^ 26 := by
    calc |pmt * n * 100| = n * |pmt * 100| := by
          rw [mul_right_comm, abs_mul, abs_of_nonneg hn, mul_comm]
      _ ≤ n * (|(m : ℚ)| + 1) := mul_le_mul_of_nonneg_left hpmt' hn
      _ ≤ 10 ^ 26 := hsize
  have hfix := fix_near (pmt * n)
  have hround := halfUp_near (Context.default.fix (pmt * n) * 100)
  have hτ : |(halfUp (Context.default.fix (pmt * n) * 100) : ℚ)| ≤ 2 * 10 ^ 26 := by
    have hpn : |pmt * n| ≤ 10 ^ 24 := by
      rw [abs_mul, abs_of_pos (show (0 : ℚ) < 100 by norm_num)] at hall
      linarith
    rw [abs_le] at hfix hround hall ⊢
    constructor <;> linarith [hfix.1, hfix.2, hround.1, hround.2, hall.1, hall.2]
  have hτ : |halfUp (Context.default.fix (pmt * n) * 100)| ≤ 2 * 10 ^ 26 := by exact_mod_cast hτ
  exact ⟨_, hτ, toCentPlaces_eq rfl (hτ.trans_lt (by norm_num))⟩

/-- The final payment is what is left of the total of payments. -/
theorem finalPayment_eq {τ m : ℤ} {n : ℕ} (hn : 1 ≤ n) (hτ : |τ| ≤ 2 * 10 ^ 26)
    (hsize : n * (|(m : ℚ)| + 1) ≤ 10 ^ 26) :
    |τ - m * (n - 1)| ≤ 10 ^ 27 ∧ Context.default.fix ((τ : ℚ) / 100 - Context.default.fix
      ((m : ℚ) / 100 * (((n : ℤ) - 1 : ℤ) : ℚ))) = ((τ - m * (n - 1) : ℤ) : ℚ) / 100 := by
  have hlevel : |m * ((n : ℤ) - 1)| ≤ 10 ^ 26 := by
    have hle : |m| * ((n : ℤ) - 1) ≤ n * (|m| + 1) := by
      have hm : 0 ≤ |m| := abs_nonneg m
      nlinarith
    have hsize : (n : ℤ) * (|m| + 1) ≤ 10 ^ 26 := by exact_mod_cast hsize
    rw [abs_mul, abs_of_nonneg (show (0 : ℤ) ≤ n - 1 by omega)]
    exact hle.trans hsize
  have hprod : (m : ℚ) / 100 * (((n : ℤ) - 1 : ℤ) : ℚ) = ((m * (n - 1) : ℤ) : ℚ) / 100 := by
    push_cast
    ring
  rw [abs_le] at hτ hlevel
  exact ⟨by rw [abs_le]; omega, by
    rw [hprod, fix_hundredths (by rw [abs_le]; omega), fix_sub_cents (by rw [abs_le]; omega)]⟩

theorem monthlyRate_nonneg {rate : ℚ} (h : 0 ≤ rate) : 0 ≤ monthlyRate .default rate := by
  have hfix : ∀ {x : ℚ}, 0 ≤ x → 0 ≤ Context.default.fix x := by
    intro x hx
    have hnear := abs_le.mp (fix_near x)
    rw [abs_of_nonneg hx] at hnear
    linarith [hnear.1]
  exact hfix (div_nonneg (hfix (by positivity)) (by norm_num))

theorem monthlyRate_le {rate : ℚ} (h : 0 ≤ rate) (h' : rate ≤ 60) :
    monthlyRate .default rate ≤ 1 := by
  have hfirst := abs_le.mp (fix_near (rate / 100))
  rw [abs_of_nonneg (by positivity)] at hfirst
  have hlow : 0 ≤ Context.default.fix (rate / 100) := by linarith [hfirst.1]
  have hsecond := abs_le.mp (fix_near (Context.default.fix (rate / 100) / 12))
  rw [abs_of_nonneg (by positivity)] at hsecond
  unfold monthlyRate
  linarith [hfirst.2, hsecond.2]

/-- **The schedule accounts for the loan.** -/
theorem schedule_accounts {principal : ℤ} {rate pmt : ℚ} {n : ℕ} {m : ℤ} {start : CalendarDate}
    (hrate : 0 ≤ rate) (hn : 1 ≤ n) (hpmt : monthlyPayment .default (principal / 100) rate n = .ok pmt)
    (hm : toCentPlaces pmt = .ok (m / 100))
    (hreach : reach (monthlyRate .default rate) m n principal ≤ 10 ^ 26)
    (hyear : start.year + (start.month - 1 + n) / 12 ≤ 9999) :
    ∃ rows total, amortization (principal / 100) rate n start = .ok rows ∧
      toCentPlaces (Context.default.fix (pmt * n)) = .ok total ∧
      rows.map ScheduleRow.n = List.range' 1 n ∧
      (∀ row ∈ rows, row.payment = row.principal + row.interest) ∧
      (rows.map ScheduleRow.payment).sum = total ∧
      (rows.map ScheduleRow.principal).sum = (principal : ℚ) / 100 ∧
      (∀ before row after, rows = before ++ row :: after → row.balance =
        max ((principal : ℚ) / 100 - ((before ++ [row]).map ScheduleRow.principal).sum) 0) ∧
      (∀ before row, rows = before ++ [row] → row.balance = 0) ∧
      (∀ row ∈ rows, (parseDate row.dueDate).isSome) ∧ rows.Pairwise Later := by
  have hr := monthlyRate_nonneg hrate
  obtain ⟨j, rfl⟩ := Nat.exists_eq_add_of_le' hn
  have hsize : ((j + 1 : ℕ) : ℚ) * (|(m : ℚ)| + 1) ≤ 10 ^ 26 := by
    have hgrow := one_le_pow₀ (n := j + 1) (show 1 ≤ 1 + monthlyRate .default rate by linarith)
    have hprincipal : 0 ≤ |(principal : ℚ)| := abs_nonneg _
    refine le_trans ?_ ((le_mul_of_one_le_right (by positivity) hgrow).trans hreach)
    linarith
  obtain ⟨τ, hτ, htotal⟩ := total_fits hm hsize
  obtain ⟨hf, hfinal⟩ := finalPayment_eq hn hτ hsize
  obtain ⟨rows, hrows, hnumbers, haccounts, hpaid, hdates⟩ := rows_account (n := j + 1)
    (p := ⟨start, (j + 1 : ℕ), (m : ℚ) / 100, _, monthlyRate .default rate⟩) (k := 1)
    rfl hfinal hf hr rfl ((addMonths_isSome start (j + 1)).mpr hyear) (Nat.add_comm 1 j) hreach
  have hpaid : (rows.map ScheduleRow.payment).sum = (τ : ℚ) / 100 := by
    rw [hpaid]
    push_cast
    ring
  refine ⟨rows, (τ : ℚ) / 100, ?_, htotal, hnumbers, haccounts.payment, hpaid, haccounts.repaid,
    haccounts.balance, fun before row heq => haccounts.closed heq, ?_, pairwise_later hnumbers hdates⟩
  · unfold amortization plan
    rw [hpmt, figuring, bind_of_ok rfl]
    dsimp only
    rw [bind_of_ok hm]
    rw [Int.cast_natCast, bind_of_ok htotal]
    exact hrows
  · intro row hrow
    obtain ⟨d, -, ht⟩ := dueDate_ok (hdates row hrow)
    obtain ⟨a, -, ha⟩ := parseDate_of_date d
    rw [← ht, ha]
    rfl

/-- 18000 at 7.99 over 48 months. -/
theorem schedule_accounts_sample : ∃ rows total,
    amortization ((1800000 : ℤ) / 100) 7.99 (48 : ℕ) ⟨2026, 1, 31, by decide⟩ = .ok rows ∧
    (rows.map ScheduleRow.payment).sum = total ∧
    (rows.map ScheduleRow.principal).sum = ((1800000 : ℤ) : ℚ) / 100 := by
  obtain ⟨pmt, hpmt, hm⟩ := exists_ok
    (x := monthlyPayment .default ((1800000 : ℤ) / 100) 7.99 (48 : ℕ))
    (p := fun pmt => toCentPlaces pmt = .ok (((43935 : ℤ) : ℚ) / 100)) (by decide +kernel)
  obtain ⟨rows, total, hrows, -, -, -, hpaid, hrepaid, -⟩ := @schedule_accounts _ _ _ _ _
    ⟨2026, 1, 31, by decide⟩ (by norm_num) (by norm_num) hpmt hm (by decide +kernel)
    (by decide)
  exact ⟨rows, total, hrows, hpaid, hrepaid⟩

/-- A due date after the year 9999, a rate that is lost beside one, and an amount of more than 28
digits raise. -/
theorem schedule_raises :
    amortization 1000 7.99 12 ⟨9999, 6, 1, by decide⟩ = .error .yearOutOfRange ∧
    amortization 1000 (1 / 10 ^ 30) 12 ⟨2026, 1, 1, by decide⟩ =
      .error (.figure (.decimal .divisionByZero)) ∧
    amortization (10 ^ 27) 7.99 12 ⟨2026, 1, 1, by decide⟩ =
      .error (.figure (.decimal .invalidOperation)) := by
  decide +kernel

end Meridian.Disclosure
