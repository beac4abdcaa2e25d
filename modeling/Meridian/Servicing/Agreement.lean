import Meridian.Servicing.Schedule

/-!
# The servicing schedule and the disclosed one

Servicing computes the exact loan and rounds each figure where it is shown; the disclosure rounds
the payment, the interest and the balance on the way and squares the total in the last payment. So
the two schedules are the same exactly when the exact loan `AddsUp`: its rounded figures are a
schedule in whole cents, and the disclosed total is that many level payments.

* `amortizeRows_exact`: what servicing shows, in closed form.
* `amortizeRows_iff`: when the disclosure shows the same rows.
-/

namespace Meridian.Servicing

open Python Numeric Disclosure

/-! ## The exact loan -/

section Exact

variable {pmt i : ℚ} {start : CalendarDate} {n : ℕ}

/-- `round(x, 2)` in cents. -/
def centsOf (x : ℚ) : ℤ := halfEven (x * 100)

theorem round2_eq (x : ℚ) : round2 x = centsOf x / 100 := rfl

theorem round2_inj {x y : ℚ} : round2 x = round2 y ↔ centsOf x = centsOf y := by
  rw [round2_eq, round2_eq, div_left_inj' (by norm_num), Int.cast_inj]

@[simp] theorem centsOf_zero : centsOf 0 = 0 := by
  have hzero : halfEven ((0 : ℤ) : ℚ) = 0 := halfEven_intCast 0
  rw [centsOf, zero_mul, ← Int.cast_zero, hzero]

@[simp] theorem round2_zero : round2 0 = 0 := by
  rw [round2_eq, centsOf_zero, Int.cast_zero, zero_div]

theorem centsOf_mono {x y : ℚ} (h : x ≤ y) : centsOf x ≤ centsOf y :=
  halfEven_mono (mul_le_mul_of_nonneg_right h (by norm_num))

theorem centsOf_bounds {x : ℚ} (h : 0 ≤ x) (h' : x ≤ 10 ^ 6) :
    0 ≤ centsOf x ∧ centsOf x ≤ 10 ^ 8 := by
  have htop : centsOf (10 ^ 6) = 10 ^ 8 := by
    have htop : halfEven ((10 ^ 8 : ℤ) : ℚ) = 10 ^ 8 := halfEven_intCast _
    rw [centsOf, ← htop]
    congr 1
    norm_num
  exact ⟨centsOf_zero ▸ centsOf_mono h, htop ▸ centsOf_mono h'⟩

/-- The text of a due date, where there is one. -/
def dueText (start : CalendarDate) (k : ℕ) : Text := (dueDate start k).toOption.getD []

/-- Row `k` of the exact loan, as it is shown. -/
def shownRow (pmt i : ℚ) (start : CalendarDate) (n k : ℕ) : ScheduleRow ℚ :=
  ⟨k, dueText start k, round2 pmt, round2 (repaid pmt i (n + 1 - k)),
    round2 (accrued pmt i (n + 1 - k)), round2 (owed pmt i (n - k))⟩

theorem dueDate_eq {k : ℕ} (h : (addMonths start k).isSome) :
    dueDate start k = .ok (dueText start k) := by
  obtain ⟨d, hd⟩ := Option.isSome_iff_exists.mp h
  rw [dueText, dueDate, hd]
  rfl

/-- The two services date a row alike. -/
theorem disclosed_dueDate_eq {k : ℕ} (h : (addMonths start k).isSome) :
    Disclosure.dueDate start k = .ok (dueText start k) := by
  have hsame : Disclosure.addMonths start k = addMonths start k := rfl
  obtain ⟨d, hd⟩ := Option.isSome_iff_exists.mp h
  rw [dueText, dueDate, Disclosure.dueDate, hsame, hd]
  rfl

/-- **What servicing shows** from row `k` on, when `j` payments are left. -/
theorem amortizeRows_exact (hpmt : 0 ≤ pmt) (hi : 0 ≤ i)
    (hdue : ∀ k ≤ n, (addMonths start k).isSome) : ∀ {j k : ℕ}, k + j = n + 1 →
    amortizeRows start n pmt i (List.range' k j) (owed pmt i j) =
      .ok ((List.range' k j).map (shownRow pmt i start n)) := by
  intro j
  induction j with
  | zero => exact fun _ => rfl
  | succ j ih =>
    intro k hk
    have hinterest : owed pmt i (j + 1) * i = accrued pmt i (j + 1) :=
      owed_mul_rate pmt (by linarith) (j + 1)
    have hpart : pmt - accrued pmt i (j + 1) = repaid pmt i (j + 1) := by
      linarith [repaid_add_accrued pmt i (j + 1)]
    have hleft : owed pmt i (j + 1) - repaid pmt i (j + 1) = owed pmt i j := by
      linarith [owed_succ pmt i j]
    have hlast : ((k : ℤ) = (n : ℤ)) ↔ j = 0 := by omega
    have hmax : max (owed pmt i j) 0 = owed pmt i j :=
      max_eq_left (owed_nonneg hpmt (by linarith) j)
    have hindex : n + 1 - k = j + 1 ∧ n - k = j := by omega
    rw [List.range'_succ, List.map_cons, shownRow, hindex.1, hindex.2]
    unfold amortizeRows
    simp only [hinterest, hpart, hleft, decide_eq_true_eq, hlast]
    by_cases hj : j = 0
    · subst hj
      simp only [if_pos, owed_zero, add_zero, max_self, dueDate_eq (hdue k (by omega))]
      rfl
    · simp only [if_neg hj, hmax]
      rw [dueDate_eq (hdue k (by omega)), bind_of_ok rfl, ih (by omega : k + 1 + j = n + 1)]
      rfl

/-- Rows that were built have their dates. -/
theorem due_of_amortizeRows {rows : List (ScheduleRow ℚ)} {ns : List ℕ} {b : ℚ} {termMonths : ℤ}
    (h : amortizeRows start termMonths pmt i ns b = .ok rows) :
    ∀ k ∈ ns, (addMonths start k).isSome := by
  induction ns generalizing b rows with
  | nil => exact fun k hk => absurd hk List.not_mem_nil
  | cons k' ns ih =>
    unfold amortizeRows at h
    obtain ⟨due, hdue, h⟩ := of_bind_ok h
    obtain ⟨rest, hrest, -⟩ := of_bind_ok h
    intro k hk
    rcases List.mem_cons.mp hk with rfl | hk
    · unfold dueDate at hdue
      split at hdue
      · rename_i d hd
        rw [hd]
        rfl
      · cases hdue
    · exact ih hrest k hk

end Exact

/-! ## The disclosed rows -/

section Disclosed

variable {pmt i : ℚ} {n : ℕ} {p : Plan} {j k : ℕ}

/-- The rounded figures of a payment add up to it, and its balance to the one before. -/
structure Splits (pmt i : ℚ) (j : ℕ) : Prop where
  payment : round2 pmt = round2 (repaid pmt i j) + round2 (accrued pmt i j)
  balance : round2 (owed pmt i j) = round2 (repaid pmt i j) + round2 (owed pmt i (j - 1))

/-- The decimals charge the rounded balance what the exact loan charges, rounded. -/
def Charges (pmt i monthlyRate : ℚ) (j : ℕ) : Prop :=
  toCentPlaces (Context.default.fix (round2 (owed pmt i j) * monthlyRate)) =
    .ok (round2 (accrued pmt i j))

/-- A loan whose figures are small enough for no decimal to be lost. -/
structure Small (pmt i : ℚ) (n : ℕ) : Prop where
  pmt_nonneg : 0 ≤ pmt
  rate_nonneg : 0 ≤ i
  pmt_le : pmt ≤ 10 ^ 6
  owed_le : owed pmt i n ≤ 10 ^ 6

theorem Small.bounds (h : Small pmt i n) (hj : j ≤ n) :
    (0 ≤ centsOf pmt ∧ centsOf pmt ≤ 10 ^ 8) ∧
    (0 ≤ centsOf (repaid pmt i j) ∧ centsOf (repaid pmt i j) ≤ 10 ^ 8) ∧
    (0 ≤ centsOf (accrued pmt i j) ∧ centsOf (accrued pmt i j) ≤ 10 ^ 8) ∧
    (0 ≤ centsOf (owed pmt i j) ∧ centsOf (owed pmt i j) ≤ 10 ^ 8) := by
  have hp := h.pmt_nonneg
  have hi := h.rate_nonneg
  exact ⟨centsOf_bounds hp h.pmt_le,
    centsOf_bounds (repaid_nonneg hp hi j) ((repaid_le hp hi j).trans h.pmt_le),
    centsOf_bounds (accrued_nonneg hp hi j) ((accrued_le hp hi j).trans h.pmt_le),
    centsOf_bounds (owed_nonneg hp (by linarith) j) ((owed_mono hp hi hj).trans h.owed_le)⟩

theorem splits_iff : Splits pmt i j ↔
    centsOf pmt = centsOf (repaid pmt i j) + centsOf (accrued pmt i j) ∧
    centsOf (owed pmt i j) = centsOf (repaid pmt i j) + centsOf (owed pmt i (j - 1)) := by
  have hsum : ∀ a b c : ℚ, round2 a = round2 b + round2 c ↔ centsOf a = centsOf b + centsOf c := by
    intro a b c
    rw [round2_eq, round2_eq, round2_eq, ← add_div, div_left_inj' (by norm_num)]
    exact_mod_cast Iff.rfl
  rw [← hsum, ← hsum]
  exact ⟨fun h => ⟨h.payment, h.balance⟩, fun h => ⟨h.1, h.2⟩⟩

/-- **A level row** of the disclosure shows row `k` of the exact loan when its figures split. -/
theorem levelRow_iff (h : Small pmt i n) (hp : p.pmtCents = round2 pmt) (hn : (k : ℤ) ≠ p.termMonths)
    (hdue : (addMonths p.start k).isSome) (hk : 1 ≤ k) (hj : k + j = n)
    {ns : List ℕ} {rows : List (ScheduleRow ℚ)} :
    Disclosure.amortizeRows p (k :: ns) (round2 (owed pmt i (j + 1))) =
        .ok (shownRow pmt i p.start n k :: rows) ↔
      Charges pmt i p.monthlyRate (j + 1) ∧ Splits pmt i (j + 1) ∧
        Disclosure.amortizeRows p ns (round2 (owed pmt i j)) = .ok rows := by
  obtain ⟨hm, hr, ha, ho⟩ := h.bounds (show j + 1 ≤ n by omega)
  obtain ⟨-, -, -, ho'⟩ := h.bounds (show j ≤ n by omega)
  have hindex : n + 1 - k = j + 1 ∧ n - k = j := by omega
  have hfits : ∀ {x : ℤ}, -10 ^ 9 ≤ x → x ≤ 10 ^ 9 → |x| < 10 ^ 28 := by
    intro x hlow hhigh
    rw [abs_lt]
    omega
  have hsplit := split_level (m := centsOf pmt) (b := centsOf (owed pmt i (j + 1)))
    (i := centsOf (accrued pmt i (j + 1))) hn hp (hfits (by omega) (by omega)).le (hfits (by omega) (by omega)).le
  rw [splits_iff, Nat.add_sub_cancel, shownRow, hindex.1, hindex.2]
  simp only [round2_eq] at hp ⊢
  constructor
  · intro hrows
    obtain ⟨ι, due, principal, shown, rest, hι, -, hprincipal, hshown, hrest, heq⟩ :=
      amortizeRows_ok hrows
    obtain ⟨hrow, rfl⟩ := List.cons.inj heq
    obtain ⟨-, -, -, rfl, hinterest, rfl⟩ := ScheduleRow.mk.inj hrow
    have hsame : ι = centsOf (accrued pmt i (j + 1)) / 100 := by
      rw [hinterest, split, if_neg hn]
    subst hsame
    rw [hsplit] at hprincipal hshown hrest
    dsimp only at hprincipal hshown hrest
    rw [toCentPlaces_hundredths (hfits (by omega) (by omega))] at hprincipal
    have hpart := Except.ok.inj hprincipal
    rw [div_left_inj' (by norm_num), Int.cast_inj] at hpart
    rw [hpart] at hshown hrest
    -- the exact balance falls by what is repaid, so the rounded one stays above zero
    have hleft : 0 ≤ centsOf (owed pmt i (j + 1)) - centsOf (repaid pmt i (j + 1)) := by
      have hmono : repaid pmt i (j + 1) ≤ owed pmt i (j + 1) := by
        rw [owed_succ]
        linarith [owed_nonneg h.pmt_nonneg (show -1 < i by linarith [h.rate_nonneg]) j]
      linarith [centsOf_mono hmono]
    have hmax : max (((centsOf (owed pmt i (j + 1)) - centsOf (repaid pmt i (j + 1)) : ℤ) : ℚ) / 100) 0 =
        ((centsOf (owed pmt i (j + 1)) - centsOf (repaid pmt i (j + 1)) : ℤ) : ℚ) / 100 :=
      max_eq_left (div_nonneg (by exact_mod_cast hleft) (by norm_num))
    rw [hmax, toCentPlaces_hundredths (hfits (by omega) (by omega))] at hshown
    have hbalance := Except.ok.inj hshown
    rw [div_left_inj' (by norm_num), Int.cast_inj] at hbalance
    rw [hbalance] at hrest
    exact ⟨hι, ⟨by omega, by omega⟩, hrest⟩
  · rintro ⟨hcharge, ⟨hpayment, hbalance⟩, hrest⟩
    have hpart : centsOf pmt - centsOf (accrued pmt i (j + 1)) = centsOf (repaid pmt i (j + 1)) := by
      omega
    have hleft : centsOf (owed pmt i (j + 1)) - centsOf (repaid pmt i (j + 1)) =
        centsOf (owed pmt i j) := by omega
    have hnonneg : (0 : ℚ) ≤ (centsOf (owed pmt i j) : ℚ) / 100 :=
      div_nonneg (by exact_mod_cast ho'.1) (by norm_num)
    rw [hpart, hleft] at hsplit
    have hprincipal : toCentPlaces (split p k (centsOf (owed pmt i (j + 1)) / 100)
        (centsOf (accrued pmt i (j + 1)) / 100)).principal =
          .ok ((centsOf (repaid pmt i (j + 1)) : ℚ) / 100) := by
      rw [hsplit]
      exact toCentPlaces_hundredths (hfits (by omega) (by omega))
    have hshown : toCentPlaces (max (split p k (centsOf (owed pmt i (j + 1)) / 100)
        (centsOf (accrued pmt i (j + 1)) / 100)).balance 0) =
          .ok ((centsOf (owed pmt i j) : ℚ) / 100) := by
      rw [hsplit, max_eq_left hnonneg]
      exact toCentPlaces_hundredths (hfits (by omega) (by omega))
    have hcharge : toCentPlaces (Context.default.fix
        ((centsOf (owed pmt i (j + 1)) : ℚ) / 100 * p.monthlyRate)) =
          .ok ((centsOf (accrued pmt i (j + 1)) : ℚ) / 100) := hcharge
    have hrest : Disclosure.amortizeRows p ns (split p k (centsOf (owed pmt i (j + 1)) / 100)
        (centsOf (accrued pmt i (j + 1)) / 100)).balance = .ok rows := by
      rw [hsplit]
      exact hrest
    have hrows := amortizeRows_eq hcharge (disclosed_dueDate_eq hdue) hprincipal hshown hrest
    rw [hrows, hsplit]

/-- **The last row** of the disclosure shows the last row of the exact loan when it is a level payment
that splits. -/
theorem lastRow_iff (h : Small pmt i n) (hp : p.pmtCents = round2 pmt) (hn : (k : ℤ) = p.termMonths)
    (hdue : (addMonths p.start k).isSome) (hk : 1 ≤ k) (hkn : k = n) (hrate : 0 ≤ p.monthlyRate)
    (hrate' : p.monthlyRate ≤ 1) :
    Disclosure.amortizeRows p [k] (round2 (owed pmt i 1)) = .ok [shownRow pmt i p.start n k] ↔
      p.finalPayment = round2 pmt ∧ Splits pmt i 1 := by
  obtain ⟨hm, hr, ha, ho⟩ := h.bounds (show 1 ≤ n by omega)
  have hindex : n + 1 - k = 1 ∧ n - k = 0 := by omega
  have hone : owed pmt i 1 = repaid pmt i 1 := by
    rw [owed_succ, owed_zero, zero_add]
  have hfits : ∀ {x : ℤ}, -10 ^ 14 ≤ x → x ≤ 10 ^ 14 → |x| < 10 ^ 28 := by
    intro x hlow hhigh
    rw [abs_lt]
    omega
  obtain ⟨ι, hι, hι', hinterest⟩ := interest_fits hrate hrate' ho.1 (by omega)
  have hsplit := split_last (m := centsOf pmt) (b := centsOf (owed pmt i 1)) (i := ι) hn hp
    (hfits (by omega) (by omega)).le (hfits (by omega) (by omega)).le (hfits (by omega) (by omega)).le
  have hremainder : Context.default.fix ((centsOf pmt : ℚ) / 100 - centsOf (owed pmt i 1) / 100) =
      ((centsOf pmt - centsOf (owed pmt i 1) : ℤ) : ℚ) / 100 :=
    fix_sub_cents (hfits (by omega) (by omega)).le
  have hzero : centsOf (owed pmt i 0) = 0 := by
    rw [owed_zero, centsOf_zero]
  rw [splits_iff, shownRow, hindex.1, hindex.2, hone, Nat.sub_self, hzero, add_zero]
  rw [hone] at hinterest hsplit hremainder
  simp only [round2_eq, hzero] at hp ⊢
  constructor
  · intro hrows
    obtain ⟨ι', due, principal, shown, rest, hι', -, hprincipal, hshown, hrest, heq⟩ :=
      amortizeRows_ok hrows
    cases hinterest.symm.trans hι'
    obtain ⟨hrow, -⟩ := List.cons.inj heq
    obtain ⟨-, -, hpayment, -, haccrued, -⟩ := ScheduleRow.mk.inj hrow
    rw [hsplit] at hpayment haccrued
    dsimp only at hpayment haccrued
    rw [← hpayment, hremainder, div_left_inj' (by norm_num), Int.cast_inj] at haccrued
    exact ⟨hpayment.symm, by omega, trivial⟩
  · rintro ⟨hfinal, hpayment, -⟩
    have hpart : centsOf pmt - centsOf (repaid pmt i 1) = centsOf (accrued pmt i 1) := by omega
    rw [hfinal, hremainder, hpart] at hsplit
    have hprincipal : toCentPlaces (split p k (centsOf (repaid pmt i 1) / 100) (ι / 100)).principal =
        .ok ((centsOf (repaid pmt i 1) : ℚ) / 100) := by
      rw [hsplit]
      exact toCentPlaces_hundredths (hfits (by omega) (by omega))
    have hshown : toCentPlaces (max (split p k (centsOf (repaid pmt i 1) / 100) (ι / 100)).balance 0) =
        .ok (((0 : ℤ) : ℚ) / 100) := by
      rw [hsplit, max_self, ← zero_div (100 : ℚ), ← Int.cast_zero]
      exact toCentPlaces_hundredths (by norm_num)
    have hrest : Disclosure.amortizeRows p [] (split p k (centsOf (repaid pmt i 1) / 100)
        (ι / 100)).balance = .ok [] := rfl
    have hrows := amortizeRows_eq hinterest (disclosed_dueDate_eq hdue) hprincipal hshown hrest
    rw [hrows, hsplit]

/-- **The rows the disclosure shows** are those of the exact loan when its last payment is level, the
figures of each payment split and each row but the last is charged alike. -/
theorem amortizeRows_iff (h : Small pmt i n) (hp : p.pmtCents = round2 pmt)
    (hn : (n : ℤ) = p.termMonths) (hdue : ∀ k ≤ n, (addMonths p.start k).isSome)
    (hrate : 0 ≤ p.monthlyRate) (hrate' : p.monthlyRate ≤ 1) : ∀ {j k : ℕ}, 1 ≤ k → k + j = n →
    (Disclosure.amortizeRows p (List.range' k (j + 1)) (round2 (owed pmt i (j + 1))) =
        .ok ((List.range' k (j + 1)).map (shownRow pmt i p.start n)) ↔
      p.finalPayment = round2 pmt ∧ (∀ l, 1 ≤ l → l ≤ j + 1 → Splits pmt i l) ∧
        ∀ l, 2 ≤ l → l ≤ j + 1 → Charges pmt i p.monthlyRate l) := by
  intro j
  induction j with
  | zero =>
    intro k hk hkn
    have hrow := lastRow_iff h hp (by omega) (hdue k (by omega)) hk hkn hrate hrate'
    refine hrow.trans (and_congr_right fun _ => ⟨fun hone => ⟨fun l hl hl' => ?_, fun l hl hl' => ?_⟩,
      fun hall => hall.1 1 le_rfl le_rfl⟩)
    · rwa [show l = 1 by omega]
    · omega
  | succ j ih =>
    intro k hk hkn
    rw [List.range'_succ, List.map_cons, levelRow_iff h hp (by omega) (hdue k (by omega)) hk hkn,
      ih (by omega) (by omega)]
    constructor
    · rintro ⟨hcharge, hsplit, hfinal, hsplits, hcharges⟩
      refine ⟨hfinal, fun l hl hl' => ?_, fun l hl hl' => ?_⟩
      · by_cases hlast : l = j + 1 + 1
        · rwa [hlast]
        · exact hsplits l hl (by omega)
      · by_cases hlast : l = j + 1 + 1
        · rwa [hlast]
        · exact hcharges l hl (by omega)
    · rintro ⟨hfinal, hsplits, hcharges⟩
      exact ⟨hcharges _ (by omega) le_rfl, hsplits _ (by omega) le_rfl, hfinal,
        fun l hl hl' => hsplits l hl (by omega), fun l hl hl' => hcharges l hl (by omega)⟩

/-- All the rows. -/
theorem allRows_iff (h : Small pmt i n) (hp : p.pmtCents = round2 pmt) (hn : (n : ℤ) = p.termMonths)
    (hdue : ∀ k ≤ n, (addMonths p.start k).isSome) (hrate : 0 ≤ p.monthlyRate)
    (hrate' : p.monthlyRate ≤ 1) (hpos : 1 ≤ n) :
    Disclosure.amortizeRows p (List.range' 1 n) (round2 (owed pmt i n)) =
        .ok ((List.range' 1 n).map (shownRow pmt i p.start n)) ↔
      p.finalPayment = round2 pmt ∧ (∀ l, 1 ≤ l → l ≤ n → Splits pmt i l) ∧
        ∀ l, 2 ≤ l → l ≤ n → Charges pmt i p.monthlyRate l := by
  obtain ⟨j, rfl⟩ := Nat.exists_eq_add_of_le' hpos
  exact amortizeRows_iff h hp hn hdue hrate hrate' le_rfl (Nat.add_comm 1 j)

/-- The first of several rows shows the level payment. -/
theorem firstPayment (hn : (n : ℤ) = p.termMonths) (hpos : 2 ≤ n) {b : ℚ}
    (h : Disclosure.amortizeRows p (List.range' 1 n) b =
      .ok ((List.range' 1 n).map (shownRow pmt i p.start n))) : p.pmtCents = round2 pmt := by
  obtain ⟨j, rfl⟩ := Nat.exists_eq_add_of_le' (show 1 ≤ n by omega)
  rw [List.range'_succ, List.map_cons] at h
  obtain ⟨_, _, _, _, _, -, -, -, -, -, hrows⟩ := amortizeRows_ok h
  have hpayment := (ScheduleRow.mk.inj (List.cons.inj hrows).1).2.2.1
  rw [split, if_neg (by push_cast at hn ⊢; omega)] at hpayment
  exact hpayment.symm

end Disclosed

/-! ## The boarded loan -/

section Boarded

variable (t : Terms)

/-- The loan that was boarded on these terms. -/
def boarded (apr : ℚ) : Loan :=
  ⟨toDecimal t.principal, apr, some (toDecimal t.annualRate), t.termMonths⟩

/-- The exact monthly rate. -/
def exactRate : ℚ := monthlyRate (toDecimal t.annualRate)

/-- The exact level payment. -/
def exactPayment : ℚ := level (toDecimal t.principal) t.termMonths.toNat (exactRate t)

/-- **The exact loan adds up in cents.** -/
structure AddsUp : Prop where
  /-- the disclosed monthly payment is the exact one, rounded -/
  monthly : (Disclosure.monthlyPayment .default (toDecimal t.principal) (toDecimal t.annualRate)
    t.termMonths).bind toCentPlaces = .ok (round2 (exactPayment t))
  /-- the disclosed total of payments is so many rounded payments -/
  total : (Disclosure.monthlyPayment .default (toDecimal t.principal) (toDecimal t.annualRate)
    t.termMonths).bind (fun pmt => toCentPlaces (Context.default.fix (pmt * t.termMonths))) =
      .ok (t.termMonths * round2 (exactPayment t))
  splits : ∀ j, 1 ≤ j → j ≤ t.termMonths.toNat → Splits (exactPayment t) (exactRate t) j
  charges : ∀ j, 2 ≤ j → j ≤ t.termMonths.toNat → Charges (exactPayment t) (exactRate t)
    (Disclosure.monthlyRate .default (toDecimal t.annualRate)) j

/-- **The schedule servicing shows is the disclosed one**, and its payments are the disclosed total. -/
def SameSchedule (apr : ℚ) (start : CalendarDate) : Prop :=
  ∃ rows, loanSchedule (boarded t apr) start = .ok rows ∧
    Disclosure.amortization (toDecimal t.principal) (toDecimal t.annualRate) t.termMonths start =
      .ok rows ∧
    ∀ feePct b, offerFigures feePct (toDecimal t.principal) (toDecimal t.annualRate) t.termMonths =
      .ok b → (rows.map ScheduleRow.payment).sum = b.totalOfPayments

variable {t}

theorem rate_le (t : Terms) : 0 < toDecimal t.annualRate ∧ toDecimal t.annualRate ≤ 60 := by
  refine ⟨toDecimal_pos t.rate_bounds.1, ?_⟩
  have hle := toDecimal_le t.rate_bounds.1.le
  linarith [t.rate_bounds.2]

theorem exactRate_bounds (t : Terms) : 0 < exactRate t ∧ exactRate t ≤ 1 := by
  obtain ⟨hpos, hle⟩ := rate_le t
  unfold exactRate monthlyRate
  constructor
  · positivity
  · linarith

theorem decimalRate_bounds (t : Terms) :
    0 ≤ Disclosure.monthlyRate .default (toDecimal t.annualRate) ∧
      Disclosure.monthlyRate .default (toDecimal t.annualRate) ≤ 1 := by
  obtain ⟨hpos, hle⟩ := rate_le t
  have hfirst := abs_le.mp (fix_near (toDecimal t.annualRate / 100))
  rw [abs_of_nonneg (by positivity)] at hfirst
  have hlow : 0 ≤ Context.default.fix (toDecimal t.annualRate / 100) := by linarith [hfirst.1]
  have hsecond := abs_le.mp (fix_near (Context.default.fix (toDecimal t.annualRate / 100) / 12))
  rw [abs_of_nonneg (by positivity)] at hsecond
  unfold Disclosure.monthlyRate
  constructor <;> linarith [hfirst.1, hfirst.2, hsecond.1, hsecond.2]

/-- What is owed at first is the principal. -/
theorem owed_exact (t : Terms) :
    owed (exactPayment t) (exactRate t) t.termMonths.toNat = toDecimal t.principal := by
  have hterm := t.term_bounds.1
  exact owed_level _ (by omega) (by linarith [(exactRate_bounds t).1])

theorem exactPayment_pos (t : Terms) : 0 < exactPayment t := by
  have hterm := t.term_bounds.1
  exact level_pos (toDecimal_pos t.principal_bounds.1) (by omega) (by linarith [(exactRate_bounds t).1])

theorem small_exact (t : Terms) : Small (exactPayment t) (exactRate t) t.termMonths.toNat := by
  obtain ⟨hrate, hrate'⟩ := exactRate_bounds t
  have hpmt := exactPayment_pos t
  have hprincipal := principal_le t
  have hterm := t.term_bounds.1
  -- the last payment is no more than the principal and one month's interest on it
  have hone : owed (exactPayment t) (exactRate t) 1 ≤ toDecimal t.principal := by
    rw [← owed_exact t]
    exact owed_mono hpmt.le hrate.le (by omega)
  have hcharge := owed_mul_rate (exactPayment t) (show 1 + exactRate t ≠ 0 by linarith) 1
  have hsum := repaid_add_accrued (exactPayment t) (exactRate t) 1
  have hlast : owed (exactPayment t) (exactRate t) 1 = repaid (exactPayment t) (exactRate t) 1 := by
    rw [owed_succ, owed_zero, zero_add]
  have howed := owed_nonneg hpmt.le (show -1 < exactRate t by linarith) 1
  have hinterest : owed (exactPayment t) (exactRate t) 1 * exactRate t ≤
      owed (exactPayment t) (exactRate t) 1 := mul_le_of_le_one_right howed hrate'
  exact ⟨hpmt.le, hrate.le, by linarith, by rw [owed_exact]; linarith⟩

/-- Servicing's payment is the exact level payment. -/
theorem monthlyPayment_exact (t : Terms) :
    monthlyPayment (toDecimal t.principal) (toDecimal t.annualRate) t.termMonths =
      .ok (exactPayment t) := by
  have hterm := t.term_bounds.1
  obtain ⟨n, hn⟩ := Int.eq_ofNat_of_zero_le (show 0 ≤ t.termMonths by omega)
  have hrate := (exactRate_bounds t).1
  have hgrow : 1 < (1 + exactRate t) ^ n := one_lt_pow₀ (by linarith) (by omega)
  have hden : (1 + exactRate t) ^ n - 1 ≠ 0 := by linarith
  have hrateEq : monthlyRate (toDecimal t.annualRate) = exactRate t := rfl
  rw [monthlyPayment, exactPayment, hn, hrateEq, if_neg hrate.ne', divide, zpow_natCast, if_neg hden,
    Int.toNat_natCast, level_eq _ (by omega) hrate]

/-- The principal shown in cents is the principal. -/
theorem round2_owed (hwhole : t.WholeCents) :
    round2 (owed (exactPayment t) (exactRate t) t.termMonths.toNat) = toDecimal t.principal := by
  obtain ⟨k, hk⟩ := hwhole
  rw [owed_exact, hk, round2, div_mul_cancel₀ _ (by norm_num), halfEven_intCast]

/-- What servicing shows for the boarded loan. -/
theorem loanSchedule_eq {apr : ℚ} {start : CalendarDate}
    (hdue : ∀ k ≤ t.termMonths.toNat, (addMonths start k).isSome) :
    loanSchedule (boarded t apr) start = .ok ((List.range' 1 t.termMonths.toNat).map
      (shownRow (exactPayment t) (exactRate t) start t.termMonths.toNat)) := by
  have hsmall := small_exact t
  have hterm : ((t.termMonths.toNat : ℕ) : ℤ) = t.termMonths :=
    Int.toNat_of_nonneg (by linarith [t.term_bounds.1])
  have hrows := amortizeRows_exact hsmall.pmt_nonneg hsmall.rate_nonneg hdue
    (show 1 + t.termMonths.toNat = t.termMonths.toNat + 1 by omega)
  rw [owed_exact, hterm] at hrows
  unfold loanSchedule amortization
  rw [show (boarded t apr).noteRate.getD (boarded t apr).apr = toDecimal t.annualRate from rfl]
  exact (bind_of_ok (monthlyPayment_exact t)).trans hrows

theorem due_iff (start : CalendarDate) (n : ℕ) :
    (∀ k ≤ n, (addMonths start k).isSome) ↔ start.year + (start.month - 1 + n) / 12 ≤ 9999 := by
  constructor
  · exact fun h => (addMonths_isSome start n).mp (h n le_rfl)
  · intro h k hk
    refine (addMonths_isSome start k).mpr (le_trans ?_ h)
    have hmono : (start.month - 1 + k) / 12 ≤ (start.month - 1 + n) / 12 :=
      Nat.div_le_div_right (by omega)
    omega

/-- The payments of the exact loan, as they are shown. -/
theorem sum_payments (pmt i : ℚ) (start : CalendarDate) (n : ℕ) :
    (((List.range' 1 n).map (shownRow pmt i start n)).map ScheduleRow.payment).sum =
      n * round2 pmt := by
  have hpayment : ScheduleRow.payment ∘ shownRow pmt i start n = Function.const ℕ (round2 pmt) := by
    funext k
    rfl
  rw [List.map_map, hpayment, List.map_const, List.sum_replicate, List.length_range', nsmul_eq_mul]

/-- The disclosed total of payments is taken of the payment that is disclosed. -/
theorem offerFigures_total {feePct : ℚ} {b : Box ℚ} {pmt : ℚ}
    (hpmt : Disclosure.monthlyPayment .default (toDecimal t.principal) (toDecimal t.annualRate)
      t.termMonths = .ok pmt)
    (h : offerFigures feePct (toDecimal t.principal) (toDecimal t.annualRate) t.termMonths = .ok b) :
    toCentPlaces (Context.default.fix (pmt * t.termMonths)) = .ok b.totalOfPayments := by
  obtain ⟨pmt', hpmt', h⟩ := of_bind_ok h
  cases hpmt.symm.trans hpmt'
  obtain ⟨_, -, h⟩ := of_bind_ok h
  obtain ⟨_, -, h⟩ := of_bind_ok h
  obtain ⟨_, -, h⟩ := of_bind_ok h
  obtain ⟨_, -, h⟩ := of_bind_ok h
  obtain ⟨_, -, h⟩ := of_bind_ok h
  obtain ⟨_, -, h⟩ := of_bind_ok h
  obtain ⟨total, htotal, h⟩ := of_bind_ok h
  cases h
  exact htotal

/-- The disclosure shows the rows of the exact loan when that adds up in cents. -/
theorem disclosed_iff (hwhole : t.WholeCents) {start : CalendarDate}
    (hdue : ∀ k ≤ t.termMonths.toNat, (addMonths start k).isSome) :
    Disclosure.amortization (toDecimal t.principal) (toDecimal t.annualRate) t.termMonths start =
        .ok ((List.range' 1 t.termMonths.toNat).map
          (shownRow (exactPayment t) (exactRate t) start t.termMonths.toNat)) ↔ AddsUp t := by
  have hsmall := small_exact t
  have hterm := t.term_bounds
  have hn : ((t.termMonths.toNat : ℕ) : ℤ) = t.termMonths := Int.toNat_of_nonneg (by omega)
  obtain ⟨hrate, hrate'⟩ := decimalRate_bounds t
  obtain ⟨⟨hm0, hm⟩, -⟩ := hsmall.bounds (Nat.zero_le t.termMonths.toNat)
  constructor
  · intro h
    obtain ⟨pmt, hpmt, h⟩ := of_bind_ok h
    obtain ⟨p, hplan, h⟩ := of_bind_ok h
    have hpmt := of_figuring_ok hpmt
    obtain ⟨pmtCents, total, hcents, htotal, rfl⟩ := plan_ok (of_figuring_ok hplan)
    have hlevel : pmtCents = round2 (exactPayment t) := firstPayment hn (by omega) h
    subst hlevel
    rw [← round2_owed hwhole] at h
    obtain ⟨hfinal, hsplits, hcharges⟩ := (allRows_iff (p := ⟨start, t.termMonths,
      round2 (exactPayment t), _, Disclosure.monthlyRate .default (toDecimal t.annualRate)⟩)
      hsmall rfl hn hdue hrate hrate' (by omega)).mp h
    refine ⟨?_, ?_, hsplits, hcharges⟩
    · rw [hpmt]
      exact hcents
    · rw [hpmt]
      refine htotal.trans (congrArg Except.ok ?_)
      exact (finalPayment_level_iff hcents htotal hm0 hm (by omega) hterm.2).mp hfinal
  · intro h
    have hmonthly := h.monthly
    have htotal := h.total
    cases hpmt : Disclosure.monthlyPayment .default (toDecimal t.principal) (toDecimal t.annualRate)
        t.termMonths with
    | error e =>
      rw [hpmt] at hmonthly
      cases hmonthly
    | ok pmt =>
      rw [hpmt] at hmonthly htotal
      have hmonthly : toCentPlaces pmt = .ok (round2 (exactPayment t)) := hmonthly
      have htotal : toCentPlaces (Context.default.fix (pmt * t.termMonths)) =
        .ok (t.termMonths * round2 (exactPayment t)) := htotal
      have hfinal := (finalPayment_level_iff hmonthly htotal hm0 hm (by omega) hterm.2).mpr rfl
      have hrows := (allRows_iff (p := ⟨start, t.termMonths, round2 (exactPayment t), _,
        Disclosure.monthlyRate .default (toDecimal t.annualRate)⟩) hsmall rfl hn hdue hrate hrate' (by omega)).mpr ⟨hfinal, h.splits, h.charges⟩
      rw [round2_owed hwhole] at hrows
      unfold Disclosure.amortization plan
      rw [hpmt, figuring, bind_of_ok rfl]
      dsimp only
      rw [bind_of_ok hmonthly, bind_of_ok htotal]
      exact hrows

/-- **The servicing schedule is the disclosed schedule** exactly where the exact loan adds up in cents
and its due dates exist. -/
theorem sameSchedule_iff (hwhole : t.WholeCents) (apr : ℚ) (start : CalendarDate) :
    SameSchedule t apr start ↔
      AddsUp t ∧ start.year + (start.month - 1 + t.termMonths.toNat) / 12 ≤ 9999 := by
  have hterm := t.term_bounds
  have hn : ((t.termMonths.toNat : ℕ) : ℤ) = t.termMonths := Int.toNat_of_nonneg (by omega)
  constructor
  · rintro ⟨rows, hserviced, hdisclosed, -⟩
    have hdates : ∀ k ≤ t.termMonths.toNat, (addMonths start k).isSome := by
      obtain ⟨pmt, -, hrows⟩ := of_bind_ok hserviced
      have hlast := due_of_amortizeRows hrows t.termMonths.toNat
        (List.mem_range'_1.mpr ⟨by omega, Nat.lt_one_add_iff.mpr le_rfl⟩)
      exact (due_iff start _).mpr ((addMonths_isSome start _).mp hlast)
    cases hserviced.symm.trans (loanSchedule_eq hdates)
    exact ⟨(disclosed_iff hwhole hdates).mp hdisclosed, (due_iff start _).mp hdates⟩
  · rintro ⟨hadds, hyear⟩
    have hdates := (due_iff start _).mpr hyear
    refine ⟨_, loanSchedule_eq hdates, (disclosed_iff hwhole hdates).mpr hadds, ?_⟩
    intro feePct b hb
    have htotal := hadds.total
    obtain ⟨pmt, hpmt, -⟩ := of_bind_ok hb
    rw [hpmt] at htotal
    have hsame := Except.ok.inj ((offerFigures_total hpmt hb).symm.trans htotal)
    have hnq : ((t.termMonths.toNat : ℕ) : ℚ) = t.termMonths := by exact_mod_cast hn
    rw [sum_payments, hsame, hnq]

end Boarded

/-! ## Two loans at 7.99 -/

def newYear : CalendarDate := ⟨2026, 1, 1, by decide⟩

/-- 4.71 over twelve months. -/
def smallLoan : Terms := twelveMonths ⟨false, 5302988561228759, -50, by decide⟩ (by decide +kernel)

/-- Its roundings happen to fit. -/
theorem smallLoan_same : SameSchedule smallLoan 0 newYear := by
  have hwhole : smallLoan.WholeCents := ⟨471, by decide +kernel⟩
  obtain ⟨rows, hrows, hshown⟩ := exists_ok (x := Disclosure.amortization
    (toDecimal smallLoan.principal) (toDecimal smallLoan.annualRate) smallLoan.termMonths newYear)
    (p := fun rows => rows = (List.range' 1 12).map
      (shownRow (exactPayment smallLoan) (exactRate smallLoan) newYear 12)) (by decide +kernel)
  have hadds := (disclosed_iff hwhole ((due_iff newYear _).mpr (by decide))).mp (hshown ▸ hrows)
  exact (sameSchedule_iff hwhole 0 newYear).mpr ⟨hadds, by decide⟩

/-- 18000 over 48 months. -/
def carLoan : Terms where
  principal := carPrice
  annualRate := defaultRate
  termMonths := 48
  principal_bounds := carPrice_bounds
  rate_bounds := defaultRate_bounds
  term_bounds := fourYears_bounds

/-- Servicing shows 48 payments of 439.35, the disclosed total is 21088.71. -/
theorem carLoan_differs : carLoan.WholeCents ∧ ¬SameSchedule carLoan 0 newYear := by
  refine ⟨⟨1800000, by decide +kernel⟩, ?_⟩
  rintro ⟨rows, hserviced, hdisclosed, -⟩
  have hserviced' : returns (loanSchedule (boarded carLoan 0) newYear)
      (fun rows => (rows.map ScheduleRow.payment).sum = 21088.80) = true := by decide +kernel
  have hdisclosed' : returns (Disclosure.amortization (toDecimal carLoan.principal)
      (toDecimal carLoan.annualRate) carLoan.termMonths newYear)
      (fun rows => (rows.map ScheduleRow.payment).sum = 21088.71) = true := by decide +kernel
  rw [hserviced] at hserviced'
  rw [hdisclosed] at hdisclosed'
  have hsum : (rows.map ScheduleRow.payment).sum = 21088.80 := of_decide_eq_true hserviced'
  have hsum' : (rows.map ScheduleRow.payment).sum = 21088.71 := of_decide_eq_true hdisclosed'
  rw [hsum] at hsum'
  norm_num at hsum'

end Meridian.Servicing
