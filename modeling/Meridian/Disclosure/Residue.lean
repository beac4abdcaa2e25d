import Meridian.Disclosure.Accounting

/-!
# Rows without a negative figure

What the roundings leave is squared in the last row. While the level payment covers the first
month's interest the balance only falls, so all of a schedule is free of negative figures exactly
when that holds and the balance before the last payment is neither negative nor more than the final
payment pays (`clean_iff`).

* `carried`: the balance after so many level payments.
* `afterLevel_le`: a payment that covers the interest lowers the balance.
-/

namespace Meridian.Disclosure

open Python Numeric

/-! ## Order and sign -/

theorem fix_mono {x y : ℚ} (h : x ≤ y) : Context.default.fix x ≤ Context.default.fix y := by
  rw [Context.fix_default, Context.fix_default]
  exact roundTo_mono (by norm_num) h

theorem fix_idem (x : ℚ) : Context.default.fix (Context.default.fix x) = Context.default.fix x := by
  rw [Context.fix_default, Context.fix_default]
  exact roundTo_idem (by norm_num) x

theorem fix_nonneg {x : ℚ} (h : 0 ≤ x) : 0 ≤ Context.default.fix x := by
  rw [Context.fix_default]
  exact roundTo_nonneg 28 h

theorem fix_nonneg_iff {x : ℚ} : 0 ≤ Context.default.fix x ↔ 0 ≤ x := by
  refine ⟨fun h => ?_, fix_nonneg⟩
  by_contra hneg
  have hnear := (abs_le.mp (fix_near x)).2
  rw [abs_of_neg (not_le.mp hneg)] at hnear
  linarith [not_le.mp hneg]

theorem fix_le_intCast {x : ℚ} {n : ℤ} (hn : |n| ≤ 10 ^ 28) (h : x ≤ n) :
    Context.default.fix x ≤ n := by
  rw [← fix_intCast hn]
  exact fix_mono h

theorem halfUp_nonneg {x : ℚ} (h : 0 ≤ x) : 0 ≤ halfUp x := by
  have hmono := halfUp_mono h
  rwa [show halfUp (0 : ℚ) = 0 by simpa using halfUp_intCast (K := ℚ) 0] at hmono

/-- What a text spells is kept. -/
theorem fix_toDecimal {f : F64} (h : 0 ≤ f.toRat) :
    Context.default.fix (toDecimal f) = toDecimal f := by
  rw [(toDecimal_of_nonneg h).1, Context.fix_default, F64.decimal]
  refine roundTo_eq (by norm_num) (ofDigits f.digits.1) _ (by push_cast; rfl) ?_
  have hdigits := F64.digits_spec f
  have hlt : ofDigits f.digits.1 < 10 ^ f.digits.1.length := ofDigits_lt hdigits.lt
  have hpow : 10 ^ f.digits.1.length ≤ 10 ^ 17 := Nat.pow_le_pow_right (by norm_num) hdigits.length_le
  have hle : ((ofDigits f.digits.1 : ℕ) : ℤ) ≤ 10 ^ 17 := by exact_mod_cast hlt.le.trans hpow
  rw [abs_of_nonneg (Int.natCast_nonneg _)]
  exact hle.trans (by norm_num)

/-! ## Figures in cents -/

/-- A figure in whole cents. -/
def shownCents (x : ℚ) : ℚ := (halfUp (x * 100) : ℚ) / 100

theorem shownCents_mono {x y : ℚ} (h : x ≤ y) : shownCents x ≤ shownCents y := by
  have hround := halfUp_mono (mul_le_mul_of_nonneg_right h (show (0 : ℚ) ≤ 100 by norm_num))
  have hq : (halfUp (x * 100) : ℚ) ≤ halfUp (y * 100) := by exact_mod_cast hround
  unfold shownCents
  linarith

theorem shownCents_nonneg {x : ℚ} (h : 0 ≤ x) : 0 ≤ shownCents x :=
  div_nonneg (by exact_mod_cast halfUp_nonneg (mul_nonneg h (by norm_num))) (by norm_num)

theorem shownCents_le {x y : ℚ} (h : x ≤ y) : shownCents x ≤ y + 1 := by
  have hnear := (abs_le.mp (halfUp_near (x * 100))).2
  unfold shownCents
  linarith

/-- A figure of this size is shown. -/
theorem toCentPlaces_shown {x : ℚ} (h : 0 ≤ x) (h' : x ≤ 10 ^ 9) :
    toCentPlaces x = .ok (shownCents x) := by
  refine toCentPlaces_eq rfl ?_
  have hnonneg := halfUp_nonneg (mul_nonneg h (show (0 : ℚ) ≤ 100 by norm_num))
  have hle := shownCents_le h'
  unfold shownCents at hle
  have hq : (halfUp (x * 100) : ℚ) ≤ 10 ^ 12 := by linarith
  have hz : halfUp (x * 100) ≤ 10 ^ 12 := by exact_mod_cast hq
  rw [abs_of_nonneg hnonneg]
  exact hz.trans_lt (by norm_num)

/-! ## Level rows -/

/-- One month's interest on a balance. -/
def interestOn (rate b : ℚ) : ℚ := (halfUp (Context.default.fix (b * rate) * 100) : ℚ) / 100

/-- The part of a level payment that repays. -/
def levelPart (rate m b : ℚ) : ℚ := Context.default.fix (m - interestOn rate b)

/-- The balance after a level payment. -/
def afterLevel (rate m b : ℚ) : ℚ := Context.default.fix (b - levelPart rate m b)

/-- The balance after so many level payments. -/
def carried (rate m : ℚ) : ℕ → ℚ → ℚ
  | 0, b => b
  | k + 1, b => carried rate m k (afterLevel rate m b)

/-- What the last row repays of a balance. -/
def lastPart (rate m b : ℚ) : ℚ := Context.default.fix (levelPart rate m b + afterLevel rate m b)

section Level

variable {rate m b b' : ℚ} {p : Plan} {n : ℕ}

theorem interestOn_mono (hrate : 0 ≤ rate) (h : b ≤ b') : interestOn rate b ≤ interestOn rate b' := by
  unfold interestOn
  have hfix := fix_mono (mul_le_mul_of_nonneg_right h hrate)
  have hround := halfUp_mono (mul_le_mul_of_nonneg_right hfix (show (0 : ℚ) ≤ 100 by norm_num))
  have hq : (halfUp (Context.default.fix (b * rate) * 100) : ℚ) ≤
    halfUp (Context.default.fix (b' * rate) * 100) := by exact_mod_cast hround
  linarith

theorem interestOn_nonneg (hrate : 0 ≤ rate) (h : 0 ≤ b) : 0 ≤ interestOn rate b := by
  have hfix := fix_nonneg (mul_nonneg h hrate)
  have hround := halfUp_nonneg (mul_nonneg hfix (show (0 : ℚ) ≤ 100 by norm_num))
  exact div_nonneg (by exact_mod_cast hround) (by norm_num)

theorem interestOn_ok {i : ℚ} (h : toCentPlaces (Context.default.fix (b * rate)) = .ok i) :
    i = interestOn rate b :=
  (toCentPlaces_ok h).1

theorem split_of_ne {i : ℚ} (hn : (n : ℤ) ≠ p.termMonths) (hi : i = interestOn p.monthlyRate b) :
    split p n b i = ⟨p.pmtCents, levelPart p.monthlyRate p.pmtCents b, i,
      afterLevel p.monthlyRate p.pmtCents b⟩ := by
  rw [split, if_neg hn, afterLevel, levelPart, hi]

theorem split_of_eq {i : ℚ} (hn : (n : ℤ) = p.termMonths) (hi : i = interestOn p.monthlyRate b) :
    split p n b i = ⟨p.finalPayment, lastPart p.monthlyRate p.pmtCents b,
      Context.default.fix (p.finalPayment - lastPart p.monthlyRate p.pmtCents b), 0⟩ := by
  rw [split, if_pos hn, lastPart, afterLevel, levelPart, hi]

/-- **A payment that covers the interest** lowers the balance. -/
theorem afterLevel_le (hcover : interestOn rate b ≤ m) (hb : Context.default.fix b = b) :
    afterLevel rate m b ≤ b := by
  have hpart : 0 ≤ levelPart rate m b := fix_nonneg (sub_nonneg.mpr hcover)
  calc afterLevel rate m b ≤ Context.default.fix b := fix_mono (sub_le_self b hpart)
    _ = b := hb

theorem fix_afterLevel : Context.default.fix (afterLevel rate m b) = afterLevel rate m b :=
  fix_idem _

/-- Level payments that cover the interest on a balance cover it from then on. -/
theorem carried_le (hrate : 0 ≤ rate) (hcover : interestOn rate b ≤ m) (hb : Context.default.fix b = b)
    (k : ℕ) : carried rate m k b ≤ b := by
  induction k generalizing b with
  | zero => exact le_rfl
  | succ k ih =>
    have hle := afterLevel_le hcover hb
    exact (ih ((interestOn_mono hrate hle).trans hcover) fix_afterLevel).trans hle

/-- More level payments leave no more. -/
theorem carried_antitone (hrate : 0 ≤ rate) (hcover : interestOn rate b ≤ m)
    (hb : Context.default.fix b = b) {k l : ℕ} (h : k ≤ l) :
    carried rate m l b ≤ carried rate m k b := by
  induction k generalizing b l with
  | zero => exact carried_le hrate hcover hb l
  | succ k ih =>
    obtain ⟨l, rfl⟩ := Nat.exists_eq_add_of_le' (show 1 ≤ l by omega)
    have hle := afterLevel_le hcover hb
    exact ih ((interestOn_mono hrate hle).trans hcover) fix_afterLevel (by omega)

/-- **A first row that repays** is one whose payment covers the interest. -/
theorem cover_of_levelPart {M : ℤ} (hm : m = M / 100) (h : 0 ≤ shownCents (levelPart rate m b)) :
    interestOn rate b ≤ m := by
  by_contra hlt
  rw [hm, interestOn, not_le, div_lt_div_iff_of_pos_right (by norm_num), Int.cast_lt] at hlt
  have hle : m - interestOn rate b ≤ ((-1 : ℤ) : ℚ) / 100 := by
    have hq : (M : ℚ) + 1 ≤ halfUp (Context.default.fix (b * rate) * 100) := by exact_mod_cast hlt
    rw [hm, interestOn]
    push_cast
    linarith
  have hpart : levelPart rate m b ≤ ((-1 : ℤ) : ℚ) / 100 := by
    rw [← fix_hundredths (n := -1) (by norm_num)]
    exact fix_mono hle
  have hshown := shownCents_mono hpart
  rw [shownCents, shownCents, div_mul_cancel₀ _ (by norm_num), halfUp_intCast] at hshown
  unfold shownCents at h
  push_cast at hshown
  linarith

/-- What the last row repays is not negative when the balance is not. -/
theorem lastPart_nonneg (hcover : interestOn rate b ≤ m) (hb : 0 ≤ b) : 0 ≤ lastPart rate m b := by
  refine fix_nonneg ?_
  have hpart : 0 ≤ levelPart rate m b := fix_nonneg (sub_nonneg.mpr hcover)
  have hafter : Context.default.fix (-levelPart rate m b) ≤ afterLevel rate m b :=
    fix_mono (by linarith)
  have hneg : Context.default.fix (-levelPart rate m b) = -levelPart rate m b := by
    rw [Context.fix_default, roundTo_neg, ← Context.fix_default, levelPart, fix_idem]
  linarith

end Level

/-! ## Rows that are left -/

/-- A row without a negative figure. -/
structure Clean (row : ScheduleRow ℚ) : Prop where
  payment : 0 ≤ row.payment
  principal : 0 ≤ row.principal
  interest : 0 ≤ row.interest
  balance : 0 ≤ row.balance

section Rows

variable {p : Plan} {n j : ℕ} {b : ℚ}

/-- The interest of the last row. -/
theorem exists_lastRow (hn : (n : ℤ) = p.termMonths) : ∀ {j k : ℕ} {b : ℚ}
    {rows : List (ScheduleRow ℚ)}, k + j = n →
    amortizeRows p (List.range' k (j + 1)) b = .ok rows → ∃ row ∈ rows,
      row.interest = Context.default.fix (p.finalPayment -
        lastPart p.monthlyRate p.pmtCents (carried p.monthlyRate p.pmtCents j b)) := by
  intro j
  induction j with
  | zero =>
    intro k b rows hk h
    rw [List.range'_succ] at h
    obtain ⟨i, due, principal, shown, rest, hi, -, -, -, -, rfl⟩ := amortizeRows_ok h
    refine ⟨_, List.mem_cons_self, ?_⟩
    rw [split_of_eq (by omega) (interestOn_ok hi)]
    rfl
  | succ j ih =>
    intro k b rows hk h
    rw [List.range'_succ] at h
    obtain ⟨i, due, principal, shown, rest, hi, -, -, -, hrest, rfl⟩ := amortizeRows_ok h
    rw [split_of_ne (by omega) (interestOn_ok hi)] at hrest
    obtain ⟨row, hrow, hinterest⟩ := ih (by omega) hrest
    exact ⟨row, List.mem_cons_of_mem _ hrow, hinterest⟩

/-- The principal of the first of several rows. -/
theorem exists_firstRow {rows : List (ScheduleRow ℚ)} (hn : (1 : ℤ) ≠ p.termMonths)
    (h : amortizeRows p (List.range' 1 (j + 1)) b = .ok rows) : ∃ row ∈ rows,
      row.principal = shownCents (levelPart p.monthlyRate p.pmtCents b) := by
  rw [List.range'_succ] at h
  obtain ⟨i, due, principal, shown, rest, hi, -, hprincipal, -, -, rfl⟩ := amortizeRows_ok h
  refine ⟨_, List.mem_cons_self, ?_⟩
  rw [split_of_ne (by exact_mod_cast hn) (interestOn_ok hi)] at hprincipal
  exact (toCentPlaces_ok hprincipal).1

/-- What keeps the rows of a balance free of negative figures, and small. -/
structure Covered (p : Plan) (n : ℕ) : Prop where
  term : (n : ℤ) = p.termMonths
  dates : ∀ k ≤ n, (addMonths p.start k).isSome
  rate_nonneg : 0 ≤ p.monthlyRate
  rate_le : p.monthlyRate ≤ 1
  payment_le : p.pmtCents ≤ 10 ^ 6

/-- Interest on a balance of this size is counted. -/
theorem Covered.interest (h : Covered p n) (hb : 0 ≤ b) (hb' : b ≤ 10 ^ 5) :
    toCentPlaces (Context.default.fix (b * p.monthlyRate)) = .ok (interestOn p.monthlyRate b) := by
  have hle : b * p.monthlyRate ≤ b := mul_le_of_le_one_right hb h.rate_le
  have hnonneg := mul_nonneg hb h.rate_nonneg
  have hfix := (abs_le.mp (fix_near (b * p.monthlyRate))).2
  rw [abs_of_nonneg hnonneg] at hfix
  exact toCentPlaces_shown (fix_nonneg hnonneg) (by linarith)

theorem Covered.levelPart_le (h : Covered p n) (hb : 0 ≤ b)
    (hcover : interestOn p.monthlyRate b ≤ p.pmtCents) :
    0 ≤ levelPart p.monthlyRate p.pmtCents b ∧ levelPart p.monthlyRate p.pmtCents b ≤ 10 ^ 7 := by
  have hsub := sub_nonneg.mpr hcover
  have hinterest := interestOn_nonneg h.rate_nonneg hb
  have hfix := (abs_le.mp (fix_near (p.pmtCents - interestOn p.monthlyRate b))).2
  rw [abs_of_nonneg hsub] at hfix
  have hpayment := h.payment_le
  exact ⟨fix_nonneg hsub, by unfold levelPart; linarith⟩

/-- **The rows that are left** show no negative figure and no balance above the one before. -/
theorem Covered.clean_rows (h : Covered p n) : ∀ {j k : ℕ} {b : ℚ}, k + j = n → b ≤ 10 ^ 5 →
    Context.default.fix b = b → interestOn p.monthlyRate b ≤ p.pmtCents →
    0 ≤ carried p.monthlyRate p.pmtCents j b →
    lastPart p.monthlyRate p.pmtCents (carried p.monthlyRate p.pmtCents j b) ≤ p.finalPayment →
    p.finalPayment ≤ 10 ^ 9 →
    ∃ rows, amortizeRows p (List.range' k (j + 1)) b = .ok rows ∧ (∀ row ∈ rows, Clean row) ∧
      (∀ row ∈ rows, row.balance ≤ shownCents b) ∧
      (rows.map ScheduleRow.balance).Pairwise (· ≥ ·) := by
  intro j
  induction j with
  | zero =>
    intro k b hk hb hfix hcover hleft hfinal hsmall
    have hleft : 0 ≤ b := hleft
    have hfinal : lastPart p.monthlyRate p.pmtCents b ≤ p.finalPayment := hfinal
    obtain ⟨due, hdue⟩ := dueDate_of_isSome (h.dates k (by omega))
    have hi := h.interest hleft hb
    have hpart := lastPart_nonneg hcover hleft
    have hsplit := split_of_eq (show (k : ℤ) = p.termMonths by rw [← h.term]; omega)
      (rfl : interestOn p.monthlyRate b = _)
    have hprincipal : toCentPlaces (split p k b (interestOn p.monthlyRate b)).principal =
        .ok (shownCents (lastPart p.monthlyRate p.pmtCents b)) := by
      rw [hsplit]
      exact toCentPlaces_shown hpart (by linarith)
    have hshown : toCentPlaces (max (split p k b (interestOn p.monthlyRate b)).balance 0) =
        .ok (shownCents 0) := by
      rw [hsplit, max_self]
      exact toCentPlaces_shown le_rfl (by norm_num)
    have hrest : amortizeRows p [] (split p k b (interestOn p.monthlyRate b)).balance = .ok [] := rfl
    have hrows := amortizeRows_eq hi hdue hprincipal hshown hrest
    rw [hsplit] at hrows
    refine ⟨_, hrows, ?_, ?_, List.pairwise_singleton _ _⟩
    · intro row hrow
      rw [List.mem_singleton.mp hrow]
      exact ⟨hpart.trans hfinal, shownCents_nonneg hpart, fix_nonneg (sub_nonneg.mpr hfinal),
        shownCents_nonneg le_rfl⟩
    · intro row hrow
      rw [List.mem_singleton.mp hrow]
      exact shownCents_mono hleft
  | succ j ih =>
    intro k b hk hb hfix hcover hleft hfinal hsmall
    have hnonneg : 0 ≤ b := hleft.trans (carried_le h.rate_nonneg hcover hfix (j + 1))
    obtain ⟨due, hdue⟩ := dueDate_of_isSome (h.dates k (by omega))
    have hafter := afterLevel_le hcover hfix
    have hcover' := (interestOn_mono h.rate_nonneg hafter).trans hcover
    have hafter0 : 0 ≤ afterLevel p.monthlyRate p.pmtCents b :=
      hleft.trans (carried_le h.rate_nonneg hcover' fix_afterLevel j)
    obtain ⟨rows, hrows, hclean, hbelow, hsorted⟩ := ih (k := k + 1) (by omega) (hafter.trans hb)
      fix_afterLevel hcover' hleft hfinal hsmall
    have hi := h.interest hnonneg hb
    obtain ⟨hpart, hpart'⟩ := h.levelPart_le hnonneg hcover
    have hsplit := split_of_ne (show (k : ℤ) ≠ p.termMonths by rw [← h.term]; omega)
      (rfl : interestOn p.monthlyRate b = _)
    have hprincipal : toCentPlaces (split p k b (interestOn p.monthlyRate b)).principal =
        .ok (shownCents (levelPart p.monthlyRate p.pmtCents b)) := by
      rw [hsplit]
      exact toCentPlaces_shown hpart (hpart'.trans (by norm_num))
    have hshown : toCentPlaces (max (split p k b (interestOn p.monthlyRate b)).balance 0) =
        .ok (shownCents (afterLevel p.monthlyRate p.pmtCents b)) := by
      rw [hsplit, max_eq_left hafter0]
      exact toCentPlaces_shown hafter0 (by linarith)
    have hrest : amortizeRows p (List.range' (k + 1) (j + 1))
        (split p k b (interestOn p.monthlyRate b)).balance = .ok rows := by
      rw [hsplit]
      exact hrows
    have hall := amortizeRows_eq hi hdue hprincipal hshown hrest
    rw [hsplit] at hall
    rw [List.range'_succ]
    refine ⟨_, hall, List.forall_mem_cons.mpr ⟨⟨?_, ?_, ?_, ?_⟩, hclean⟩,
      List.forall_mem_cons.mpr ⟨shownCents_mono hafter,
        fun row hrow => (hbelow row hrow).trans (shownCents_mono hafter)⟩, ?_⟩
    · exact (interestOn_nonneg h.rate_nonneg hnonneg).trans hcover
    · exact shownCents_nonneg hpart
    · exact interestOn_nonneg h.rate_nonneg hnonneg
    · exact shownCents_nonneg hafter0
    · rw [List.map_cons, List.pairwise_cons]
      refine ⟨fun x hx => ?_, hsorted⟩
      obtain ⟨row, hrow, rfl⟩ := List.mem_map.mp hx
      exact hbelow row hrow

end Rows

/-! ## The schedule of a loan -/

section Loan

variable (t : Terms) (start : CalendarDate)

/-- What `amortization` computes before the rows of these terms. -/
def planOf : Except Fault Plan :=
  (monthlyPayment .default (toDecimal t.principal) (toDecimal t.annualRate) t.termMonths).bind
    (plan start (toDecimal t.annualRate) t.termMonths)

/-- **No row is negative**: no figure shown, no running balance, and no balance shown above the one
before. -/
def NoNegative : Prop :=
  ∃ p rows, planOf t start = .ok p ∧
    amortization (toDecimal t.principal) (toDecimal t.annualRate) t.termMonths start = .ok rows ∧
    (∀ row ∈ rows, Clean row) ∧ (rows.map ScheduleRow.balance).Pairwise (· ≥ ·) ∧
    ∀ k < t.termMonths.toNat, 0 ≤ carried p.monthlyRate p.pmtCents k (toDecimal t.principal)

/-- The level payment covers the first month's interest, and what the level payments leave of the
principal is not negative and no more than the final payment. -/
def ResidueFits : Prop :=
  ∃ p, planOf t start = .ok p ∧
    interestOn p.monthlyRate (toDecimal t.principal) ≤ p.pmtCents ∧
    0 ≤ carried p.monthlyRate p.pmtCents (t.termMonths.toNat - 1) (toDecimal t.principal) ∧
    lastPart p.monthlyRate p.pmtCents (carried p.monthlyRate p.pmtCents (t.termMonths.toNat - 1)
      (toDecimal t.principal)) ≤ p.finalPayment

variable {t start} {p : Plan}

theorem planOf_ok (h : planOf t start = .ok p) : p.start = start ∧ p.termMonths = t.termMonths ∧
    p.monthlyRate = monthlyRate .default (toDecimal t.annualRate) ∧
    ∃ pmt total, toCentPlaces pmt = .ok p.pmtCents ∧
      toCentPlaces (Context.default.fix (pmt * t.termMonths)) = .ok total ∧
      p.finalPayment = Context.default.fix
        (total - Context.default.fix (p.pmtCents * ((t.termMonths - 1 : ℤ) : ℚ))) := by
  obtain ⟨pmt, -, h⟩ := of_bind_ok h
  obtain ⟨pmtCents, total, hcents, htotal, rfl⟩ := plan_ok h
  exact ⟨rfl, rfl, rfl, pmt, total, hcents, htotal, rfl⟩

theorem amortization_of_plan {rows : List (ScheduleRow ℚ)} (h : planOf t start = .ok p) :
    amortization (toDecimal t.principal) (toDecimal t.annualRate) t.termMonths start = .ok rows ↔
      amortizeRows p (List.range' 1 t.termMonths.toNat) (toDecimal t.principal) = .ok rows := by
  obtain ⟨pmt, hpmt, hplan⟩ := of_bind_ok h
  unfold amortization
  rw [hpmt, figuring, bind_of_ok rfl, hplan, figuring, bind_of_ok rfl]

theorem rate_bound (t : Terms) : 0 ≤ toDecimal t.annualRate ∧ toDecimal t.annualRate ≤ 60 := by
  refine ⟨(toDecimal_pos t.rate_bounds.1).le, ?_⟩
  have hle := toDecimal_le t.rate_bounds.1.le
  linarith [t.rate_bounds.2]

/-- Level payments that leave no negative balance are small. -/
theorem covered (hplan : planOf t start = .ok p)
    (hcover : interestOn p.monthlyRate (toDecimal t.principal) ≤ p.pmtCents)
    (hleft : 0 ≤ carried p.monthlyRate p.pmtCents (t.termMonths.toNat - 1) (toDecimal t.principal))
    (hyear : start.year + (start.month - 1 + t.termMonths.toNat) / 12 ≤ 9999) :
    Covered p t.termMonths.toNat ∧ p.finalPayment ≤ 10 ^ 9 := by
  obtain ⟨hstart, hn, hrate, pmt, total, hcents, htotal, hfinal⟩ := planOf_ok hplan
  obtain ⟨hrate0, hrate'⟩ := rate_bound t
  have hr := monthlyRate_nonneg hrate0
  have hr' := monthlyRate_le hrate0 hrate'
  rw [← hrate] at hr hr'
  have hterm := t.term_bounds
  have hP := toDecimal_pos t.principal_bounds.1
  have hP' := principal_le t
  have hfixP := fix_toDecimal t.principal_bounds.1.le
  have hinterest0 := interestOn_nonneg hr hP.le
  have hm0 : 0 ≤ p.pmtCents := hinterest0.trans hcover
  -- the balance after one level payment bounds the payment
  have hm : p.pmtCents ≤ 10 ^ 6 := by
    have hone := carried_antitone hr hcover hfixP (show 1 ≤ t.termMonths.toNat - 1 by omega)
    have hafter : 0 ≤ afterLevel p.monthlyRate p.pmtCents (toDecimal t.principal) := hleft.trans hone
    rw [afterLevel, fix_nonneg_iff] at hafter
    have hsub := sub_nonneg.mpr hcover
    have hpart := (abs_le.mp (fix_near (p.pmtCents - interestOn p.monthlyRate (toDecimal t.principal)))).1
    rw [abs_of_nonneg hsub] at hpart
    have hle : interestOn p.monthlyRate (toDecimal t.principal) ≤ 10 ^ 5 := by
      have hmul : toDecimal t.principal * p.monthlyRate ≤ toDecimal t.principal :=
        mul_le_of_le_one_right hP.le hr'
      have hnonneg := mul_nonneg hP.le hr
      have hfix := (abs_le.mp (fix_near (toDecimal t.principal * p.monthlyRate))).2
      rw [abs_of_nonneg hnonneg] at hfix
      have hshown := shownCents_le (show Context.default.fix (toDecimal t.principal * p.monthlyRate) ≤
        80000 by linarith)
      rw [shownCents] at hshown
      unfold interestOn
      linarith
    unfold levelPart at hafter
    linarith
  refine ⟨⟨by omega, ?_, hr, hr', hm⟩, ?_⟩
  · intro k hk
    rw [hstart]
    exact addMonths_isSome_of_le ((addMonths_isSome start _).mpr hyear) hk
  · obtain ⟨hm', -⟩ := toCentPlaces_ok hcents
    obtain ⟨ht', -⟩ := toCentPlaces_ok htotal
    have hnear := (abs_le.mp (halfUp_near (pmt * 100))).1
    have hnear' := (abs_le.mp (halfUp_near (Context.default.fix (pmt * t.termMonths) * 100))).2
    have hnq : (1 : ℚ) ≤ t.termMonths := by exact_mod_cast (show 1 ≤ t.termMonths by omega)
    have hnq' : (t.termMonths : ℚ) ≤ 60 := by exact_mod_cast hterm.2
    have hpmt : pmt ≤ 10 ^ 6 + 1 := by linarith
    have hall : pmt * t.termMonths ≤ ((61000000 : ℤ) : ℚ) := by
      calc pmt * t.termMonths ≤ (10 ^ 6 + 1) * t.termMonths :=
            mul_le_mul_of_nonneg_right hpmt (by linarith)
        _ ≤ (10 ^ 6 + 1) * 60 := mul_le_mul_of_nonneg_left hnq' (by norm_num)
        _ ≤ ((61000000 : ℤ) : ℚ) := by norm_num
    have hfixed := fix_le_intCast (by norm_num) hall
    have hlevel : 0 ≤ Context.default.fix (p.pmtCents * ((t.termMonths - 1 : ℤ) : ℚ)) :=
      fix_nonneg (mul_nonneg hm0 (by exact_mod_cast (show 0 ≤ t.termMonths - 1 by omega)))
    have htotal' : total - Context.default.fix (p.pmtCents * ((t.termMonths - 1 : ℤ) : ℚ)) ≤
        ((63000000 : ℤ) : ℚ) := by
      push_cast at hfixed hlevel ⊢
      linarith
    rw [hfinal]
    exact (fix_le_intCast (by norm_num) htotal').trans (by norm_num)

/-- **No disclosed row is negative** exactly where what the roundings leave fits the final payment and
the due dates exist. -/
theorem noNegative_iff (t : Terms) (start : CalendarDate) : NoNegative t start ↔
    ResidueFits t start ∧ start.year + (start.month - 1 + t.termMonths.toNat) / 12 ≤ 9999 := by
  have hterm := t.term_bounds
  obtain ⟨j, hj⟩ : ∃ j, t.termMonths.toNat = j + 1 := ⟨t.termMonths.toNat - 1, by omega⟩
  have hj' : t.termMonths.toNat - 1 = j := by omega
  constructor
  · rintro ⟨p, rows, hplan, hrows, hclean, -, hrunning⟩
    rw [amortization_of_plan hplan, hj] at hrows
    obtain ⟨hstart, hn, hrate, pmt, total, hcents, -⟩ := planOf_ok hplan
    obtain ⟨first, hfirst, hprincipal⟩ := exists_firstRow (by omega) hrows
    obtain ⟨last, hlast, hinterest⟩ := exists_lastRow (n := j + 1) (by omega) (Nat.add_comm 1 j) hrows
    refine ⟨⟨p, hplan, ?_, hrunning _ (by omega), ?_⟩, ?_⟩
    · exact cover_of_levelPart (toCentPlaces_ok hcents).1 (hprincipal ▸ (hclean first hfirst).principal)
    · rw [hj']
      have hnonneg := (hclean last hlast).interest
      rw [hinterest, fix_nonneg_iff] at hnonneg
      linarith
    · have hdue := due_of_rows hrows (j + 1) (List.mem_range'_1.mpr ⟨by omega, by omega⟩)
      rwa [hstart, addMonths_isSome, ← hj] at hdue
  · rintro ⟨⟨p, hplan, hcover, hleft, hfinal⟩, hyear⟩
    obtain ⟨hcovered, hsmall⟩ := covered hplan hcover hleft hyear
    have hfix := fix_toDecimal t.principal_bounds.1.le
    have hrunning : ∀ k < t.termMonths.toNat,
        0 ≤ carried p.monthlyRate p.pmtCents k (toDecimal t.principal) := fun k hk =>
      hleft.trans (carried_antitone hcovered.rate_nonneg hcover hfix (by omega))
    rw [hj'] at hleft hfinal
    obtain ⟨rows, hrows, hclean, -, hsorted⟩ := hcovered.clean_rows (k := 1) (j := j) (by omega)
      (by linarith [principal_le t]) hfix hcover hleft hfinal hsmall
    refine ⟨p, rows, hplan, ?_, hclean, hsorted, hrunning⟩
    rw [amortization_of_plan hplan, hj]
    exact hrows

end Loan

/-- 341 over 48 months, at the rate and the term an offer has by default. -/
def defaultTerms : Terms where
  principal := ⟨false, 5998935441145856, -44, by decide⟩
  annualRate := defaultRate
  termMonths := 48
  principal_bounds := by decide +kernel
  rate_bounds := defaultRate_bounds
  term_bounds := fourYears_bounds

/-- The last row shows an interest of -0.01. -/
theorem negative_interest : ¬NoNegative defaultTerms ⟨2026, 1, 1, by decide⟩ := by
  rintro ⟨p, rows, -, hrows, hclean, -⟩
  have hlast : returns (amortization (toDecimal defaultTerms.principal)
      (toDecimal defaultTerms.annualRate) defaultTerms.termMonths ⟨2026, 1, 1, by decide⟩)
      (fun rows => ∃ row ∈ rows, row.interest = -0.01) = true := by decide +kernel
  rw [hrows] at hlast
  obtain ⟨row, hrow, hinterest⟩ : ∃ row ∈ rows, row.interest = -0.01 := of_decide_eq_true hlast
  have hnonneg := (hclean row hrow).interest
  rw [hinterest] at hnonneg
  norm_num at hnonneg

end Meridian.Disclosure
