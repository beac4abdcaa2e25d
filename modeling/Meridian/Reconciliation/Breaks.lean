import Meridian.Reconciliation.Reconcile

/-!
# Where breaks come from

Besides the refunds, a run reports a break exactly when its exact pass leaves a row of the true
window without a partner: the mismatch pass either pairs it, which is an `AMOUNT_MISMATCH`, or
leaves it, which is a missing row (`clean_iff`).

* `comparison_spec`, `reconcile_steps`: what a run that returns has read.
* `reconcile_returns`: a run returns when its rows do and its windows stay within the calendar.
* `exact_part`: a part that no exact pair leaves is paired as if it were alone.
-/

namespace Meridian.Reconciliation

open Python Assignment

/-! ## What a run reads -/

/-- A comparison of `payments` and a file under the arguments of `x`. -/
structure Reads (x : Run) (y : Comparison) (rows : List PaymentRow) : Prop where
  tolerance : y.toleranceDays = x.toleranceDays
  nonneg : 0 ≤ y.toleranceDays
  ordered : y.windowFrom ≤ y.windowTo
  fromDate : ∀ d, x.fromDate = some d → y.windowFrom = d
  toDate : ∀ d, x.toDate = some d → y.windowTo = d
  file : loadSettlement x.path (x.files x.path) = .ok y.allSettlement
  payments : x.payments = some rows
  lower : 1 ≤ y.windowFrom - y.toleranceDays
  upper : y.windowTo + y.toleranceDays < maxOrdinal
  ledger : y.ledgerCandidates.Perm ((rows.filterMap typedRow).filter fun l =>
    between (y.windowFrom - y.toleranceDays) (y.windowTo + y.toleranceDays) l.date)

theorem addDays_eq {d n e : Int} (h : addDays d n = some e) :
    e = d + n ∧ 1 ≤ d + n ∧ d + n ≤ maxOrdinal := by
  unfold addDays at h
  split at h
  · rename_i hin
    cases h
    exact ⟨rfl, hin.2.2⟩
  · cases h

/-- A typed row was created when its `payments` row was. -/
theorem typedRow_createdAt {r : PaymentRow} {l : LedgerRow} (h : typedRow r = some l) :
    r.createdAt = some l.createdAt := by
  unfold typedRow at h
  split at h
  · rename_i hc _ _
    cases h
    exact hc
  · cases h

/-- The typed rows of a window are the window's part of all typed rows. -/
theorem filterMap_typedRow (rows : List PaymentRow) (f t : Int) :
    (rows.filter (createdIn f t)).filterMap typedRow =
      (rows.filterMap typedRow).filter fun l => between f t l.date := by
  induction rows with
  | nil => rfl
  | cons r rows ih =>
    cases hl : typedRow r with
    | none =>
      rw [List.filterMap_cons_none hl, ← ih]
      by_cases hin : createdIn f t r = true
      · rw [List.filter_cons_of_pos hin, List.filterMap_cons_none hl]
      · rw [List.filter_cons_of_neg hin]
    | some l =>
      have hdate : createdIn f t r = between f t l.date := by
        rw [createdIn, typedRow_createdAt hl]
        rfl
      rw [List.filterMap_cons_some hl]
      by_cases hin : createdIn f t r = true
      · rw [List.filter_cons_of_pos hin, List.filterMap_cons_some hl, ih,
          List.filter_cons_of_pos (by rw [← hdate]; exact hin)]
      · rw [List.filter_cons_of_neg hin, ih, List.filter_cons_of_neg (by rw [← hdate]; exact hin)]

theorem loadLedger_spec {p : Payments} {f t : Int} {L : List LedgerRow}
    (h : loadLedger p f t = .ok L) : t < maxOrdinal ∧ ∃ rows, p = some rows ∧
      L.Perm ((rows.filterMap typedRow).filter fun l => between f t l.date) := by
  obtain ⟨u, hup, hload⟩ := of_bind_ok h
  obtain ⟨rows, hrows, -⟩ := of_bind_ok hload
  have hup := orRaise_ok hup
  have hrows := orRaise_ok hrows
  obtain ⟨rfl, -, hmax⟩ := addDays_eq hup
  refine ⟨by omega, rows, hrows, ?_⟩
  subst hrows
  rcases loadLedger_cases hup rows f with ⟨⟨L', hL', hperm⟩, -⟩ | ⟨e, he, -⟩
  · rw [h] at hL'
    cases hL'
    rwa [filterMap_typedRow] at hperm
  · rw [h] at he
    cases he

theorem comparison_spec {x : Run} {y : Comparison} (h : x.comparison = .ok y) :
    ∃ rows, Reads x y rows := by
  obtain ⟨_, htol, h⟩ := of_bind_ok h
  obtain ⟨all, hfile, h⟩ := of_bind_ok h
  obtain ⟨_, hord, h⟩ := of_bind_ok h
  obtain ⟨f, hf, h⟩ := of_bind_ok h
  obtain ⟨t, ht, h⟩ := of_bind_ok h
  obtain ⟨L, hL, h⟩ := of_bind_ok h
  cases h
  obtain ⟨rfl, hlower, -⟩ := addDays_eq (orRaise_ok hf)
  obtain ⟨rfl, -, -⟩ := addDays_eq (orRaise_ok ht)
  obtain ⟨hupper, rows, hrows, hperm⟩ := loadLedger_spec hL
  refine ⟨rows, rfl, not_lt.mp (abortIf_ok htol), not_lt.mp (abortIf_ok hord), ?_, ?_, hfile, hrows,
    by simpa [sub_eq_add_neg] using hlower, hupper, by simpa [sub_eq_add_neg] using hperm⟩
  · intro d hd
    simp [hd]
  · intro d hd
    simp [hd]

/-- The steps of a run that returns. -/
theorem reconcile_steps {x : Run} {r : ReconciliationResult} (h : reconcile x = .ok r) :
    ∃ y threshold seconds rows, x.comparison = .ok y ∧
      alertThresholdMinor x.settings = .ok threshold ∧
      duplicateSuspectWindowSeconds x.settings = .ok seconds ∧
      loadLedger x.payments (y.windowFrom - (seconds / 86400 + 1))
        (y.windowTo + (seconds / 86400 + 1)) = .ok rows ∧
      r = y.result rows seconds threshold := by
  obtain ⟨y, hy, h⟩ := of_bind_ok h
  obtain ⟨threshold, hthreshold, h⟩ := of_bind_ok h
  obtain ⟨seconds, hseconds, h⟩ := of_bind_ok h
  obtain ⟨f, hf, h⟩ := of_bind_ok h
  obtain ⟨t, ht, h⟩ := of_bind_ok h
  obtain ⟨rows, hload, h⟩ := of_bind_ok h
  cases h
  obtain ⟨rfl, -, -⟩ := addDays_eq (orRaise_ok hf)
  obtain ⟨rfl, -, -⟩ := addDays_eq (orRaise_ok ht)
  exact ⟨y, threshold, seconds, rows, hy, hthreshold, hseconds, hload, rfl⟩

theorem reconcile_spec {x : Run} {r : ReconciliationResult} (h : reconcile x = .ok r) :
    ∃ y, x.comparison = .ok y ∧ ∃ rows seconds threshold, r = y.result rows seconds threshold := by
  obtain ⟨y, threshold, seconds, rows, hy, -, -, -, hr⟩ := reconcile_steps h
  exact ⟨y, hy, rows, seconds, threshold, hr⟩

theorem addDays_in {d n : Int} (hd : 1 ≤ d) (hd' : d ≤ maxOrdinal) (h : 1 ≤ d + n)
    (h' : d + n ≤ maxOrdinal) : addDays d n = some (d + n) := by
  unfold maxOrdinal at hd' h'
  unfold addDays maxDays maxOrdinal
  rw [if_pos (by omega)]

theorem loadLedger_typed {rows : List PaymentRow} (htyped : ∀ r ∈ rows, (typedRow r).isSome)
    {f t : Int} (ht : 1 ≤ t) (ht' : t < maxOrdinal) : ∃ L, loadLedger (some rows) f t = .ok L := by
  have hupper : addDays t 1 = some (t + 1) := addDays_in ht ht'.le (by omega) ht'
  rcases loadLedger_cases hupper rows f with ⟨⟨L, hL, -⟩, -⟩ | ⟨e, -, r, hr, -, hnone, -⟩
  · exact ⟨L, hL⟩
  · have hsome := htyped r hr
    rw [hnone] at hsome
    cases hsome

/-- A run returns when the rows it reads do and its windows stay within the calendar. -/
theorem reconcile_returns {x : Run} {f t threshold seconds : Int} {all : List SettlementRow}
    {rows : List PaymentRow} (hfrom : x.fromDate = some f) (hto : x.toDate = some t) (hft : f ≤ t)
    (hnonneg : 0 ≤ x.toleranceDays) (hlower : 1 ≤ f - x.toleranceDays)
    (hupper : t + x.toleranceDays < maxOrdinal)
    (hfile : loadSettlement x.path (x.files x.path) = .ok all) (hpayments : x.payments = some rows)
    (htyped : ∀ r ∈ rows, (typedRow r).isSome)
    (hthreshold : alertThresholdMinor x.settings = .ok threshold)
    (hseconds : duplicateSuspectWindowSeconds x.settings = .ok seconds) (hpos : 0 ≤ seconds)
    (hmargin : 1 ≤ f - (seconds / 86400 + 1)) (hmargin' : t + (seconds / 86400 + 1) < maxOrdinal) :
    ∃ r, reconcile x = .ok r := by
  have hf := addDays_in (d := f) (n := -x.toleranceDays) (by omega) (by omega) (by omega) (by omega)
  have ht := addDays_in (d := t) (n := x.toleranceDays) (by omega) (by omega) (by omega) (by omega)
  have hf' := addDays_in (d := f) (n := -(seconds / 86400 + 1)) (by omega) (by omega) (by omega)
    (by omega)
  have ht' := addDays_in (d := t) (n := seconds / 86400 + 1) (by omega) (by omega) (by omega)
    (by omega)
  obtain ⟨L, hL⟩ := loadLedger_typed htyped (f := f + -x.toleranceDays) (by omega) hupper
  obtain ⟨D, hD⟩ := loadLedger_typed htyped (f := f + -(seconds / 86400 + 1)) (by omega) hmargin'
  have hcomparison : x.comparison = .ok ⟨f, t, x.toleranceDays, all, L⟩ := by
    unfold Run.comparison abortIf
    rw [if_neg (not_lt.mpr hnonneg), hfile, hfrom, hto, hpayments]
    simp only [bind, Except.bind, pure, Except.pure, Option.getD_some]
    rw [if_neg (not_lt.mpr hft), hf, ht]
    simp only [orRaise, hL]
  unfold reconcile
  rw [hcomparison, hthreshold, hseconds, hpayments]
  simp only [bind, Except.bind, pure, Except.pure]
  rw [hf', ht']
  simp only [orRaise, hD]
  exact ⟨_, rfl⟩

/-! ## Breaks -/

/-- No break but refunds: no `MISSING_IN_LEDGER`, `MISSING_IN_SETTLEMENT` or `AMOUNT_MISMATCH`. -/
def Clean (breaks : List Break) : Prop := ∀ b ∈ breaks, b.breakClass = .refundUnrepresented

instance (breaks : List Break) : Decidable (Clean breaks) :=
  inferInstanceAs (Decidable (∀ b ∈ breaks, b.breakClass = .refundUnrepresented))

namespace Comparison

variable (y : Comparison)

def inWindow (d : Int) : Bool := between y.windowFrom y.windowTo d

/-- The exact pass of the run. -/
def exact : Assigned LedgerRow SettlementRow :=
  exactPass y.matchArgs y.ledgerCandidates y.captureCandidates

/-- The candidate rows in the order the exact pass serves them. -/
def served : List LedgerRow :=
  sortBy (ledgerKey y.matchArgs.trueWindowLedger) y.ledgerCandidates

/-- The candidate captures in the order the exact pass goes through them. -/
def offered : List SettlementRow := sortBy captureKey y.captureCandidates

variable {y}

theorem ledgerKey_inj {w : List LedgerRow} {l l' : LedgerRow}
    (h : ledgerKey w l = ledgerKey w l') : l = l' := by
  simp only [ledgerKey, EmbeddingLike.apply_eq_iff_eq, Prod.mk.injEq] at h
  obtain ⟨hloan, hamount, -, hcreated, hid⟩ := h
  cases l
  cases l'
  simp_all

theorem captureKey_inj {c c' : SettlementRow} (htype : c.rowType = c'.rowType)
    (h : captureKey c = captureKey c') : c = c' := by
  simp only [captureKey, EmbeddingLike.apply_eq_iff_eq, Prod.mk.injEq] at h
  obtain ⟨hloan, hamount, hdate, href⟩ := h
  cases c
  cases c'
  simp_all

theorem rowType_candidate {c : SettlementRow} (hc : c ∈ y.captureCandidates) :
    c.rowType = .capture := by
  simpa using (List.mem_filter.mp hc).2

theorem mem_served {l : LedgerRow} : l ∈ y.served ↔ l ∈ y.ledgerCandidates := mem_sortBy _

theorem mem_offered {c : SettlementRow} : c ∈ y.offered ↔ c ∈ y.captureCandidates := mem_sortBy _

/-- A part that no exact pair leaves is paired as if it were alone. -/
theorem exact_part {p : LedgerRow → Bool} {q : SettlementRow → Bool}
    (hclosed : ∀ l ∈ y.ledgerCandidates, ∀ c ∈ y.captureCandidates,
      exactCandidate y.toleranceDays l c = true → p l = q c) :
    assign (exactCandidate y.toleranceDays) (rankCandidate y.matchArgs.trueWindowCaptures)
      (y.served.filter p) (y.offered.filter q) =
      ⟨y.exact.pairs.filter fun z => p z.1, y.exact.left.filter p, y.exact.right.filter q⟩ :=
  assign_filter fun l hl c hc => hclosed l (mem_served.mp hl) c (mem_offered.mp hc)

/-- Every row the exact pass leaves is paired or left by the mismatch pass. -/
theorem mem_exact_left {l : LedgerRow} : l ∈ y.exact.left ↔
    l ∈ y.matching.mismatches.map Prod.fst ∨ l ∈ y.matching.remainingLedger := by
  have hperm := assign_left (mismatchCandidate y.toleranceDays)
    (rankCandidate y.matchArgs.trueWindowCaptures)
    (sortBy (unmatchedLedgerKey y.matchArgs.trueWindowLedger) y.exact.left)
    (sortBy unmatchedCaptureKey y.exact.right)
  rw [← mem_sortBy (unmatchedLedgerKey y.matchArgs.trueWindowLedger), ← hperm.mem_iff,
    List.mem_append]
  rfl

theorem mem_exact_right {c : SettlementRow} : c ∈ y.exact.right ↔
    c ∈ y.matching.mismatches.map Prod.snd ∨ c ∈ y.matching.remainingCaptures := by
  have hperm := assign_right (mismatchCandidate y.toleranceDays)
    (rankCandidate y.matchArgs.trueWindowCaptures)
    (sortBy (unmatchedLedgerKey y.matchArgs.trueWindowLedger) y.exact.left)
    (sortBy unmatchedCaptureKey y.exact.right)
  rw [← mem_sortBy unmatchedCaptureKey, ← hperm.mem_iff, List.mem_append]
  rfl

theorem mem_mismatches {z : LedgerRow × SettlementRow} (hz : z ∈ y.matching.mismatches) :
    z.1 ∈ y.ledgerCandidates ∧ z.2 ∈ y.captureCandidates := by
  have hleft := mem_exact_left.mpr (.inl (List.mem_map_of_mem hz))
  have hright := mem_exact_right.mpr (.inl (List.mem_map_of_mem hz))
  exact ⟨mem_served.mp ((assign_left _ _ _ _).mem_iff.mp (List.mem_append_right _ hleft)),
    mem_offered.mp ((assign_right _ _ _ _).mem_iff.mp (List.mem_append_right _ hright))⟩

theorem mem_breaks {b : Break} : b ∈ y.breaks ↔
    (∃ l ∈ y.matching.remainingLedger, y.inWindow l.date = true ∧ b = .missingInSettlement l) ∨
    (∃ c ∈ y.matching.remainingCaptures, y.inWindow c.settlementDate = true ∧
      b = .missingInLedger c) ∨
    (∃ c ∈ refunds y.settlement, b = .refundUnrepresented c) ∨
    ∃ z ∈ y.matching.mismatches, (y.inWindow z.1.date || y.inWindow z.2.settlementDate) = true ∧
      b = .amountMismatch z := by
  unfold breaks inWindow
  simp only [mem_sortBy, List.mem_append, List.mem_map, List.mem_filter, and_assoc, or_assoc,
    eq_comm (a := b)]

/-- **A run is clean** exactly when its exact pass leaves no row of the true window. -/
theorem clean_iff : Clean y.breaks ↔ (∀ l ∈ y.exact.left, y.inWindow l.date = false) ∧
    ∀ c ∈ y.exact.right, y.inWindow c.settlementDate = false := by
  constructor
  · intro hclean
    constructor
    · intro l hl
      by_contra hin
      have hin : y.inWindow l.date = true := by simpa using hin
      rcases mem_exact_left.mp hl with hl | hl
      · obtain ⟨z, hz, rfl⟩ := List.mem_map.mp hl
        have hb := mem_breaks.mpr (.inr (.inr (.inr ⟨z, hz, by rw [hin]; rfl, rfl⟩)))
        cases hclean _ hb
      · cases hclean _ (mem_breaks.mpr (.inl ⟨l, hl, hin, rfl⟩))
    · intro c hc
      by_contra hin
      have hin : y.inWindow c.settlementDate = true := by simpa using hin
      rcases mem_exact_right.mp hc with hc | hc
      · obtain ⟨z, hz, rfl⟩ := List.mem_map.mp hc
        have hb := mem_breaks.mpr
          (.inr (.inr (.inr ⟨z, hz, by rw [hin]; exact Bool.or_true _, rfl⟩)))
        cases hclean _ hb
      · cases hclean _ (mem_breaks.mpr (.inr (.inl ⟨c, hc, hin, rfl⟩)))
  · rintro ⟨hleft, hright⟩ b hb
    rcases mem_breaks.mp hb with ⟨l, hl, hin, -⟩ | ⟨c, hc, hin, -⟩ | ⟨c, -, rfl⟩ | ⟨z, hz, hin, -⟩
    · rw [hleft l (mem_exact_left.mpr (.inr hl))] at hin
      cases hin
    · rw [hright c (mem_exact_right.mpr (.inr hc))] at hin
      cases hin
    · rfl
    · rw [hleft z.1 (mem_exact_left.mpr (.inl (List.mem_map_of_mem hz))),
        hright z.2 (mem_exact_right.mpr (.inl (List.mem_map_of_mem hz)))] at hin
      cases hin

end Comparison

end Meridian.Reconciliation
