import Meridian.Reconciliation.Breaks

/-!
# When the books agree

The matcher prefers the nearest date, so a pairing of all candidates may exist and still be missed:
a row that takes the capture of its own date can leave another row without one (`missed_pairing`).
When some pairing gives every row the best of the captures that are still open when it is served,
the run finds a full pairing and reports no break (`no_false_break`).
-/

namespace Meridian.Reconciliation

open Python Assignment

/-- A one-to-one pairing that covers the rows: each pair of one loan and amount, within the
tolerance. -/
structure Pairing (toleranceDays : Int) (ledger : List LedgerRow) (captures : List SettlementRow)
    (pairs : List (LedgerRow × SettlementRow)) : Prop where
  ledger : (pairs.map Prod.fst).Perm ledger
  captures : (pairs.map Prod.snd).Perm captures
  same : ∀ z ∈ pairs, exactCandidate toleranceDays z.1 z.2 = true

/-- The pairs in the order their rows are served, and every row's partner ranked before each
candidate of the row that is still open then and settled on another date: the partner of a row
served later. -/
structure Nearest (a : MatchArgs) (pairs : List (LedgerRow × SettlementRow)) : Prop where
  served : pairs.Pairwise fun z z' =>
    ledgerKey a.trueWindowLedger z.1 ≤ ledgerKey a.trueWindowLedger z'.1
  best : pairs.Pairwise fun z z' => exactCandidate a.toleranceDays z.1 z'.2 = true →
    z'.2.settlementDate ≠ z.2.settlementDate →
    rankCandidate a.trueWindowCaptures z.1 z.2 < rankCandidate a.trueWindowCaptures z.1 z'.2

instance (a : MatchArgs) (pairs : List (LedgerRow × SettlementRow)) :
    Decidable (Nearest a pairs) :=
  decidable_of_iff (_ ∧ _) ⟨fun h => ⟨h.1, h.2⟩, fun h => ⟨h.served, h.best⟩⟩

section Ranking

variable {a : MatchArgs} {l : LedgerRow} {c c' d d' : SettlementRow}

theorem exactCandidate_iff {t : Int} : exactCandidate t l c = true ↔
    c.loanId = l.loanId ∧ c.amountMinor = l.amountMinor ∧ gapDays l c ≤ t := by
  simp [exactCandidate, within, and_assoc]

/-- The gap is one of dates. -/
theorem gapDays_congr (h : c.settlementDate = c'.settlementDate) : gapDays l c = gapDays l c' := by
  rw [gapDays, h, gapDays]

/-- How captures of two dates rank is decided by the dates and by who is in the true window. -/
theorem rank_lt_congr {w : List SettlementRow} (hdate : c.settlementDate = c'.settlementDate)
    (hflag : c ∈ w ↔ c' ∈ w) (hdate' : d.settlementDate = d'.settlementDate)
    (hflag' : d ∈ w ↔ d' ∈ w) (hne : d.settlementDate ≠ c.settlementDate)
    (h : rankCandidate w l c < rankCandidate w l d) :
    rankCandidate w l c' < rankCandidate w l d' := by
  unfold rankCandidate at h ⊢
  have hout : decide (c' ∉ w) = decide (c ∉ w) := decide_eq_decide.mpr (not_congr hflag.symm)
  have hout' : decide (d' ∉ w) = decide (d ∉ w) := decide_eq_decide.mpr (not_congr hflag'.symm)
  rw [hout, hout', ← gapDays_congr hdate, ← gapDays_congr hdate', ← hdate, ← hdate']
  simp only [Prod.Lex.toLex_lt_toLex] at h ⊢
  rcases h with h | ⟨hgap, h | ⟨hwin, h | ⟨hsame, -⟩⟩⟩
  · exact .inl h
  · exact .inr ⟨hgap, .inl h⟩
  · exact .inr ⟨hgap, .inr ⟨hwin, .inl h⟩⟩
  · exact absurd hsame.symm hne

end Ranking

/-- What the matcher tells captures apart by, their references aside. -/
def slot (c : SettlementRow) : Int × Int × Int := (c.loanId, c.amountMinor, c.settlementDate)

theorem slot_eq_iff {c d : SettlementRow} : slot c = slot d ↔ c.loanId = d.loanId ∧ c.amountMinor = d.amountMinor ∧
    c.settlementDate = d.settlementDate := by
  simp [slot]

/-- The rows of a pairing in the order of service are the rows as they are served. -/
theorem Nearest.rows {a : MatchArgs} {ls : List LedgerRow} {cs : List SettlementRow}
    {pairs : List (LedgerRow × SettlementRow)} (hn : Nearest a pairs)
    (hp : Pairing a.toleranceDays ls cs pairs)
    (hls : ls.Pairwise fun l l' =>
      ledgerKey a.trueWindowLedger l ≤ ledgerKey a.trueWindowLedger l') :
    pairs.map Prod.fst = ls := by
  have hserved : (pairs.map Prod.fst).Pairwise fun l l' =>
      ledgerKey a.trueWindowLedger l ≤ ledgerKey a.trueWindowLedger l' :=
    List.pairwise_map.mpr hn.served
  exact eq_of_sorted hp.ledger hserved hls fun _ _ _ _ => Comparison.ledgerKey_inj

/-- **A nearest pairing is found**, or another one that leaves nothing over. -/
theorem assign_nearest {a : MatchArgs} {ls : List LedgerRow} {cs : List SettlementRow}
    {pairs : List (LedgerRow × SettlementRow)} (hp : Pairing a.toleranceDays ls cs pairs)
    (hn : Nearest a pairs)
    (hls : ls.Pairwise fun l l' =>
      ledgerKey a.trueWindowLedger l ≤ ledgerKey a.trueWindowLedger l')
    (hflag : ∀ c ∈ cs, ∀ c' ∈ cs, c.settlementDate = c'.settlementDate →
      (c ∈ a.trueWindowCaptures ↔ c' ∈ a.trueWindowCaptures)) :
    (assign (exactCandidate a.toleranceDays) (rankCandidate a.trueWindowCaptures) ls cs).left = [] ∧
    (assign (exactCandidate a.toleranceDays) (rankCandidate a.trueWindowCaptures) ls cs).right =
      [] := by
  have hmem : ∀ z ∈ pairs, z.2 ∈ cs := fun z hz =>
    hp.captures.mem_iff.mp (List.mem_map_of_mem hz)
  have hrows : (pairs.map fun z => (z.1, slot z.2)).map Prod.fst = ls := by
    rw [List.map_map, ← hn.rows hp hls]
    rfl
  refine assign_complete slot (pairs.map fun z => (z.1, slot z.2)) hrows ?_ ?_ ?_
  · have hmap : (pairs.map fun z => (z.1, slot z.2)).map Prod.snd =
        (pairs.map Prod.snd).map slot := by
      simp [List.map_map, Function.comp_def]
    rw [hmap]
    exact hp.captures.map slot
  · intro x hx c _ hs
    obtain ⟨z, hz, rfl⟩ := List.mem_map.mp hx
    obtain ⟨hloan, hamount, hdate⟩ := slot_eq_iff.mp hs
    have hsame := exactCandidate_iff.mp (hp.same z hz)
    exact exactCandidate_iff.mpr ⟨hloan.trans hsame.1, hamount.trans hsame.2.1,
      (gapDays_congr hdate).trans_le hsame.2.2⟩
  · rw [List.pairwise_map]
    refine hn.best.imp_of_mem fun {z z'} hz hz' hbest hne c hc hs d hd hs' hok => ?_
    obtain ⟨-, -, hdate⟩ := slot_eq_iff.mp hs
    obtain ⟨hloan', hamount', hdate'⟩ := slot_eq_iff.mp hs'
    obtain ⟨hloan, hamount, hgap⟩ := exactCandidate_iff.mp hok
    have hok' : exactCandidate a.toleranceDays z.1 z'.2 = true :=
      exactCandidate_iff.mpr ⟨hloan'.symm.trans hloan, hamount'.symm.trans hamount,
        (gapDays_congr hdate'.symm).trans_le hgap⟩
    -- a candidate of the row in another slot is of another date
    have hother : z'.2.settlementDate ≠ z.2.settlementDate := by
      intro heq
      have hsame := exactCandidate_iff.mp (hp.same z hz)
      exact hne (slot_eq_iff.mpr ⟨(exactCandidate_iff.mp hok').1.trans hsame.1.symm,
        (exactCandidate_iff.mp hok').2.1.trans hsame.2.1.symm, heq⟩)
    exact rank_lt_congr hdate.symm (hflag z.2 (hmem z hz) c hc hdate.symm) hdate'.symm
      (hflag z'.2 (hmem z' hz') d hd hdate'.symm) hother (hbest hok' hother)

namespace Comparison

variable {y : Comparison}

/-- A candidate row is in the true window when its date is. -/
theorem mem_trueWindowLedger {l : LedgerRow} (hl : l ∈ y.ledgerCandidates) :
    l ∈ y.matchArgs.trueWindowLedger ↔ y.inWindow l.date = true := by
  constructor
  · exact fun h => (List.mem_filter.mp h).2
  · exact fun h => List.mem_filter.mpr ⟨hl, h⟩

/-- A candidate capture is in the true window when its date is. -/
theorem mem_trueWindowCaptures {c : SettlementRow} (hc : c ∈ y.captureCandidates) :
    c ∈ y.matchArgs.trueWindowCaptures ↔ y.inWindow c.settlementDate = true := by
  obtain ⟨hmem, htype⟩ := List.mem_filter.mp hc
  constructor
  · exact fun h => (List.mem_filter.mp (List.mem_filter.mp h).1).2
  · exact fun h => List.mem_filter.mpr
      ⟨List.mem_filter.mpr ⟨(List.mem_filter.mp hmem).1, h⟩, htype⟩

theorem trueWindow_congr {c c' : SettlementRow} (hc : c ∈ y.captureCandidates)
    (hc' : c' ∈ y.captureCandidates) (h : c.settlementDate = c'.settlementDate) :
    c ∈ y.matchArgs.trueWindowCaptures ↔ c' ∈ y.matchArgs.trueWindowCaptures := by
  rw [mem_trueWindowCaptures hc, mem_trueWindowCaptures hc', h]

end Comparison

/-- **No false break** when the candidates admit a pairing that gives every row the best capture
still open. -/
theorem no_false_break {x : Run} {r : ReconciliationResult} (h : reconcile x = .ok r)
    {y : Comparison} (hy : x.comparison = .ok y) {pairs : List (LedgerRow × SettlementRow)}
    (hp : Pairing y.toleranceDays y.ledgerCandidates y.captureCandidates pairs)
    (hn : Nearest y.matchArgs pairs) : Clean r.breaks := by
  obtain ⟨y', hy', rows, seconds, threshold, rfl⟩ := reconcile_spec h
  rw [hy] at hy'
  cases hy'
  have hcs : ∀ c, c ∈ sortBy captureKey y.captureCandidates → c ∈ y.captureCandidates :=
    fun c hc => (mem_sortBy _).mp hc
  obtain ⟨hleft, hright⟩ := assign_nearest (a := y.matchArgs)
    ⟨hp.ledger.trans (sortBy_perm (ledgerKey y.matchArgs.trueWindowLedger) _).symm,
      hp.captures.trans (sortBy_perm captureKey _).symm, hp.same⟩ hn (sortBy_pairwise _ _)
    fun c hc c' hc' => Comparison.trueWindow_congr (hcs c hc) (hcs c' hc')
  refine Comparison.clean_iff.mpr ⟨fun l hl => ?_, fun c hc => ?_⟩
  · have hl : l ∈ ([] : List LedgerRow) := hleft ▸ hl
    cases hl
  · have hc : c ∈ ([] : List SettlementRow) := hright ▸ hc
    cases hc

/-! ## Samples -/

/-- 1.0 -/
def one : F64 := ⟨false, 2 ^ 52, -52, by decide⟩

/-- A payment of 1.0 on loan 1, at noon of a day. -/
def paymentOn (id day : Int) : PaymentRow :=
  ⟨id, some 1, .finite one, some (day * microsPerDay + 43200000000)⟩

/-- A capture of 1.00 on loan 1, settled on a day. -/
def captureOn (day ref : Text) : CsvLine :=
  .record [day, ref, "1".toList, "1.00".toList, "capture".toList]

/-- Duplicates within 90 s, an alert above 5.00. -/
def sampleSettings : Settings := ⟨"settlement.csv".toList, "90".toList, "500".toList⟩

/-- A run over the given dates with a tolerance, on the given rows. -/
def runOn (ls : List CsvLine) (payments : List PaymentRow) (fromDate toDate toleranceDays : Int) :
    Run where
  settings := sampleSettings
  files _ := .lines (.record requiredColumns :: ls)
  payments := some payments
  fromDate := some fromDate
  toDate := some toDate
  toleranceDays := toleranceDays
  settlementPath := none

/-- The rows of these samples as they load. -/
def ledgerOn (id day : Int) : LedgerRow := ⟨id, 1, 100, day * microsPerDay + 43200000000⟩
def settledOn (day : Int) (ref : Text) : SettlementRow := ⟨day, ref, 1, 100, .capture⟩

/-- Payments on the 30th and the 31st, captures settled on the 29th and the 30th. -/
def lagged : Run :=
  runOn [captureOn "2026-05-29".toList "a".toList, captureOn "2026-05-30".toList "b".toList]
    [paymentOn 1 739766, paymentOn 2 739767] 739765 739767 1

/-- Each payment with the capture settled the day before. -/
def laggedPairs : List (LedgerRow × SettlementRow) :=
  [(ledgerOn 1 739766, settledOn 739765 "a".toList),
    (ledgerOn 2 739767, settledOn 739766 "b".toList)]

/-- **A pairing is missed**: each payment has a capture settled the day before, but the first one
takes the capture of its own day. -/
theorem missed_pairing : ∃ y, lagged.comparison = .ok y ∧
    Pairing y.toleranceDays y.ledgerCandidates y.captureCandidates laggedPairs ∧
    ∃ r, reconcile lagged = .ok r ∧ ¬ Clean r.breaks := by
  obtain ⟨y, hy, htol, hledger, hcaptures⟩ := exists_ok (x := lagged.comparison)
    (p := fun y => y.toleranceDays = 1 ∧ (laggedPairs.map Prod.fst).Perm y.ledgerCandidates ∧
      (laggedPairs.map Prod.snd).Perm y.captureCandidates) (by decide +kernel)
  refine ⟨y, hy, ⟨hledger, hcaptures, ?_⟩, exists_ok (by decide +kernel)⟩
  rw [htol]
  decide +kernel

/-- Payments on the 30th and the 31st, captures settled the day after each: the payment of the 31st
is nearer to the first capture, which is claimed when it is served. -/
def nextDay : Run :=
  runOn [captureOn "2026-05-31".toList "a".toList, captureOn "2026-06-01".toList "b".toList]
    [paymentOn 1 739766, paymentOn 2 739767] 739765 739768 1

def nextDayPairs : List (LedgerRow × SettlementRow) :=
  [(ledgerOn 1 739766, settledOn 739767 "a".toList),
    (ledgerOn 2 739767, settledOn 739768 "b".toList)]

theorem next_day_clean : ∃ r, reconcile nextDay = .ok r ∧ Clean r.breaks := by
  obtain ⟨r, hr, -⟩ := exists_ok (x := reconcile nextDay) (p := fun _ => True) (by decide +kernel)
  obtain ⟨y, hy, htol, hledger, hcaptures, hn⟩ := exists_ok (x := nextDay.comparison)
    (p := fun y => y.toleranceDays = 1 ∧ (nextDayPairs.map Prod.fst).Perm y.ledgerCandidates ∧
      (nextDayPairs.map Prod.snd).Perm y.captureCandidates ∧
      Nearest y.matchArgs nextDayPairs) (by decide +kernel)
  refine ⟨r, hr, no_false_break hr hy ⟨hledger, hcaptures, ?_⟩ hn⟩
  rw [htol]
  decide +kernel

end Meridian.Reconciliation
