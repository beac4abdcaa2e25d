import Meridian.Reconciliation.Duplicates
import Meridian.Reconciliation.Variance

/-!
# The order of the rows

A report does not depend on the order the file's data rows are in, nor on the order in which the two
queries return theirs. Every list a run sorts is sorted by a key that tells its rows apart, up to
rows that are equal, except the breaks and the suspects: two refunds of one loan, date and amount
may swap places, and the suspects of one loan, amount and date keep the order their group gave them.

* `loadSettlement_perm`, `loadLedgerIn_perm`: what loads in one order loads in every other.
* `matchRows_congr`: the matching sees the sets of rows only.
* `order_free`: the report of a run, whatever the orders.
-/

namespace Meridian.Reconciliation

open Python Assignment Grouping

/-! ## A run with its queries' orders -/

/-- An order in which a query returns its rows. -/
structure QueryOrder where
  rows : List PaymentRow → List PaymentRow
  perm : ∀ l, (rows l).Perm l

/-- `ORDER BY loan_id, amount, created_at, id` -/
def byQueryKey : QueryOrder := ⟨sortBy queryKey, sortBy_perm queryKey⟩

/-- `load_ledger` on rows that come in some order. -/
def loadLedgerIn (o : QueryOrder) (payments : Payments) (windowFrom windowTo : Int) :
    E (List LedgerRow) := do
  let upper ← orRaise .overflowError (addDays windowTo 1)
  let rows ← orRaise (.abort (.queryFailed windowFrom windowTo)) payments
  ledgerRows windowFrom windowTo (o.rows (rows.filter (selects windowFrom upper)))

def Run.comparisonIn (o : QueryOrder) (x : Run) : E Comparison := do
  abortIf (x.toleranceDays < 0) (.toleranceNegative x.toleranceDays)
  let allSettlement ← loadSettlement x.path (x.files x.path)
  let windowFrom := x.fromDate.getD (firstDate allSettlement)
  let windowTo := x.toDate.getD (lastDate allSettlement)
  abortIf (windowTo < windowFrom) (.windowReversed windowFrom windowTo)
  let candidateFrom ← orRaise .overflowError (addDays windowFrom (-x.toleranceDays))
  let candidateTo ← orRaise .overflowError (addDays windowTo x.toleranceDays)
  let ledgerCandidates ← loadLedgerIn o x.payments candidateFrom candidateTo
  pure ⟨windowFrom, windowTo, x.toleranceDays, allSettlement, ledgerCandidates⟩

/-- `reconcile` with the orders of its first and its second query. -/
def reconcileIn (o o' : QueryOrder) (x : Run) : E ReconciliationResult := do
  let y ← x.comparisonIn o
  let threshold ← alertThresholdMinor x.settings
  let seconds ← duplicateSuspectWindowSeconds x.settings
  let marginDays := seconds / 86400 + 1
  let marginFrom ← orRaise .overflowError (addDays y.windowFrom (-marginDays))
  let marginTo ← orRaise .overflowError (addDays y.windowTo marginDays)
  let duplicateRows ← loadLedgerIn o' x.payments marginFrom marginTo
  pure (y.result duplicateRows seconds threshold)

theorem reconcileIn_byQueryKey (x : Run) : reconcileIn byQueryKey byQueryKey x = reconcile x := rfl

theorem loadLedgerIn_perm {o : QueryOrder} (o' : QueryOrder) {p : Payments} {f t : Int}
    {L : List LedgerRow} (h : loadLedgerIn o p f t = .ok L) :
    ∃ L', loadLedgerIn o' p f t = .ok L' ∧ L'.Perm L := by
  obtain ⟨upper, hupper, h⟩ := of_bind_ok h
  obtain ⟨rows, hrows, h⟩ := of_bind_ok h
  have hload : loadLedgerIn o' p f t =
      ledgerRows f t (o'.rows (rows.filter (selects f upper))) := by
    unfold loadLedgerIn
    rw [hupper, hrows]
    rfl
  obtain ⟨rfl, -, -⟩ := addDays_eq (orRaise_ok hupper)
  rw [selects_eq] at h hload
  have hin : ∀ (o : QueryOrder), ∀ r ∈ o.rows (rows.filter (createdIn f t)),
      createdIn f t r = true :=
    fun o r hr => (List.mem_filter.mp ((o.perm _).mem_iff.mp hr)).2
  have hsame := (o'.perm (rows.filter (createdIn f t))).trans (o.perm _).symm
  rcases ledgerRows_eq (hin o) with ⟨hL, hall⟩ | ⟨e, he, -⟩
  · rw [h] at hL
    cases hL
    rcases ledgerRows_eq (hin o') with ⟨hL', -⟩ | ⟨e, -, r, hr, hnone, -⟩
    · exact ⟨_, hload.trans hL', hsame.filterMap _⟩
    · have hsome := hall r (hsame.mem_iff.mp hr)
      rw [hnone] at hsome
      cases hsome
  · rw [h] at he
    cases he

/-! ## The file -/

/-- Two files that differ in the order of their data rows. -/
def RowsPermuted (a b : SettlementFile) : Prop :=
  a = b ∨ ∃ header ls ls', a = .lines (header :: ls) ∧ b = .lines (header :: ls') ∧ ls'.Perm ls

/-- The rows of one data line, by themselves; none for a line that aborts. -/
def lineRows (columns : List Text) : CsvLine → Option (List SettlementRow)
  | .broken => none
  | .record cells =>
    if cells.isEmpty then some []
    else (parseSettlementRow (cell columns cells) (.line [] 0)).toOption.map ([·])

section File

variable {raw : Text → Option Text} {s s' : Source} {row : SettlementRow} {path : Text}
  {columns : List Text} {ls ls' : List CsvLine} {rows : List SettlementRow}

/-- Where a row stands only matters for the message. -/
theorem parseSettlementRow_source (h : parseSettlementRow raw s = .ok row) :
    parseSettlementRow raw s' = .ok row := by
  unfold parseSettlementRow at h ⊢
  cases hfind : requiredColumns.find? fun c => (stripped raw c).isEmpty with
  | some c =>
    rw [hfind] at h
    cases h
  | none =>
    rw [hfind] at h
    dsimp only at h ⊢
    obtain ⟨day, hday, h⟩ := of_bind_ok h
    obtain ⟨_, hloan, h⟩ := of_bind_ok h
    obtain ⟨kind, hkind, h⟩ := of_bind_ok h
    obtain ⟨loan, hint, h⟩ := of_bind_ok h
    obtain ⟨amount, hamount, h⟩ := of_bind_ok h
    cases h
    have hdigits := abortIf_ok hloan
    rw [orRaise_ok hday, orRaise_ok hkind, hint, @minorUnits_source _ s' _ _ hamount]
    unfold abortIf
    rw [if_neg hdigits]
    rfl

theorem parse_toOption (h : parseSettlementRow raw s = .ok row) :
    (parseSettlementRow raw s').toOption = some row := by
  rw [parseSettlementRow_source h]
  rfl

/-- The data rows parse one by one. -/
theorem parseRows_iff {n : Nat} : parseRows path columns n ls = .ok rows ↔
    (∀ l ∈ ls, (lineRows columns l).isSome) ∧
      rows = ls.flatMap fun l => (lineRows columns l).getD [] := by
  induction ls generalizing n rows with
  | nil =>
    rw [parseRows, Except.ok.injEq]
    exact ⟨fun h => ⟨by simp, h.symm⟩, fun h => h.2.symm⟩
  | cons l ls ih =>
    rw [List.forall_mem_cons, List.flatMap_cons]
    cases l with
    | broken =>
      rw [parseRows]
      exact iff_of_false nofun fun h => absurd h.1.1 (by simp [lineRows])
    | record cells =>
      cases cells with
      | nil =>
        rw [parseRows, ih]
        simp [lineRows]
      | cons c cells =>
        rw [parseRows]
        rotate_left
        · exact List.cons_ne_nil c cells
        cases hrow : parseSettlementRow (cell columns (c :: cells)) (.line path n) with
        | error e =>
          refine iff_of_false nofun fun h => ?_
          have hsome := h.1.1
          rw [lineRows, if_neg (by simp)] at hsome
          cases hother : parseSettlementRow (cell columns (c :: cells)) (.line [] 0) with
          | error e' =>
            rw [hother] at hsome
            cases hsome
          | ok row =>
            rw [parseSettlementRow_source hother] at hrow
            cases hrow
        | ok row =>
          have hline : lineRows columns (.record (c :: cells)) = some [row] := by
            rw [lineRows, if_neg (by simp), parse_toOption hrow]
            rfl
          rw [hline]
          constructor
          · intro h
            obtain ⟨row', hrow', h⟩ := of_bind_ok h
            cases hrow'
            obtain ⟨rest, hrest, h⟩ := of_bind_ok h
            cases h
            obtain ⟨hall, rfl⟩ := ih.mp hrest
            exact ⟨⟨rfl, hall⟩, rfl⟩
          · rintro ⟨⟨-, hall⟩, rfl⟩
            have hrest := (ih (n := n + 1)).mpr ⟨hall, rfl⟩
            simp only [bind, Except.bind, pure, Except.pure]
            rw [hrest]
            rfl

theorem parseRows_perm {n : Nat} (h : parseRows path columns n ls = .ok rows) (hp : ls'.Perm ls) :
    ∃ rows', parseRows path columns n ls' = .ok rows' ∧ rows'.Perm rows := by
  obtain ⟨hall, rfl⟩ := parseRows_iff.mp h
  exact ⟨_, parseRows_iff.mpr ⟨fun l hl => hall l (hp.mem_iff.mp hl), rfl⟩, hp.flatMap_right _⟩

/-- **A file loads in every order of its data rows.** -/
theorem loadSettlement_perm {a b : SettlementFile} (h : loadSettlement path a = .ok rows)
    (hab : RowsPermuted a b) : ∃ rows', loadSettlement path b = .ok rows' ∧ rows'.Perm rows := by
  rcases hab with rfl | ⟨header, ls, ls', rfl, rfl, hp⟩
  · exact ⟨rows, h, .refl rows⟩
  · cases header with
    | broken => cases h
    | record columns =>
      unfold loadSettlement at h ⊢
      obtain ⟨u, hmissing, h⟩ := of_bind_ok h
      obtain ⟨rows', hrows, h⟩ := of_bind_ok h
      obtain ⟨u', hsome, h⟩ := of_bind_ok h
      cases h
      obtain ⟨rows'', hrows', hperm⟩ := parseRows_perm hrows hp
      refine ⟨rows'', ?_, hperm⟩
      have hne : rows'' ≠ [] := by
        rintro rfl
        exact abortIf_ok hsome hperm.nil_eq.symm
      simp only [List.tail_cons, bind, Except.bind, pure, Except.pure] at hmissing ⊢
      rw [hmissing, hrows']
      unfold abortIf
      simp only [if_neg hne]

end File

/-! ## The comparison -/

/-- Two comparisons of the same rows. -/
structure SameRows (y y' : Comparison) : Prop where
  windowFrom : y'.windowFrom = y.windowFrom
  windowTo : y'.windowTo = y.windowTo
  tolerance : y'.toleranceDays = y.toleranceDays
  settlement : y'.allSettlement.Perm y.allSettlement
  ledger : y'.ledgerCandidates.Perm y.ledgerCandidates

theorem firstDate_perm {rows rows' : List SettlementRow} (h : rows'.Perm rows) :
    firstDate rows' = firstDate rows := by
  rw [firstDate, minBy_of_perm (h.map _) fun _ _ _ _ heq => heq, firstDate]

theorem lastDate_perm {rows rows' : List SettlementRow} (h : rows'.Perm rows) :
    lastDate rows' = lastDate rows := by
  rw [lastDate, minBy_of_perm (h.map _) fun _ _ _ _ heq => neg_injective heq, lastDate]

/-- The run with another file at its path. -/
def Run.reading (x : Run) (files : Text → SettlementFile) : Run := { x with files := files }

theorem comparisonIn_perm {x : Run} {files : Text → SettlementFile}
    (hfiles : RowsPermuted (x.files x.path) (files x.path)) {o : QueryOrder} (o' : QueryOrder)
    {y : Comparison} (h : x.comparisonIn o = .ok y) :
    ∃ y', (x.reading files).comparisonIn o' = .ok y' ∧ SameRows y y' := by
  obtain ⟨u, htol, h⟩ := of_bind_ok h
  obtain ⟨all, hfile, h⟩ := of_bind_ok h
  obtain ⟨u', hord, h⟩ := of_bind_ok h
  obtain ⟨f, hf, h⟩ := of_bind_ok h
  obtain ⟨t, ht, h⟩ := of_bind_ok h
  obtain ⟨L, hL, h⟩ := of_bind_ok h
  cases h
  obtain ⟨all', hfile', hall⟩ := loadSettlement_perm hfile hfiles
  obtain ⟨L', hL', hperm⟩ := loadLedgerIn_perm o' hL
  rw [← firstDate_perm hall, ← lastDate_perm hall] at hord
  rw [← firstDate_perm hall] at hf
  rw [← lastDate_perm hall] at ht
  refine ⟨⟨x.fromDate.getD (firstDate all'), x.toDate.getD (lastDate all'), x.toleranceDays, all',
    L'⟩, ?_, ⟨by simp only [firstDate_perm hall], by simp only [lastDate_perm hall], rfl, hall,
      hperm⟩⟩
  exact (bind_of_ok htol).trans <| (bind_of_ok hfile').trans <| (bind_of_ok hord).trans <|
    (bind_of_ok hf).trans <| (bind_of_ok ht).trans (bind_of_ok hL')

section Congruence

variable {a a' : MatchArgs} {ledger ledger' : List LedgerRow}
  {captures captures' : List SettlementRow}

/-- **The matching sees the sets of rows only.** -/
theorem matchRows_congr (htol : a'.toleranceDays = a.toleranceDays)
    (hledger : ∀ l, l ∈ a'.trueWindowLedger ↔ l ∈ a.trueWindowLedger)
    (hcaptures : ∀ c, c ∈ a'.trueWindowCaptures ↔ c ∈ a.trueWindowCaptures)
    (hl : ledger'.Perm ledger) (hc : captures'.Perm captures)
    (htype : ∀ c ∈ captures, c.rowType = .capture) :
    matchRows a' ledger' captures' = matchRows a ledger captures := by
  have hkey : ledgerKey a'.trueWindowLedger = ledgerKey a.trueWindowLedger := by
    funext l
    simp only [ledgerKey, hledger]
  have hkey' : unmatchedLedgerKey a'.trueWindowLedger = unmatchedLedgerKey a.trueWindowLedger := by
    funext l
    simp only [unmatchedLedgerKey, hledger]
  have hrank : rankCandidate a'.trueWindowCaptures = rankCandidate a.trueWindowCaptures := by
    funext l c
    simp only [rankCandidate, hcaptures]
  have hserved : sortBy (ledgerKey a.trueWindowLedger) ledger' =
      sortBy (ledgerKey a.trueWindowLedger) ledger :=
    sortBy_of_perm hl fun _ _ _ _ => Comparison.ledgerKey_inj
  have hoffered : sortBy captureKey captures' = sortBy captureKey captures := by
    refine sortBy_of_perm hc fun c hc' d hd => Comparison.captureKey_inj ?_
    rw [htype c (hc.mem_iff.mp hc'), htype d (hc.mem_iff.mp hd)]
  have hexact : exactPass a' ledger' captures' = exactPass a ledger captures := by
    unfold exactPass
    rw [hkey, hrank, htol, hserved, hoffered]
  unfold matchRows mismatchPass
  rw [hexact, hkey', hrank, htol]

end Congruence

/-! ## The report -/

/-- Two reports that differ at most in the order of their breaks. -/
structure SameReport (r r' : ReconciliationResult) : Prop where
  breaks : r'.breaks.Perm r.breaks
  rest : { r' with breaks := r.breaks } = r

namespace SameRows

variable {y y' : Comparison} (h : SameRows y y')

include h

theorem settlement_perm : y'.settlement.Perm y.settlement := by
  unfold Comparison.settlement
  rw [h.windowFrom, h.windowTo]
  exact h.settlement.filter _

theorem ledger_perm : y'.ledger.Perm y.ledger := by
  unfold Comparison.ledger
  rw [h.windowFrom, h.windowTo]
  exact h.ledger.filter _

theorem captures_perm : y'.captureCandidates.Perm y.captureCandidates := by
  unfold Comparison.captureCandidates
  rw [h.windowFrom, h.windowTo, h.tolerance]
  exact (h.settlement.filter _).filter _

theorem matching_eq : y'.matching = y.matching := by
  refine matchRows_congr h.tolerance (fun l => h.ledger_perm.mem_iff) (fun c => ?_) h.ledger
    h.captures_perm fun c hc => Comparison.rowType_candidate hc
  exact (h.settlement_perm.filter _).mem_iff

theorem breaks_perm : y'.breaks.Perm y.breaks := by
  unfold Comparison.breaks
  refine (sortBy_perm _ _).trans (.trans ?_ (sortBy_perm _ _).symm)
  rw [h.matching_eq, h.windowFrom, h.windowTo]
  exact ((((h.settlement_perm.filter _).map _).append_left _).append_right _)

theorem ledgerByLoan_get (k : Int) : y'.ledgerByLoan.get k = y.ledgerByLoan.get k := by
  unfold Comparison.ledgerByLoan
  rw [Totals.get_ofRows, Totals.get_ofRows]
  exact total_perm (h.ledger_perm.map _)

theorem settlementByLoan_get (k : Int) :
    y'.settlementByLoan.get k = y.settlementByLoan.get k := by
  unfold Comparison.settlementByLoan
  rw [Totals.get_ofRows, Totals.get_ofRows]
  exact total_perm (h.settlement_perm.map _)

theorem ledgerByLoan_sum : y'.ledgerByLoan.values.sum = y.ledgerByLoan.values.sum := by
  unfold Comparison.ledgerByLoan
  rw [Totals.values_ofRows, Totals.values_ofRows]
  exact ((h.ledger_perm.map _).map _).sum_eq

theorem settlementByLoan_sum : y'.settlementByLoan.values.sum = y.settlementByLoan.values.sum := by
  unfold Comparison.settlementByLoan
  rw [Totals.values_ofRows, Totals.values_ofRows]
  exact ((h.settlement_perm.map _).map _).sum_eq

theorem perLoanAbsoluteMinor_eq : y'.perLoanAbsoluteMinor = y.perLoanAbsoluteMinor := by
  have hkeys : ∀ k, k ∈ (y'.ledgerByLoan.map Prod.fst ++ y'.settlementByLoan.map Prod.fst) ↔
      k ∈ (y.ledgerByLoan.map Prod.fst ++ y.settlementByLoan.map Prod.fst) := by
    intro k
    unfold Comparison.ledgerByLoan Comparison.settlementByLoan
    rw [List.mem_append, List.mem_append, Totals.mem_ofRows, Totals.mem_ofRows, Totals.mem_ofRows,
      Totals.mem_ofRows, ((h.ledger_perm.map _).map _).mem_iff,
      ((h.settlement_perm.map _).map _).mem_iff]
  have hperm := (List.perm_ext_iff_of_nodup (nodup_eraseDups
    (y'.ledgerByLoan.map Prod.fst ++ y'.settlementByLoan.map Prod.fst)) (nodup_eraseDups
    (y.ledgerByLoan.map Prod.fst ++ y.settlementByLoan.map Prod.fst))).mpr fun k => by
      rw [List.mem_eraseDups, List.mem_eraseDups, hkeys]
  unfold Comparison.perLoanAbsoluteMinor
  simp only [h.ledgerByLoan_get, h.settlementByLoan_get]
  exact (hperm.map _).sum_eq

/-- The suspects of one group are found in one order. -/
theorem duplicates_eq {margin margin' : List LedgerRow} (hmargin : margin'.Perm margin)
    (seconds : Int) : y'.duplicates margin' seconds = y.duplicates margin seconds := by
  refine reported_congr fun g => ?_
  have hsort : sortBy paymentKey (grouped margin' g) = sortBy paymentKey (grouped margin g) := by
    refine sortBy_of_perm (hmargin.filter _) fun a ha b hb hkey => ?_
    -- rows of one group differ in what they are sorted by
    simp only [paymentKey, EmbeddingLike.apply_eq_iff_eq, Prod.mk.injEq] at hkey
    have hgroup := (mem_grouped.mp ha).2.trans (mem_grouped.mp hb).2.symm
    simp only [Prod.mk.injEq] at hgroup
    cases a
    cases b
    simp_all
  have hids : touchesWindow (y'.ledger.map LedgerRow.paymentId) =
      touchesWindow (y.ledger.map LedgerRow.paymentId) :=
    touchesWindow_congr fun i => (h.ledger_perm.map _).mem_iff
  rw [reportedPairs, touchingPairs_congr hids, touchingPairs_sorted hsort]
  rfl

theorem result_same {margin margin' : List LedgerRow} (hmargin : margin'.Perm margin)
    (seconds threshold : Int) :
    SameReport (y.result margin seconds threshold) (y'.result margin' seconds threshold) := by
  refine ⟨h.breaks_perm, ?_⟩
  unfold Comparison.result
  rw [ReconciliationResult.mk.injEq]
  refine ⟨h.windowFrom, h.windowTo, h.tolerance, by rw [h.matching_eq], rfl,
    h.duplicates_eq hmargin seconds, by rw [h.ledgerByLoan_sum, h.settlementByLoan_sum],
    h.perLoanAbsoluteMinor_eq, (h.breaks_perm.map _).sum_eq, h.ledger_perm.length_eq,
    h.ledgerByLoan_sum, h.settlement_perm.length_eq, ?_, ?_, rfl⟩
  · exact ((h.settlement_perm.filter _).map _).sum_eq
  · exact ((h.settlement_perm.filter _).map _).sum_eq

end SameRows

/-- **A report does not depend on the order of the rows**, of the file or of the two queries. -/
theorem order_free {x : Run} {files : Text → SettlementFile}
    (hfiles : RowsPermuted (x.files x.path) (files x.path)) {o₁ o₂ : QueryOrder}
    {r : ReconciliationResult} (h : reconcileIn o₁ o₂ x = .ok r) (o₁' o₂' : QueryOrder) :
    ∃ r', reconcileIn o₁' o₂' (x.reading files) = .ok r' ∧ SameReport r r' := by
  obtain ⟨y, hy, h⟩ := of_bind_ok h
  obtain ⟨threshold, hthreshold, h⟩ := of_bind_ok h
  obtain ⟨seconds, hseconds, h⟩ := of_bind_ok h
  obtain ⟨f, hf, h⟩ := of_bind_ok h
  obtain ⟨t, ht, h⟩ := of_bind_ok h
  obtain ⟨margin, hmargin, h⟩ := of_bind_ok h
  cases h
  obtain ⟨y', hy', hsame⟩ := comparisonIn_perm hfiles o₁' hy
  obtain ⟨margin', hmargin', hperm⟩ := loadLedgerIn_perm o₂' hmargin
  rw [← hsame.windowFrom] at hf
  rw [← hsame.windowTo] at ht
  refine ⟨y'.result margin' seconds threshold, ?_, hsame.result_same hperm seconds threshold⟩
  exact (bind_of_ok hy').trans <| (bind_of_ok hthreshold).trans <| (bind_of_ok hseconds).trans <|
    (bind_of_ok hf).trans <| (bind_of_ok ht).trans (bind_of_ok hmargin')

/-- The last row first. -/
def backwards : QueryOrder := ⟨List.reverse, List.reverse_perm⟩

def laggedBackwards : Text → SettlementFile := fun _ =>
  .lines [.record requiredColumns, captureOn "2026-05-30".toList "b".toList,
    captureOn "2026-05-29".toList "a".toList]

theorem lagged_order_free : ∃ r r', reconcile lagged = .ok r ∧
    reconcileIn backwards backwards (lagged.reading laggedBackwards) = .ok r' ∧
    SameReport r r' := by
  obtain ⟨r, hr, -⟩ := exists_ok (x := reconcile lagged) (p := fun _ => True) (by decide +kernel)
  have hfiles : RowsPermuted (lagged.files lagged.path) (laggedBackwards lagged.path) :=
    .inr ⟨_, _, _, rfl, rfl, List.Perm.swap _ _ []⟩
  have hr' : reconcileIn byQueryKey byQueryKey lagged = .ok r := hr
  obtain ⟨r', hr', hsame⟩ := order_free hfiles hr' backwards backwards
  exact ⟨r, r', hr, hr', hsame⟩

end Meridian.Reconciliation
