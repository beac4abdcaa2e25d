import Meridian.Grouping.Total
import Meridian.Reconciliation.Agreement

/-!
# Where a loan's variance comes from

Both passes together put every candidate row into one pair or leave it, so the totals of a window
come apart into the breaks and the pairs: `variance_eq` is the variance of one loan. A pair counts
for what its rows bring into the window, `spill`; a pair inside the window brings the difference of
its amounts, and an exact one nothing. So without a pair across the window's edge the report's
figures bound each other (`variance_le`).
-/

namespace Meridian.Reconciliation

open Python Assignment Grouping

/-! ## Totals by loan -/

namespace Totals

@[simp] theorem get_nil (k : Int) : get [] k = 0 := rfl

theorem get_cons (x : Int × Int) (d : Totals) (k : Int) :
    get (x :: d) k = if x.1 = k then x.2 else get d k := by
  unfold get
  by_cases h : x.1 = k
  · rw [List.find?_cons_of_pos (by simpa using h), if_pos h]
    rfl
  · rw [List.find?_cons_of_neg (by simpa using h), if_neg h]

theorem get_add (k v : Int) (d : Totals) (k' : Int) :
    get (add k v d) k' = get d k' + if k = k' then v else 0 := by
  induction d with
  | nil =>
    rw [add, get_cons, get_nil, Int.zero_add]
  | cons x d ih =>
    unfold add
    by_cases hx : x.1 = k
    · rw [if_pos hx, get_cons, get_cons, hx]
      split_ifs
      · rfl
      · rw [Int.add_zero]
    · rw [if_neg hx, get_cons, get_cons, ih]
      by_cases hk : x.1 = k'
      · rw [if_pos hk, if_pos hk, if_neg fun h => hx (hk.trans h.symm), Int.add_zero]
      · rw [if_neg hk, if_neg hk]

theorem get_foldl (rows : List (Int × Int)) (d : Totals) (k : Int) :
    get (rows.foldl (fun d x => add x.1 x.2 d) d) k =
      get d k + total (fun x => x.1 = k) Prod.snd rows := by
  induction rows generalizing d with
  | nil => rw [List.foldl_nil, total_nil, Int.add_zero]
  | cons x rows ih =>
    rw [List.foldl_cons, ih, get_add, total_cons, Int.add_assoc]
    simp only [decide_eq_true_eq]

theorem get_ofRows (rows : List (Int × Int)) (k : Int) :
    get (ofRows rows) k = total (fun x => x.1 = k) Prod.snd rows := by
  rw [ofRows, get_foldl, get_nil, Int.zero_add]

theorem values_add (k v : Int) (d : Totals) : (values (add k v d)).sum = (values d).sum + v := by
  induction d with
  | nil => simp [add, values]
  | cons x d ih =>
    unfold add
    split_ifs
    · simp only [values, List.map_cons, List.sum_cons]
      omega
    · simp only [values, List.map_cons, List.sum_cons] at ih ⊢
      omega

theorem values_ofRows (rows : List (Int × Int)) :
    (values (ofRows rows)).sum = (rows.map Prod.snd).sum := by
  have hfold : ∀ d : Totals, (values (rows.foldl (fun d x => add x.1 x.2 d) d)).sum =
      (values d).sum + (rows.map Prod.snd).sum := by
    induction rows with
    | nil => simp
    | cons x rows ih =>
      intro d
      rw [List.foldl_cons, ih, values_add, List.map_cons, List.sum_cons, Int.add_assoc]
  exact (hfold []).trans (Int.zero_add _)

theorem mem_add (k v : Int) (d : Totals) (k' : Int) :
    k' ∈ (add k v d).map Prod.fst ↔ k' ∈ d.map Prod.fst ∨ k' = k := by
  induction d with
  | nil => simp [add]
  | cons x d ih =>
    unfold add
    split_ifs with hx
    · simp only [List.map_cons, List.mem_cons, hx]
      tauto
    · simp only [List.map_cons, List.mem_cons, ih]
      tauto

theorem mem_ofRows (rows : List (Int × Int)) (k : Int) :
    k ∈ (ofRows rows).map Prod.fst ↔ k ∈ rows.map Prod.fst := by
  have hfold : ∀ d : Totals, k ∈ (rows.foldl (fun d x => add x.1 x.2 d) d).map Prod.fst ↔
      k ∈ d.map Prod.fst ∨ k ∈ rows.map Prod.fst := by
    induction rows with
    | nil => simp
    | cons x rows ih =>
      intro d
      rw [List.foldl_cons, ih, mem_add, List.map_cons, List.mem_cons, or_assoc]
  exact (hfold []).trans (or_iff_right List.not_mem_nil)

/-- The totals of keys that cover the rows add up to all values. -/
theorem sum_get {rows : List (Int × Int)} {keys : List Int} (hkeys : keys.Nodup)
    (hcover : ∀ k ∈ (ofRows rows).map Prod.fst, k ∈ keys) :
    (keys.map fun k => get (ofRows rows) k).sum = (values (ofRows rows)).sum := by
  have hin : ∀ x ∈ rows, x.1 ∈ keys := fun x hx =>
    hcover x.1 ((mem_ofRows rows x.1).mpr (List.mem_map_of_mem hx))
  simp only [get_ofRows]
  rw [sum_groups Prod.fst hkeys, values_ofRows, ← total_true]
  refine total_congr fun x hx => ?_
  rw [decide_eq_true (hin x hx)]

end Totals

/-! ## Signs -/

theorem mem_parseRows {path : Text} {columns : List Text} {n : Nat} {ls : List CsvLine}
    {rows : List SettlementRow} (h : parseRows path columns n ls = .ok rows) :
    ∀ r ∈ rows, 0 ≤ r.amountMinor := by
  induction ls generalizing n rows with
  | nil =>
    cases h
    exact fun _ h => absurd h List.not_mem_nil
  | cons l ls ih =>
    rcases l with (_ | ⟨c, cells⟩) | _
    · exact ih h
    · obtain ⟨row, hrow, h⟩ := of_bind_ok h
      obtain ⟨rest, hrest, h⟩ := of_bind_ok h
      cases h
      intro r hr
      rcases List.mem_cons.mp hr with rfl | hr
      · unfold parseSettlementRow at hrow
        split at hrow
        · cases hrow
        · obtain ⟨date, -, hrow⟩ := of_bind_ok hrow
          obtain ⟨_, -, hrow⟩ := of_bind_ok hrow
          obtain ⟨type, -, hrow⟩ := of_bind_ok hrow
          obtain ⟨loan, -, hrow⟩ := of_bind_ok hrow
          obtain ⟨amount, hamount, hrow⟩ := of_bind_ok hrow
          cases hrow
          exact minorUnits_nonneg hamount
      · exact ih hrest r hr
    · cases h

theorem mem_loadSettlement {path : Text} {file : SettlementFile} {rows : List SettlementRow}
    (h : loadSettlement path file = .ok rows) : ∀ r ∈ rows, 0 ≤ r.amountMinor := by
  unfold loadSettlement at h
  split at h
  · cases h
  · cases h
  · obtain ⟨_, -, h⟩ := of_bind_ok h
    obtain ⟨rows', hrows, h⟩ := of_bind_ok h
    obtain ⟨_, -, h⟩ := of_bind_ok h
    cases h
    exact mem_parseRows hrows

theorem typedRow_nonneg {r : PaymentRow} {l : LedgerRow} (h : typedRow r = some l) :
    0 ≤ l.amountMinor := by
  unfold typedRow at h
  split at h
  · rename_i hamount
    cases h
    exact minorUnits_nonneg hamount
  · cases h

/-! ## One loan -/

/-- What a run's breaks of a class add up to on a loan. -/
def breakTotal (breaks : List Break) (c : BreakClass) (k : Int) : Int :=
  total (fun b => b.breakClass = c && b.loanId = k) Break.amountMinor breaks

namespace Comparison

variable (y : Comparison) (k : Int)

/-- The in-window ledger total of a loan. -/
def ledgerTotal : Int := total (fun l => l.loanId = k) LedgerRow.amountMinor y.ledger

/-- The in-window captures of a loan, less its in-window refunds. -/
def settlementTotal : Int :=
  total (fun c => c.loanId = k) SettlementRow.amountMinor (captures y.settlement) -
    total (fun c => c.loanId = k) SettlementRow.amountMinor (refunds y.settlement)

/-- The pairs of both passes: the exact matches and the mismatches. -/
def paired : List (LedgerRow × SettlementRow) := y.exact.pairs ++ y.matching.mismatches

/-- What a row of this date and amount brings into the window. -/
def counted (date amountMinor : Int) : Int := if y.inWindow date then amountMinor else 0

/-- What a pair brings into the window. -/
def spill (z : LedgerRow × SettlementRow) : Int :=
  y.counted z.1.date z.1.amountMinor - y.counted z.2.settlementDate z.2.amountMinor

def spillTotal : Int := total (fun z => z.1.loanId = k) y.spill y.paired

variable {y k}

/-- Every candidate ledger row is in one pair or left. -/
theorem ledger_split :
    (y.paired.map Prod.fst ++ y.matching.remainingLedger).Perm y.ledgerCandidates := by
  have hexact := assign_left (exactCandidate y.toleranceDays)
    (rankCandidate y.matchArgs.trueWindowCaptures) y.served y.offered
  have hmismatch := assign_left (mismatchCandidate y.toleranceDays)
    (rankCandidate y.matchArgs.trueWindowCaptures)
    (sortBy (unmatchedLedgerKey y.matchArgs.trueWindowLedger) y.exact.left)
    (sortBy unmatchedCaptureKey y.exact.right)
  have hleft := (hmismatch.trans (sortBy_perm _ _)).append_left (y.exact.pairs.map Prod.fst)
  have hall := hexact.trans (sortBy_perm _ _)
  rw [paired, List.map_append, List.append_assoc]
  exact hleft.trans hall

theorem captures_split :
    (y.paired.map Prod.snd ++ y.matching.remainingCaptures).Perm y.captureCandidates := by
  have hexact := assign_right (exactCandidate y.toleranceDays)
    (rankCandidate y.matchArgs.trueWindowCaptures) y.served y.offered
  have hmismatch := assign_right (mismatchCandidate y.toleranceDays)
    (rankCandidate y.matchArgs.trueWindowCaptures)
    (sortBy (unmatchedLedgerKey y.matchArgs.trueWindowLedger) y.exact.left)
    (sortBy unmatchedCaptureKey y.exact.right)
  have hright := (hmismatch.trans (sortBy_perm _ _)).append_left (y.exact.pairs.map Prod.snd)
  have hall := hexact.trans (sortBy_perm _ _)
  rw [paired, List.map_append, List.append_assoc]
  exact hright.trans hall

theorem paired_cases {z : LedgerRow × SettlementRow} (hz : z ∈ y.paired) :
    z.2.loanId = z.1.loanId ∧
      (z ∈ y.exact.pairs ∧ z.2.amountMinor = z.1.amountMinor ∨ z ∈ y.matching.mismatches) := by
  rcases List.mem_append.mp hz with hz | hz
  · have hok : exactCandidate y.toleranceDays z.1 z.2 = true := assign_pairs hz
    simp only [exactCandidate, Bool.and_eq_true, decide_eq_true_eq] at hok
    exact ⟨hok.1.1, .inl ⟨hz, hok.1.2⟩⟩
  · have hok : mismatchCandidate y.toleranceDays z.1 z.2 = true := assign_pairs hz
    simp only [mismatchCandidate, Bool.and_eq_true, decide_eq_true_eq] at hok
    exact ⟨hok.1, .inr hz⟩

/-- The window's captures are all candidates. -/
theorem captures_settlement (htol : 0 ≤ y.toleranceDays) :
    captures y.settlement = y.captureCandidates.filter fun c => y.inWindow c.settlementDate := by
  unfold captures settlement captureCandidates inWindow captures
  simp only [List.filter_filter]
  refine List.filter_congr fun c _ => ?_
  have hwide : between y.windowFrom y.windowTo c.settlementDate = true →
      between (y.windowFrom - y.toleranceDays) (y.windowTo + y.toleranceDays)
        c.settlementDate = true := by
    simp only [between, Bool.and_eq_true, decide_eq_true_eq]
    omega
  cases hin : between y.windowFrom y.windowTo c.settlementDate with
  | false => rw [Bool.false_and, Bool.and_false]
  | true => rw [hwide hin, Bool.true_and, Bool.and_true]

/-- A row in a pair counts when it is in the window. -/
theorem counted_and (p : Bool) (date amountMinor : Int) :
    (if (p && y.inWindow date) = true then amountMinor else 0) =
      if p = true then y.counted date amountMinor else 0 := by
  unfold counted
  cases p <;> rfl

theorem ledgerTotal_eq : y.ledgerTotal k =
    total (fun z => z.1.loanId = k) (fun z => y.counted z.1.date z.1.amountMinor) y.paired +
      total (fun l => l.loanId = k && y.inWindow l.date) LedgerRow.amountMinor
        y.matching.remainingLedger := by
  have hwindow : y.ledger = y.ledgerCandidates.filter fun l => y.inWindow l.date := rfl
  rw [ledgerTotal, hwindow, total_filter, ← total_perm ledger_split, total_append, total_map]
  congr 1
  exact total_congr fun z _ => counted_and _ _ _

theorem capturesTotal_eq (htol : 0 ≤ y.toleranceDays) :
    total (fun c => c.loanId = k) SettlementRow.amountMinor (captures y.settlement) =
      total (fun z => z.1.loanId = k) (fun z => y.counted z.2.settlementDate z.2.amountMinor)
          y.paired +
        total (fun c => c.loanId = k && y.inWindow c.settlementDate) SettlementRow.amountMinor
          y.matching.remainingCaptures := by
  rw [captures_settlement htol, total_filter, ← total_perm captures_split, total_append, total_map]
  congr 1
  refine total_congr fun z hz => ?_
  rw [(paired_cases hz).1]
  exact counted_and _ _ _

/-- The totals of each class of break, from the rows it reports. -/
theorem breakTotal_eq (c : BreakClass) : breakTotal y.breaks c k =
    match c with
    | .missingInSettlement => total (fun l => l.loanId = k && y.inWindow l.date)
        LedgerRow.amountMinor y.matching.remainingLedger
    | .missingInLedger => total (fun c => c.loanId = k && y.inWindow c.settlementDate)
        SettlementRow.amountMinor y.matching.remainingCaptures
    | .refundUnrepresented => total (fun c => c.loanId = k) SettlementRow.amountMinor
        (refunds y.settlement)
    | .amountMismatch => total
        (fun z => z.1.loanId = k && (y.inWindow z.1.date || y.inWindow z.2.settlementDate))
        (fun z => |z.1.amountMinor - z.2.amountMinor|) y.matching.mismatches := by
  have hnone : ∀ {α : Type} (f : α → Int) (l : List α), total (fun _ => false) f l = 0 := by
    intro α f l
    unfold total
    rw [List.filter_false]
    rfl
  unfold breakTotal breaks
  rw [total_perm (sortBy_perm _ _)]
  simp only [total_append, total_map, total_filter]
  cases c <;>
    simp [Break.missingInSettlement, Break.missingInLedger, Break.refundUnrepresented,
      Break.amountMismatch, hnone, inWindow] <;> rfl

/-- **The variance of a loan**: what is missing on either side, the refunds, and what its pairs
bring into the window. -/
theorem variance_eq (htol : 0 ≤ y.toleranceDays) : y.ledgerTotal k - y.settlementTotal k =
    breakTotal y.breaks .missingInSettlement k - breakTotal y.breaks .missingInLedger k +
      breakTotal y.breaks .refundUnrepresented k + y.spillTotal k := by
  have hledger := ledgerTotal_eq (y := y) (k := k)
  have hcaptures := capturesTotal_eq (y := y) (k := k) htol
  have hspill : y.spillTotal k =
      total (fun z => z.1.loanId = k) (fun z => y.counted z.1.date z.1.amountMinor) y.paired -
        total (fun z => z.1.loanId = k) (fun z => y.counted z.2.settlementDate z.2.amountMinor)
          y.paired := total_sub _ _ _ _
  have hmissing := breakTotal_eq (y := y) (k := k) .missingInSettlement
  have hextra := breakTotal_eq (y := y) (k := k) .missingInLedger
  have hrefunds := breakTotal_eq (y := y) (k := k) .refundUnrepresented
  simp only at hmissing hextra hrefunds
  unfold settlementTotal
  omega

/-! ## The report -/

theorem ledgerByLoan_get : y.ledgerByLoan.get k = y.ledgerTotal k := by
  rw [ledgerByLoan, Totals.get_ofRows, total_map]
  rfl

theorem settlementByLoan_get : y.settlementByLoan.get k = y.settlementTotal k := by
  rw [settlementByLoan, Totals.get_ofRows, total_map]
  unfold settlementTotal
  generalize y.settlement = rows
  induction rows with
  | nil => rfl
  | cons r rows ih =>
    rw [total_cons, ih]
    unfold captures refunds
    cases hr : r.rowType with
    | capture =>
      rw [List.filter_cons_of_pos (by simp [hr]), List.filter_cons_of_neg (by simp [hr]),
        total_cons]
      simp only [Int.add_sub_assoc]
    | refund =>
      rw [List.filter_cons_of_neg (by simp [hr]), List.filter_cons_of_pos (by simp [hr]),
        total_cons]
      simp only
      split_ifs <;> omega

/-- The loans of the report. -/
def loans (y : Comparison) : List Int :=
  (y.ledgerByLoan.map Prod.fst ++ y.settlementByLoan.map Prod.fst).eraseDups

theorem perLoanAbsoluteMinor_eq : y.perLoanAbsoluteMinor =
    (y.loans.map fun k => |y.ledgerTotal k - y.settlementTotal k|).sum := by
  simp only [perLoanAbsoluteMinor, loans, ledgerByLoan_get, settlementByLoan_get]

theorem netVarianceMinor_eq : y.ledgerByLoan.values.sum - y.settlementByLoan.values.sum =
    (y.loans.map fun k => y.ledgerTotal k - y.settlementTotal k).sum := by
  have hnodup : y.loans.Nodup := nodup_eraseDups _
  have hledger : (y.loans.map fun k => y.ledgerByLoan.get k).sum =
      y.ledgerByLoan.values.sum := Totals.sum_get hnodup
    fun k hk => List.mem_eraseDups.mpr (List.mem_append_left _ hk)
  have hsettlement : (y.loans.map fun k => y.settlementByLoan.get k).sum =
      y.settlementByLoan.values.sum := Totals.sum_get hnodup
    fun k hk => List.mem_eraseDups.mpr (List.mem_append_right _ hk)
  rw [← hledger, ← hsettlement]
  simp only [ledgerByLoan_get, settlementByLoan_get]
  exact (sum_sub _ _ _).symm

/-- Amounts without a sign. -/
structure Unsigned (y : Comparison) : Prop where
  ledger : ∀ l ∈ y.ledgerCandidates, 0 ≤ l.amountMinor
  settlement : ∀ c ∈ y.allSettlement, 0 ≤ c.amountMinor

theorem unsigned_of_reads {x : Run} {rows : List PaymentRow} (h : Reads x y rows) : y.Unsigned := by
  constructor
  · intro l hl
    have hl := (List.mem_filter.mp (h.ledger.mem_iff.mp hl)).1
    obtain ⟨r, -, hr⟩ := List.mem_filterMap.mp hl
    exact typedRow_nonneg hr
  · exact mem_loadSettlement h.file

/-- No paired row lies outside the window. -/
def Inside (y : Comparison) : Prop :=
  ∀ z ∈ y.paired, y.inWindow z.1.date = true ∧ y.inWindow z.2.settlementDate = true

instance (y : Comparison) : Decidable y.Inside :=
  inferInstanceAs (Decidable (∀ z ∈ y.paired, _ ∧ _))

theorem break_nonneg (hy : y.Unsigned) {b : Break} (hb : b ∈ y.breaks) : 0 ≤ b.amountMinor := by
  have hcapture : ∀ c ∈ y.captureCandidates, 0 ≤ c.amountMinor := fun c hc =>
    hy.settlement c (List.mem_filter.mp (List.mem_filter.mp hc).1).1
  rcases mem_breaks.mp hb with ⟨l, hl, -, rfl⟩ | ⟨c, hc, -, rfl⟩ | ⟨c, hc, rfl⟩ | ⟨z, -, -, rfl⟩
  · exact hy.ledger l (ledger_split.mem_iff.mp (List.mem_append_right _ hl))
  · exact hcapture c (captures_split.mem_iff.mp (List.mem_append_right _ hc))
  · exact hy.settlement c (List.mem_filter.mp (List.mem_filter.mp hc).1).1
  · exact abs_nonneg _

/-- The breaks of a loan are those of its four classes. -/
theorem total_classes (breaks : List Break) (k : Int) :
    total (fun b => b.loanId = k) Break.amountMinor breaks =
      breakTotal breaks .missingInSettlement k + breakTotal breaks .missingInLedger k +
        breakTotal breaks .refundUnrepresented k + breakTotal breaks .amountMismatch k := by
  unfold breakTotal
  induction breaks with
  | nil => rfl
  | cons b breaks ih =>
    simp only [total_cons, ih]
    cases b.breakClass <;> simp <;> omega

/-- Pairs inside the window bring the differences of the mismatches. -/
theorem abs_spillTotal_le (hin : y.Inside) :
    |y.spillTotal k| ≤ breakTotal y.breaks .amountMismatch k := by
  have hspill : y.spillTotal k =
      total (fun z => z.1.loanId = k) (fun z => z.1.amountMinor - z.2.amountMinor)
        y.matching.mismatches := by
    have hall : ∀ z ∈ y.paired, y.spill z = z.1.amountMinor - z.2.amountMinor := by
      intro z hz
      rw [spill, counted, counted, if_pos (hin z hz).1, if_pos (hin z hz).2]
    have hexact : total (fun z => z.1.loanId = k) y.spill y.exact.pairs = 0 := by
      refine (total_congr (q := fun _ => true) (g := fun _ => 0) fun z hz => ?_).trans ?_
      · have hok : exactCandidate y.toleranceDays z.1 z.2 = true := assign_pairs hz
        simp only [exactCandidate, Bool.and_eq_true, decide_eq_true_eq] at hok
        rw [hall z (List.mem_append_left _ hz), hok.1.2, Int.sub_self, ite_self, ite_self]
      · rw [total_true]
        simp
    rw [spillTotal, paired, total_append, hexact, Int.zero_add]
    exact total_congr fun z hz => by rw [hall z (List.mem_append_right _ hz)]
  have hbreaks : breakTotal y.breaks .amountMismatch k =
      total (fun z => z.1.loanId = k) (fun z => |z.1.amountMinor - z.2.amountMinor|)
        y.matching.mismatches := by
    refine (breakTotal_eq .amountMismatch).trans (total_congr fun z hz => ?_)
    rw [(hin z (List.mem_append_right _ hz)).1, Bool.true_or, Bool.and_true]
  rw [hspill, hbreaks]
  exact abs_total_le _ _ _

/-- The variance of a loan is no more than its breaks. -/
theorem abs_variance_le (htol : 0 ≤ y.toleranceDays) (hy : y.Unsigned) (hin : y.Inside) :
    |y.ledgerTotal k - y.settlementTotal k| ≤
      total (fun b => b.loanId = k) Break.amountMinor y.breaks := by
  have hnonneg : ∀ c, 0 ≤ breakTotal y.breaks c k := fun c =>
    total_nonneg fun b hb _ => break_nonneg hy hb
  have hmissing := hnonneg .missingInSettlement
  have hextra := hnonneg .missingInLedger
  have hrefunds := hnonneg .refundUnrepresented
  have hspill := abs_le.mp (abs_spillTotal_le (k := k) hin)
  rw [variance_eq htol, total_classes, abs_le]
  constructor <;> omega

/-- **The figures of a report bound each other** when no paired row lies outside the window. -/
theorem variance_le (htol : 0 ≤ y.toleranceDays) (hy : y.Unsigned) (hin : y.Inside) :
    |y.ledgerByLoan.values.sum - y.settlementByLoan.values.sum| ≤ y.perLoanAbsoluteMinor ∧
      y.perLoanAbsoluteMinor ≤ (y.breaks.map Break.amountMinor).sum := by
  rw [netVarianceMinor_eq, perLoanAbsoluteMinor_eq]
  refine ⟨abs_sum_le _ _, ?_⟩
  calc (y.loans.map fun k => |y.ledgerTotal k - y.settlementTotal k|).sum
      ≤ (y.loans.map fun k => total (fun b => b.loanId = k) Break.amountMinor y.breaks).sum :=
        List.sum_le_sum fun k _ => abs_variance_le htol hy hin
    _ = total (fun b => decide (b.loanId ∈ y.loans)) Break.amountMinor y.breaks :=
        sum_groups Break.loanId (nodup_eraseDups _) _ _
    _ ≤ total (fun _ => true) Break.amountMinor y.breaks :=
        total_le (fun _ _ _ => rfl) fun b hb _ => break_nonneg hy hb
    _ = (y.breaks.map Break.amountMinor).sum := total_true _ _

end Comparison

/-! ## A run -/

/-- **The variance of a run** comes apart, loan by loan, into its breaks and what its pairs bring
into the window. When no paired row lies outside, the three figures of the report bound each other,
and a run without breaks has no variance. -/
theorem variance_decomposition {x : Run} {r : ReconciliationResult} (h : reconcile x = .ok r) :
    ∃ y, x.comparison = .ok y ∧
      (∀ k, y.ledgerTotal k - y.settlementTotal k =
        breakTotal r.breaks .missingInSettlement k - breakTotal r.breaks .missingInLedger k +
          breakTotal r.breaks .refundUnrepresented k + y.spillTotal k) ∧
      (y.Inside →
        |r.netVarianceMinor| ≤ r.perLoanAbsoluteMinor ∧
        r.perLoanAbsoluteMinor ≤ r.grossBreakMinor ∧
        (r.breaks = [] → r.netVarianceMinor = 0 ∧ r.perLoanAbsoluteMinor = 0 ∧
          ∀ k, y.ledgerTotal k = y.settlementTotal k)) := by
  obtain ⟨y, hy, rows, seconds, threshold, rfl⟩ := reconcile_spec h
  obtain ⟨payments, hreads⟩ := comparison_spec hy
  have hunsigned := Comparison.unsigned_of_reads hreads
  refine ⟨y, hy, fun k => Comparison.variance_eq hreads.nonneg, fun hin => ?_⟩
  obtain ⟨hnet, hgross⟩ := Comparison.variance_le hreads.nonneg hunsigned hin
  refine ⟨hnet, hgross, fun hnone => ?_⟩
  have hnone : y.breaks = [] := hnone
  rw [hnone] at hgross
  have hzero : y.perLoanAbsoluteMinor = 0 := le_antisymm hgross ((abs_nonneg _).trans hnet)
  rw [hzero] at hnet
  refine ⟨abs_eq_zero.mp (le_antisymm hnet (abs_nonneg _)), hzero, fun k => ?_⟩
  have hk := Comparison.abs_variance_le (k := k) hreads.nonneg hunsigned hin
  rw [hnone] at hk
  exact Int.sub_eq_zero.mp (abs_eq_zero.mp (le_antisymm hk (abs_nonneg _)))

/-- Two payments on one day and a single capture. -/
def oneMissing : Run :=
  runOn [captureOn "2026-05-30".toList "a".toList] [paymentOn 1 739766, paymentOn 2 739766]
    739765 739767 1

theorem variance_one_missing : ∃ r y, reconcile oneMissing = .ok r ∧
    oneMissing.comparison = .ok y ∧ y.Inside ∧
    y.ledgerTotal 1 - y.settlementTotal 1 =
      breakTotal r.breaks .missingInSettlement 1 - breakTotal r.breaks .missingInLedger 1 +
        breakTotal r.breaks .refundUnrepresented 1 + y.spillTotal 1 ∧
    breakTotal r.breaks .missingInSettlement 1 = 100 ∧
    |r.netVarianceMinor| ≤ r.perLoanAbsoluteMinor ∧ r.perLoanAbsoluteMinor ≤ r.grossBreakMinor := by
  obtain ⟨r, hr, hmissing⟩ := exists_ok (x := reconcile oneMissing)
    (p := fun r => breakTotal r.breaks .missingInSettlement 1 = 100) (by decide +kernel)
  obtain ⟨y, hy, hvariance, hbounds⟩ := variance_decomposition hr
  obtain ⟨y', hy', hin⟩ := exists_ok (x := oneMissing.comparison) (p := Comparison.Inside)
    (by decide +kernel)
  rw [hy] at hy'
  cases hy'
  obtain ⟨hnet, hgross, -⟩ := hbounds hin
  exact ⟨r, y, hr, hy, hin, hvariance 1, hmissing, hnet, hgross⟩

end Meridian.Reconciliation
