import Meridian.Reconciliation.Agreement

/-!
# What `_match` returns

* `match_assignment`: every ledger row and every capture ends up in exactly one place, the
  mismatched pairs are what they are called, and nothing pairable is left over on both sides.
* `exact_date_claim`: which rows may keep a capture from a row of its own date. The ranking is one
  row's: a row never prefers another date to its own. Between two rows the order they are served in
  decides, so an earlier row of the true window that finds its own date taken may claim the capture
  of a later row (`exact_date_lost`).
-/

namespace Meridian.Reconciliation

open Python Assignment

/-! ## One place for every row -/

/-- Where the rows and captures given to `_match` end up, `exact` being the exactly matched pairs. -/
structure OneToOne (a : MatchArgs) (ledger : List LedgerRow) (captures : List SettlementRow)
    (m : Matching) (exact : List (LedgerRow × SettlementRow)) : Prop where
  matched : m.matchedCount = exact.length
  ledgerPlaces :
    (exact.map Prod.fst ++ (m.mismatches.map Prod.fst ++ m.remainingLedger)).Perm ledger
  capturePlaces :
    (exact.map Prod.snd ++ (m.mismatches.map Prod.snd ++ m.remainingCaptures)).Perm captures
  ledgerCount : m.matchedCount + m.mismatches.length + m.remainingLedger.length = ledger.length
  captureCount : m.matchedCount + m.mismatches.length + m.remainingCaptures.length = captures.length
  same : ∀ x ∈ exact, x.1.loanId = x.2.loanId ∧ x.1.amountMinor = x.2.amountMinor ∧
    gapDays x.1 x.2 ≤ a.toleranceDays
  mismatched : ∀ x ∈ m.mismatches, x.1.loanId = x.2.loanId ∧ x.1.amountMinor ≠ x.2.amountMinor ∧
    gapDays x.1 x.2 ≤ a.toleranceDays
  maximal : ∀ l ∈ m.remainingLedger, ∀ c ∈ m.remainingCaptures, l.loanId = c.loanId →
    a.toleranceDays < gapDays l c

section Placement

variable {a : MatchArgs} {ledger : List LedgerRow} {captures : List SettlementRow}
  {l : LedgerRow} {c : SettlementRow}

theorem mismatchCandidate_iff {t : Int} : mismatchCandidate t l c = true ↔
    c.loanId = l.loanId ∧ gapDays l c ≤ t := by
  simp [mismatchCandidate, within]

theorem exactPass_ledger (a : MatchArgs) (ledger : List LedgerRow)
    (captures : List SettlementRow) : ((exactPass a ledger captures).pairs.map Prod.fst ++
      (exactPass a ledger captures).left).Perm ledger :=
  (assign_left _ _ _ _).trans (sortBy_perm _ _)

theorem exactPass_captures (a : MatchArgs) (ledger : List LedgerRow)
    (captures : List SettlementRow) : ((exactPass a ledger captures).pairs.map Prod.snd ++
      (exactPass a ledger captures).right).Perm captures :=
  (assign_right _ _ _ _).trans (sortBy_perm _ _)

/-- What the exact pass leaves on both sides differs in loan, amount or date. -/
theorem exactPass_maximal (hl : l ∈ (exactPass a ledger captures).left)
    (hc : c ∈ (exactPass a ledger captures).right) :
    exactCandidate a.toleranceDays l c = false := assign_maximal hl hc

variable {exact : Assigned LedgerRow SettlementRow}

theorem mismatchPass_ledger (a : MatchArgs) (exact : Assigned LedgerRow SettlementRow) :
    ((mismatchPass a exact).pairs.map Prod.fst ++ (mismatchPass a exact).left).Perm exact.left :=
  (assign_left _ _ _ _).trans (sortBy_perm _ _)

theorem mismatchPass_captures (a : MatchArgs) (exact : Assigned LedgerRow SettlementRow) :
    ((mismatchPass a exact).pairs.map Prod.snd ++ (mismatchPass a exact).right).Perm exact.right :=
  (assign_right _ _ _ _).trans (sortBy_perm _ _)

/-- A mismatched pair is one the exact pass left on both sides. -/
theorem mem_mismatchPass {x : LedgerRow × SettlementRow} (hx : x ∈ (mismatchPass a exact).pairs) :
    x.1 ∈ exact.left ∧ x.2 ∈ exact.right ∧ x.2.loanId = x.1.loanId ∧
      gapDays x.1 x.2 ≤ a.toleranceDays := by
  obtain ⟨hleft, hright⟩ := mem_of_mem_pairs hx
  exact ⟨(mem_sortBy _).mp hleft, (mem_sortBy _).mp hright,
    mismatchCandidate_iff.mp (assign_pairs hx)⟩

end Placement

/-- **`_match` is a maximal one-to-one assignment.** -/
theorem match_assignment (a : MatchArgs) (ledger : List LedgerRow) (captures : List SettlementRow) :
    OneToOne a ledger captures (matchRows a ledger captures)
      (exactPass a ledger captures).pairs := by
  have hledger := ((mismatchPass_ledger a (exactPass a ledger captures)).append_left
    ((exactPass a ledger captures).pairs.map Prod.fst)).trans (exactPass_ledger a ledger captures)
  have hcaptures := ((mismatchPass_captures a (exactPass a ledger captures)).append_left
    ((exactPass a ledger captures).pairs.map Prod.snd)).trans (exactPass_captures a ledger captures)
  refine ⟨rfl, hledger, hcaptures, ?_, ?_, ?_, ?_, ?_⟩
  · simpa [← Nat.add_assoc, matchRows] using hledger.length_eq
  · simpa [← Nat.add_assoc, matchRows] using hcaptures.length_eq
  · intro x hx
    obtain ⟨hloan, hamount, hgap⟩ := exactCandidate_iff.mp (assign_pairs hx)
    exact ⟨hloan.symm, hamount.symm, hgap⟩
  · intro x hx
    obtain ⟨hleft, hright, hloan, hgap⟩ := mem_mismatchPass hx
    refine ⟨hloan.symm, fun hamount => ?_, hgap⟩
    -- of one amount, the exact pass would not have left both
    have hfree := exactPass_maximal hleft hright
    rw [exactCandidate_iff.mpr ⟨hloan, hamount.symm, hgap⟩] at hfree
    cases hfree
  · intro l hl c hc hloan
    have hfree : mismatchCandidate a.toleranceDays l c = false := assign_maximal hl hc
    by_contra hgap
    rw [mismatchCandidate_iff.mpr ⟨hloan.symm, not_lt.mp hgap⟩] at hfree
    cases hfree

/-! ## A capture of one's own date -/

/-- The pairs of `_match`, exact and mismatched. -/
def paired (a : MatchArgs) (ledger : List LedgerRow) (captures : List SettlementRow) :
    List (LedgerRow × SettlementRow) :=
  (exactPass a ledger captures).pairs ++ (matchRows a ledger captures).mismatches

/-- A true-window row that goes without an exact-amount partner though the capture is of its loan,
its amount and its date. -/
def Passed (a : MatchArgs) (ledger : List LedgerRow) (captures : List SettlementRow)
    (l : LedgerRow) (c : SettlementRow) : Prop :=
  l ∈ (exactPass a ledger captures).left ∧ l ∈ a.trueWindowLedger ∧ l.loanId = c.loanId ∧
    l.amountMinor = c.amountMinor ∧ l.date = c.settlementDate

/-- No capture is paired across dates while a row of its own date goes without. -/
def ExactDateFirst (a : MatchArgs) (ledger : List LedgerRow) (captures : List SettlementRow) :
    Prop :=
  ∀ x ∈ paired a ledger captures, x.1.date ≠ x.2.settlementDate →
    ∀ l ∈ ledger, ¬ Passed a ledger captures l x.2

section ExactDate

variable {a : MatchArgs} {ledger : List LedgerRow} {captures : List SettlementRow}
  {l : LedgerRow} {c : SettlementRow} {x : LedgerRow × SettlementRow}

@[simp] theorem gapDays_self (h : l.date = c.settlementDate) : gapDays l c = 0 := by
  rw [gapDays, h, sub_self, abs_zero]

theorem gapDays_nonneg (l : LedgerRow) (c : SettlementRow) : 0 ≤ gapDays l c := abs_nonneg _

/-- A capture of the row's own date ranks before those of other dates. -/
theorem rank_own_date {w : List SettlementRow} {d : SettlementRow} (h : l.date = c.settlementDate)
    (hd : l.date ≠ d.settlementDate) : rankCandidate w l c < rankCandidate w l d := by
  refine Prod.Lex.toLex_lt_toLex.mpr (.inl ?_)
  rw [gapDays_self h]
  exact abs_pos.mpr (sub_ne_zero.mpr hd.symm)

theorem served_pairwise (a : MatchArgs) (ledger : List LedgerRow) :
    (sortBy (ledgerKey a.trueWindowLedger) ledger).Pairwise fun l l' =>
      ledgerKey a.trueWindowLedger l ≤ ledgerKey a.trueWindowLedger l' := sortBy_pairwise _ _

/-- A row of one loan and amount served before a true-window row is of the true window too, and not
younger. -/
theorem served_before {w : List LedgerRow} {l l' : LedgerRow} (hloan : l.loanId = l'.loanId)
    (hamount : l.amountMinor = l'.amountMinor) (hwindow : l' ∈ w)
    (h : ledgerKey w l ≤ ledgerKey w l') : l ∈ w ∧ l.createdAt ≤ l'.createdAt := by
  unfold ledgerKey at h
  simp only [Prod.Lex.toLex_le_toLex, hloan, hamount, lt_self_iff_false, true_and, false_or] at h
  rcases h with h | ⟨hflag, h⟩
  · have hflag : decide (l' ∉ w) = false := by simpa using hwindow
    rw [hflag] at h
    exact absurd h not_lt_bot
  · have hin : l ∈ w := by simpa [hwindow] using hflag
    rcases h with h | ⟨h, -⟩
    · exact ⟨hin, h.le⟩
    · exact ⟨hin, h.le⟩

theorem date_mono {l l' : LedgerRow} (h : l.createdAt ≤ l'.createdAt) : l.date ≤ l'.date := by
  unfold LedgerRow.date dateOf
  exact Int.ediv_le_ediv (by decide) h

end ExactDate

/-- **Who may keep a capture from a row of its own date**: a row of the true window, of an earlier
date. And whatever is paired across dates, every capture of the row's own date is taken, by rows
served no later. -/
theorem exact_date_claim (a : MatchArgs) (ledger : List LedgerRow) (captures : List SettlementRow) :
    (∀ x ∈ paired a ledger captures, x.1.date ≠ x.2.settlementDate →
      ∀ l, Passed a ledger captures l x.2 →
        x ∈ (exactPass a ledger captures).pairs ∧ x.1 ∈ a.trueWindowLedger ∧
          x.1.createdAt ≤ l.createdAt ∧ x.1.date < l.date) ∧
    ∀ x ∈ (exactPass a ledger captures).pairs, x.1.date ≠ x.2.settlementDate →
      ∀ c, c.loanId = x.1.loanId → c.amountMinor = x.1.amountMinor →
        c.settlementDate = x.1.date →
        c ∉ (exactPass a ledger captures).right ∧
          ∀ y ∈ (exactPass a ledger captures).pairs, y.2 = c →
            ledgerKey a.trueWindowLedger y.1 ≤ ledgerKey a.trueWindowLedger x.1 := by
  constructor
  · rintro x hx hdate l ⟨hleft, hwindow, hloan, hamount, hown⟩
    rcases List.mem_append.mp hx with hx | hx
    · obtain ⟨hloan', hamount', hgap⟩ := exactCandidate_iff.mp (assign_pairs hx)
      have hok : exactCandidate a.toleranceDays l x.2 = true := by
        refine exactCandidate_iff.mpr ⟨hloan.symm, hamount.symm, ?_⟩
        rw [gapDays_self hown]
        exact (gapDays_nonneg _ _).trans hgap
      obtain ⟨hin, hcreated⟩ := served_before (hloan'.symm.trans hloan.symm)
        (hamount'.symm.trans hamount.symm) hwindow
        (assign_left_after (served_pairwise a ledger) hleft hx hok)
      exact ⟨hx, hin, hcreated, lt_of_le_of_ne (date_mono hcreated) (by rw [hown]; exact hdate)⟩
    · -- the exact pass does not leave both the row and the capture
      obtain ⟨-, hright, -, hgap⟩ := mem_mismatchPass hx
      have hfree := exactPass_maximal hleft hright
      rw [exactCandidate_iff.mpr ⟨hloan.symm, hamount.symm, by
        rw [gapDays_self hown]
        exact (gapDays_nonneg _ _).trans hgap⟩] at hfree
      cases hfree
  · intro x hx hdate c hloan hamount hown
    obtain ⟨-, -, hgap⟩ := exactCandidate_iff.mp (assign_pairs hx)
    have hok : exactCandidate a.toleranceDays x.1 c = true := by
      refine exactCandidate_iff.mpr ⟨hloan, hamount, ?_⟩
      rw [gapDays_self hown.symm]
      exact (gapDays_nonneg _ _).trans hgap
    have hlt : rankCandidate a.trueWindowCaptures x.1 c <
        rankCandidate a.trueWindowCaptures x.1 x.2 := rank_own_date hown.symm hdate
    constructor
    · exact fun hright => absurd (assign_best hx hright hok) (not_le.mpr hlt)
    · rintro y hy rfl
      exact assign_claimed_after (served_pairwise a ledger) hx hy hok hlt

/-- Two payments on consecutive days and one capture on the later: the earlier payment takes it. -/
theorem exact_date_lost : ¬ ∀ (a : MatchArgs) (ledger : List LedgerRow)
    (captures : List SettlementRow), ExactDateFirst a ledger captures := by
  intro h
  have hfirst := h ⟨1, [ledgerOn 1 739766, ledgerOn 2 739767], [settledOn 739767 "a".toList]⟩
    [ledgerOn 1 739766, ledgerOn 2 739767] [settledOn 739767 "a".toList]
    (ledgerOn 1 739766, settledOn 739767 "a".toList) (by decide +kernel) (by decide +kernel)
    (ledgerOn 2 739767) (by decide +kernel)
  exact hfirst ⟨by decide +kernel, by decide +kernel, rfl, rfl, by decide +kernel⟩

end Meridian.Reconciliation
