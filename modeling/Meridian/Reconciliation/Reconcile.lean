import Meridian.Assignment.Greedy
import Meridian.Reconciliation.Rows

/-!
# `reconcile`

The matching, the duplicate scan and the report of one run over a window. `matchRows` is `_match`:
two greedy passes (`Assignment/Greedy.lean`), the exact one over all candidates and the mismatch one
over what it leaves. A `frozenset` of true-window rows is the list of its rows; a `dict` of totals
is an association list in insertion order. The payments table does not change during a run, so both
ledger queries of a run see the same rows.
-/

namespace Meridian.Reconciliation

open Python Assignment

/-! ## `_match` -/

/-- `abs((capture.settlement_date - ledger_row.created_at.date()).days)`. -/
def gapDays (l : LedgerRow) (c : SettlementRow) : Int := |c.settlementDate - l.date|

/-- `_within`. -/
def within (toleranceDays : Int) (l : LedgerRow) (c : SettlementRow) : Bool :=
  gapDays l c ≤ toleranceDays

/-- `_rank_candidate`. -/
def rankCandidate (trueWindowCaptures : List SettlementRow) (l : LedgerRow) (c : SettlementRow) :
    Int ×ₗ Bool ×ₗ Int ×ₗ Text :=
  toLex (gapDays l c, toLex (decide (c ∉ trueWindowCaptures),
    toLex (c.settlementDate, c.processorRef)))

/-- The order ledger rows are served in: by loan and amount, true-window rows first. -/
def ledgerKey (trueWindowLedger : List LedgerRow) (l : LedgerRow) :
    Int ×ₗ Int ×ₗ Bool ×ₗ Int ×ₗ Int :=
  toLex (l.loanId, toLex (l.amountMinor, toLex (decide (l ∉ trueWindowLedger),
    toLex (l.createdAt, l.paymentId))))

def captureKey (c : SettlementRow) : Int ×ₗ Int ×ₗ Int ×ₗ Text :=
  toLex (c.loanId, toLex (c.amountMinor, toLex (c.settlementDate, c.processorRef)))

def unmatchedLedgerKey (trueWindowLedger : List LedgerRow) (l : LedgerRow) :
    Int ×ₗ Bool ×ₗ Int ×ₗ Int :=
  toLex (l.loanId, toLex (decide (l ∉ trueWindowLedger), toLex (l.createdAt, l.paymentId)))

def unmatchedCaptureKey (c : SettlementRow) : Int ×ₗ Int ×ₗ Text :=
  toLex (c.loanId, toLex (c.settlementDate, c.processorRef))

/-- A capture of the row's loan and amount, within the tolerance. -/
def exactCandidate (toleranceDays : Int) (l : LedgerRow) (c : SettlementRow) : Bool :=
  c.loanId = l.loanId && c.amountMinor = l.amountMinor && within toleranceDays l c

/-- A capture of the row's loan, within the tolerance. -/
def mismatchCandidate (toleranceDays : Int) (l : LedgerRow) (c : SettlementRow) : Bool :=
  c.loanId = l.loanId && within toleranceDays l c

/-- What `_match` is given besides its rows. -/
structure MatchArgs where
  toleranceDays : Int
  trueWindowLedger : List LedgerRow
  trueWindowCaptures : List SettlementRow

/-- The exact pass. -/
def exactPass (a : MatchArgs) (ledger : List LedgerRow) (captures : List SettlementRow) :
    Assigned LedgerRow SettlementRow :=
  assign (exactCandidate a.toleranceDays) (rankCandidate a.trueWindowCaptures)
    (sortBy (ledgerKey a.trueWindowLedger) ledger) (sortBy captureKey captures)

/-- The mismatch pass, over what the exact one left behind. -/
def mismatchPass (a : MatchArgs) (exact : Assigned LedgerRow SettlementRow) :
    Assigned LedgerRow SettlementRow :=
  assign (mismatchCandidate a.toleranceDays) (rankCandidate a.trueWindowCaptures)
    (sortBy (unmatchedLedgerKey a.trueWindowLedger) exact.left)
    (sortBy unmatchedCaptureKey exact.right)

/-- What `_match` returns. -/
structure Matching where
  matchedCount : Nat
  remainingLedger : List LedgerRow
  remainingCaptures : List SettlementRow
  mismatches : List (LedgerRow × SettlementRow)

/-- `_match`. -/
def matchRows (a : MatchArgs) (ledger : List LedgerRow) (captures : List SettlementRow) :
    Matching :=
  let exact := exactPass a ledger captures
  let mismatch := mismatchPass a exact
  ⟨exact.pairs.length, mismatch.left, mismatch.right, mismatch.pairs⟩

/-! ## Configuration -/

/-- The environment a run reads. -/
structure Settings where
  settlementFile : Text
  duplicateSuspectWindowSeconds : Text
  reconciliationAlertThresholdMinor : Text

def maxDuplicateSuspectWindowSeconds : Int := 30 * 24 * 60 * 60

/-- `_duplicate_suspect_window_seconds`. -/
def duplicateSuspectWindowSeconds (s : Settings) : E Int :=
  let raw := strip s.duplicateSuspectWindowSeconds
  if raw.isEmpty then .error (.abort .duplicateWindowUnset)
  else
    match parseInt raw with
    | none => .error (.abort (.duplicateWindowUnparsed raw))
    | some seconds =>
      if maxDuplicateSuspectWindowSeconds < seconds then
        .error (.abort (.duplicateWindowTooLarge seconds))
      else if seconds ≤ 0 then .error (.abort (.duplicateWindowNotPositive seconds))
      else .ok seconds

/-- `_PLAIN_INTEGER`, `^\d+$`, on stripped text. -/
def plainInteger (t : Text) : Bool := !(takeDigits t).1.isEmpty && (takeDigits t).2.isEmpty

/-- `_alert_threshold_minor`. -/
def alertThresholdMinor (s : Settings) : E Int :=
  let raw := strip s.reconciliationAlertThresholdMinor
  if raw.isEmpty then .error (.abort .thresholdUnset)
  else if plainInteger raw = false then .error (.abort (.thresholdNotPlain raw))
  else
    match parseInt raw with
    | none => .error .valueError
    | some threshold =>
      if threshold ≤ 0 then .error (.abort (.thresholdNotPositive threshold)) else .ok threshold

/-! ## Duplicate suspects -/

structure DuplicateSuspect where
  loanId : Int
  amountMinor : Int
  occurredOn : Int
  gapSeconds : Int
  firstPaymentId : Int
  secondPaymentId : Int
  deriving DecidableEq

/-- The pair touches the true window. -/
def touchesWindow (trueWindowPaymentIds : List Int) (x : LedgerRow × LedgerRow) : Bool :=
  trueWindowPaymentIds.contains x.1.paymentId || trueWindowPaymentIds.contains x.2.paymentId

/-- The adjacent pairs of one group at most `windowSeconds` apart, those touching the true window
first. -/
def duplicateCandidates (windowSeconds : Int) (trueWindowPaymentIds : List Int)
    (rows : List LedgerRow) : List (LedgerRow × LedgerRow) :=
  let ordered := sortBy (fun r : LedgerRow => toLex (r.createdAt, r.paymentId)) rows
  sortBy
    (fun x : LedgerRow × LedgerRow => (toLex (!touchesWindow trueWindowPaymentIds x,
      toLex (x.1.createdAt, x.1.paymentId)) : Bool ×ₗ Int ×ₗ Int))
    ((ordered.zip ordered.tail).filter fun x =>
      x.2.createdAt - x.1.createdAt ≤ windowSeconds * 1000000)

/-- Each row is claimed by one pair at most. -/
def claimPairs : List Int → List (LedgerRow × LedgerRow) → List (LedgerRow × LedgerRow)
  | _, [] => []
  | claimed, x :: xs =>
    if claimed.contains x.1.paymentId || claimed.contains x.2.paymentId then claimPairs claimed xs
    else x :: claimPairs (x.1.paymentId :: x.2.paymentId :: claimed) xs

def suspectOf (x : LedgerRow × LedgerRow) : DuplicateSuspect where
  loanId := x.1.loanId
  amountMinor := x.1.amountMinor
  occurredOn := x.1.date
  gapSeconds := (x.2.createdAt - x.1.createdAt) / 1000000
  firstPaymentId := x.1.paymentId
  secondPaymentId := x.2.paymentId

/-- `_find_duplicate_suspects`. -/
def findDuplicateSuspects (ledger : List LedgerRow) (windowSeconds : Int)
    (trueWindowPaymentIds : List Int) : List DuplicateSuspect :=
  let groups := (ledger.map fun r => (r.loanId, r.amountMinor)).eraseDups
  sortBy (fun s : DuplicateSuspect => (toLex (s.loanId, toLex (s.amountMinor, s.occurredOn)) :
      Int ×ₗ Int ×ₗ Int))
    (groups.flatMap fun g => (claimPairs [] (duplicateCandidates windowSeconds trueWindowPaymentIds
      (ledger.filter fun r => (r.loanId, r.amountMinor) = g))).map suspectOf)

/-! ## The report -/

/-- The break classes, in the order of their names. -/
inductive BreakClass
  | amountMismatch
  | missingInLedger
  | missingInSettlement
  | refundUnrepresented
  deriving DecidableEq

def BreakClass.position : BreakClass → Nat
  | amountMismatch => 0
  | missingInLedger => 1
  | missingInSettlement => 2
  | refundUnrepresented => 3

/-- The texts of `detail`. -/
inductive Detail
  /-- `credited, never captured` -/
  | neverCaptured
  /-- `captured, never credited` -/
  | neverCredited
  /-- `settlement refund the payments table cannot represent` -/
  | refund
  /-- `ledger {ledger} minor units vs settlement {settlement} minor units ({ref}, {date})` -/
  | amounts (ledger settlement : Int) (processorRef : Text) (settlementDate : Int)
  deriving DecidableEq

structure Break where
  breakClass : BreakClass
  loanId : Int
  amountMinor : Int
  occurredOn : Int
  processorRef : Option Text
  paymentId : Option Int
  detail : Detail
  deriving DecidableEq

namespace Break

def missingInSettlement (l : LedgerRow) : Break :=
  ⟨.missingInSettlement, l.loanId, l.amountMinor, l.date, none, some l.paymentId, .neverCaptured⟩

def missingInLedger (c : SettlementRow) : Break :=
  ⟨.missingInLedger, c.loanId, c.amountMinor, c.settlementDate, some c.processorRef, none,
    .neverCredited⟩

def refundUnrepresented (c : SettlementRow) : Break :=
  ⟨.refundUnrepresented, c.loanId, c.amountMinor, c.settlementDate, some c.processorRef, none,
    .refund⟩

def amountMismatch (x : LedgerRow × SettlementRow) : Break :=
  ⟨.amountMismatch, x.1.loanId, |x.1.amountMinor - x.2.amountMinor|, x.1.date,
    some x.2.processorRef, some x.1.paymentId,
    .amounts x.1.amountMinor x.2.amountMinor x.2.processorRef x.2.settlementDate⟩

def key (b : Break) : Nat ×ₗ Int ×ₗ Int ×ₗ Int :=
  toLex (b.breakClass.position, toLex (b.loanId, toLex (b.occurredOn, b.amountMinor)))

end Break

/-- Totals by loan, in insertion order. -/
abbrev Totals := List (Int × Int)

namespace Totals

/-- `d[k] = d.get(k, 0) + v`. -/
def add (k v : Int) : Totals → Totals
  | [] => [(k, v)]
  | x :: d => if x.1 = k then (k, x.2 + v) :: d else x :: add k v d

/-- `d.get(k, 0)`. -/
def get (d : Totals) (k : Int) : Int := ((d.find? fun x => x.1 = k).map Prod.snd).getD 0

def ofRows (rows : List (Int × Int)) : Totals := rows.foldl (fun d x => add x.1 x.2 d) []

def values (d : Totals) : List Int := d.map Prod.snd

end Totals

structure ReconciliationResult where
  windowFrom : Int
  windowTo : Int
  toleranceDays : Int
  matchedCount : Nat
  breaks : List Break
  duplicates : List DuplicateSuspect
  netVarianceMinor : Int
  perLoanAbsoluteMinor : Int
  grossBreakMinor : Int
  ledgerRowCount : Nat
  ledgerTotalMinor : Int
  settlementRowCount : Nat
  settlementCapturesMinor : Int
  settlementRefundsMinor : Int
  alertThresholdMinor : Int
  deriving DecidableEq

namespace ReconciliationResult

/-- `alert_triggered`: strictly above the threshold. -/
def alertTriggered (r : ReconciliationResult) : Bool :=
  r.alertThresholdMinor < r.perLoanAbsoluteMinor

/-- `exit_code`: `EXIT_BREAKS` or `EXIT_CLEAN`. -/
def exitCode (r : ReconciliationResult) : Nat :=
  if r.breaks ≠ [] ∨ r.duplicates ≠ [] ∨ r.alertTriggered then 1 else 0

end ReconciliationResult

/-- The captures among settlement rows. -/
def captures (rows : List SettlementRow) : List SettlementRow :=
  rows.filter fun r => r.rowType = .capture

def refunds (rows : List SettlementRow) : List SettlementRow :=
  rows.filter fun r => r.rowType = .refund

/-- What a run compares: its window, and the rows it has read. -/
structure Comparison where
  windowFrom : Int
  windowTo : Int
  toleranceDays : Int
  allSettlement : List SettlementRow
  ledgerCandidates : List LedgerRow

namespace Comparison

variable (x : Comparison)

/-- The settlement rows of the true window. -/
def settlement : List SettlementRow :=
  x.allSettlement.filter fun r => between x.windowFrom x.windowTo r.settlementDate

/-- The ledger rows of the true window. -/
def ledger : List LedgerRow :=
  x.ledgerCandidates.filter fun r => between x.windowFrom x.windowTo r.date

/-- The captures of the window widened by the tolerance. -/
def captureCandidates : List SettlementRow :=
  captures (x.allSettlement.filter fun r =>
    between (x.windowFrom - x.toleranceDays) (x.windowTo + x.toleranceDays) r.settlementDate)

def matchArgs : MatchArgs := ⟨x.toleranceDays, x.ledger, captures x.settlement⟩

def matching : Matching := matchRows x.matchArgs x.ledgerCandidates x.captureCandidates

/-- The breaks of the run; a candidate outside the true window is not this window's to report. -/
def breaks : List Break :=
  let m := x.matching
  let inWindow := between x.windowFrom x.windowTo
  sortBy Break.key
    ((m.remainingLedger.filter fun l => inWindow l.date).map Break.missingInSettlement ++
      (m.remainingCaptures.filter fun c => inWindow c.settlementDate).map Break.missingInLedger ++
      (refunds x.settlement).map Break.refundUnrepresented ++
      (m.mismatches.filter fun y => inWindow y.1.date || inWindow y.2.settlementDate).map
        Break.amountMismatch)

def ledgerByLoan : Totals := .ofRows (x.ledger.map fun l => (l.loanId, l.amountMinor))

def settlementByLoan : Totals := .ofRows (x.settlement.map fun r =>
  (r.loanId, match r.rowType with | .capture => r.amountMinor | .refund => -r.amountMinor))

/-- `sum(abs(…) for loan_id in set(ledger_by_loan) | set(settlement_by_loan))`. -/
def perLoanAbsoluteMinor : Int :=
  (((x.ledgerByLoan.map Prod.fst ++ x.settlementByLoan.map Prod.fst).eraseDups).map fun k =>
    |x.ledgerByLoan.get k - x.settlementByLoan.get k|).sum

/-- The duplicate suspects that touch the true window. -/
def duplicates (duplicateRows : List LedgerRow) (windowSeconds : Int) : List DuplicateSuspect :=
  let ids := x.ledger.map LedgerRow.paymentId
  (findDuplicateSuspects duplicateRows windowSeconds ids).filter fun s =>
    ids.contains s.firstPaymentId || ids.contains s.secondPaymentId

def result (duplicateRows : List LedgerRow) (windowSeconds threshold : Int) :
    ReconciliationResult where
  windowFrom := x.windowFrom
  windowTo := x.windowTo
  toleranceDays := x.toleranceDays
  matchedCount := x.matching.matchedCount
  breaks := x.breaks
  duplicates := x.duplicates duplicateRows windowSeconds
  netVarianceMinor := x.ledgerByLoan.values.sum - x.settlementByLoan.values.sum
  perLoanAbsoluteMinor := x.perLoanAbsoluteMinor
  grossBreakMinor := (x.breaks.map Break.amountMinor).sum
  ledgerRowCount := x.ledger.length
  ledgerTotalMinor := x.ledgerByLoan.values.sum
  settlementRowCount := x.settlement.length
  settlementCapturesMinor := ((captures x.settlement).map SettlementRow.amountMinor).sum
  settlementRefundsMinor := ((refunds x.settlement).map SettlementRow.amountMinor).sum
  alertThresholdMinor := threshold

end Comparison

/-- The least and the greatest settlement date; the file has a row. -/
def firstDate (rows : List SettlementRow) : Int :=
  ((minBy (fun d : Int => d) (rows.map SettlementRow.settlementDate))).getD 0

def lastDate (rows : List SettlementRow) : Int :=
  ((minBy (fun d : Int => -d) (rows.map SettlementRow.settlementDate))).getD 0

/-- The arguments of a run and what it finds around it: the environment, the files and the
`payments` table. -/
structure Run where
  settings : Settings
  files : Text → SettlementFile
  payments : Payments
  fromDate : Option Int
  toDate : Option Int
  toleranceDays : Int
  settlementPath : Option Text

/-- `settlement_path or SETTLEMENT_FILE`. -/
def Run.path (x : Run) : Text :=
  match x.settlementPath with
  | some (c :: t) => c :: t
  | _ => x.settings.settlementFile

/-- What a run reads before it compares. -/
def Run.comparison (x : Run) : E Comparison := do
  abortIf (x.toleranceDays < 0) (.toleranceNegative x.toleranceDays)
  let allSettlement ← loadSettlement x.path (x.files x.path)
  let windowFrom := x.fromDate.getD (firstDate allSettlement)
  let windowTo := x.toDate.getD (lastDate allSettlement)
  abortIf (windowTo < windowFrom) (.windowReversed windowFrom windowTo)
  let candidateFrom ← orRaise .overflowError (addDays windowFrom (-x.toleranceDays))
  let candidateTo ← orRaise .overflowError (addDays windowTo x.toleranceDays)
  let ledgerCandidates ← loadLedger x.payments candidateFrom candidateTo
  pure ⟨windowFrom, windowTo, x.toleranceDays, allSettlement, ledgerCandidates⟩

/-- `reconcile`. -/
def reconcile (x : Run) : E ReconciliationResult := do
  let y ← x.comparison
  let threshold ← alertThresholdMinor x.settings
  let seconds ← duplicateSuspectWindowSeconds x.settings
  let marginDays := seconds / 86400 + 1
  let marginFrom ← orRaise .overflowError (addDays y.windowFrom (-marginDays))
  let marginTo ← orRaise .overflowError (addDays y.windowTo marginDays)
  let duplicateRows ← loadLedger x.payments marginFrom marginTo
  pure (y.result duplicateRows seconds threshold)

end Meridian.Reconciliation
