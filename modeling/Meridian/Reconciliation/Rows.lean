import Meridian.Python.Date
import Meridian.Python.Float
import Meridian.Python.Raise
import Meridian.Python.Sorted

/-!
# The rows of a reconciliation

What `reconcile` reads: the settlement file as `csv.DictReader` presents it, and the `payments` rows
a query returns. `loadSettlement` and `loadLedger` turn them into typed rows or raise; an abort
carries what its message says, so every message of `ReconciliationAbort` is one constructor.

Dates are ordinals and `created_at` counts microseconds (`Python/Date.lean`); the session's time
zone is UTC, as `db.py` pins it.
-/

namespace Meridian.Reconciliation

open Python

/-! ## What is raised -/

/-- The row an abort names. -/
inductive Source
  /-- `{path} line {n}` -/
  | line (path : Text) (n : Nat)
  /-- `payments row {id}` -/
  | payment (id : Int)
  deriving DecidableEq

/-- The messages of `ReconciliationAbort`. -/
inductive Abort
  /-- `settlement file not found: {path}` -/
  | fileNotFound (path : Text)
  /-- `settlement file {path} is missing required column(s): {columns}` -/
  | missingColumns (path : Text) (columns : List Text)
  /-- `settlement file {path} could not be read: {exc}` -/
  | unreadable (path : Text)
  /-- `settlement file {path} has no data rows` -/
  | noDataRows (path : Text)
  /-- `{source}: column {column!r} is missing a value` -/
  | missingValue (source : Source) (column : Text)
  /-- `{source}: settlement_date {raw!r} does not parse` -/
  | dateUnparsed (source : Source) (raw : Text)
  /-- `{source}: loan_id {raw!r} does not parse` -/
  | loanUnparsed (source : Source) (raw : Text)
  /-- `{source}: type {raw!r} is not one of ('capture', 'refund')` -/
  | typeUnknown (source : Source) (raw : Text)
  /-- `{source}: amount is missing` -/
  | amountMissing (source : Source)
  /-- `{source}: amount {text!r} is not a plain decimal amount` -/
  | amountNotPlain (source : Source) (text : Text)
  /-- `{source}: amount {text!r} does not parse` -/
  | amountUnparsed (source : Source) (text : Text)
  /-- `{source}: amount {text!r} carries sub-cent precision and is not rounded` -/
  | amountSubCent (source : Source) (text : Text)
  /-- `ledger query failed for window {from}..{to}: {exc}` -/
  | queryFailed (windowFrom windowTo : Int)
  /-- `payments row {id}: created_at is missing` -/
  | createdAtMissing (id : Int)
  /-- `payments row {id}: loan_id is missing` -/
  | loanIdMissing (id : Int)
  /-- `tolerance_days must not be negative: {days}` -/
  | toleranceNegative (days : Int)
  /-- `window start {from} is after window end {to}` -/
  | windowReversed (windowFrom windowTo : Int)
  /-- `DUPLICATE_SUSPECT_WINDOW_SECONDS is not set; …` -/
  | duplicateWindowUnset
  /-- `DUPLICATE_SUSPECT_WINDOW_SECONDS={raw!r} is not an integer` -/
  | duplicateWindowUnparsed (raw : Text)
  /-- `DUPLICATE_SUSPECT_WINDOW_SECONDS={seconds} exceeds the sane ceiling of 2592000 (30 days)` -/
  | duplicateWindowTooLarge (seconds : Int)
  /-- `DUPLICATE_SUSPECT_WINDOW_SECONDS={seconds} must be positive` -/
  | duplicateWindowNotPositive (seconds : Int)
  /-- `RECONCILIATION_ALERT_THRESHOLD_MINOR is not set; …` -/
  | thresholdUnset
  /-- `RECONCILIATION_ALERT_THRESHOLD_MINOR={raw!r} is not a plain integer number of minor units` -/
  | thresholdNotPlain (raw : Text)
  /-- `RECONCILIATION_ALERT_THRESHOLD_MINOR={threshold} must be positive` -/
  | thresholdNotPositive (threshold : Int)
  deriving DecidableEq

/-- What escapes: an abort, or an exception nothing catches. -/
inductive Exc
  | abort (a : Abort)
  | valueError
  | overflowError
  | signal (s : Signal)
  deriving DecidableEq

abbrev E := Except Exc

/-- The exception of a missing result. -/
def orRaise {α : Type} (e : Exc) : Option α → E α
  | some a => .ok a
  | none => .error e

def abortIf (c : Prop) [Decidable c] (a : Abort) : E Unit := if c then .error (.abort a) else .ok ()

/-! ## Money -/

/-- `_PLAIN_DECIMAL`, `^\d+(\.\d+)?$`, on stripped text. -/
def plainDecimal (t : Text) : Bool :=
  !(takeDigits t).1.isEmpty &&
    match (takeDigits t).2 with
    | [] => true
    | '.' :: u => !(takeDigits u).1.isEmpty && (takeDigits u).2.isEmpty
    | _ => false

/-- `_MINOR_UNITS_PER_MAJOR`. -/
def minorUnitsPerMajor : Decimal := ⟨false, 100, 0⟩

/-- `_minor_units`. -/
def minorUnits (source : Source) : Option Text → E Int
  | none => .error (.abort (.amountMissing source))
  | some raw =>
    let text := strip raw
    if plainDecimal text = false then .error (.abort (.amountNotPlain source text))
    else
      match Decimal.ofText text with
      | .error _ => .error (.abort (.amountUnparsed source text))
      | .ok value =>
        match value.mul minorUnitsPerMajor with
        | .error s => .error (.signal s)
        | .ok scaled =>
          if scaled.numEq scaled.toIntegralValue = false then
            .error (.abort (.amountSubCent source text))
          else .ok scaled.toInt

/-- Whose amount it is only matters for the message. -/
theorem minorUnits_source {s s' : Source} {raw : Option Text} {n : Int}
    (h : minorUnits s raw = .ok n) : minorUnits s' raw = .ok n := by
  cases raw with
  | none => cases h
  | some raw =>
    unfold minorUnits at h ⊢
    simp only at h ⊢
    split_ifs at h ⊢
    split at h
    · cases h
    · split at h
      · cases h
      · split_ifs at h ⊢
        exact h

theorem takeDigits_digitText {ds : List Nat} (h : ∀ d ∈ ds, d < 10) :
    takeDigits (F64.digitText ds) = (ds, []) := by
  simpa [F64.digitText] using takeDigits_map_digitChar (t := []) h (by simp)

theorem takeDigits_fixedText {ip fp : List Nat} (hi : ∀ d ∈ ip, d < 10) :
    takeDigits (F64.fixedText false ip fp) = (ip, '.' :: F64.digitText fp) :=
  takeDigits_map_digitChar hi (by simp; decide)

/-- Digits on both sides of a point are a plain decimal. -/
theorem plainDecimal_fixedText {ip fp : List Nat} (hi : ∀ d ∈ ip, d < 10) (hf : ∀ d ∈ fp, d < 10)
    (hne : ip ≠ []) (hne' : fp ≠ []) : plainDecimal (F64.fixedText false ip fp) = true := by
  unfold plainDecimal
  rw [takeDigits_fixedText hi]
  simp [takeDigits_digitText hf, hne, hne']

/-- A plain decimal has no sign. -/
theorem plainDecimal_unsigned {t : Text} (h : plainDecimal t = true) : '-' ∉ t := by
  intro hmem
  have hminus : digit? '-' = none := rfl
  have hrest : ∀ u : Text, '-' ∈ u → '-' ∈ (takeDigits u).2 := by
    intro u hu
    rcases mem_takeDigits hu with hdigit | hin
    · rw [hminus] at hdigit
      cases hdigit
    · exact hin
  have hin := hrest t hmem
  unfold plainDecimal at h
  rw [Bool.and_eq_true] at h
  obtain ⟨-, h⟩ := h
  split at h
  · rename_i heq
    rw [heq] at hin
    cases hin
  · rename_i u heq
    rw [heq] at hin
    have hu : '-' ∈ u := by
      rcases List.mem_cons.mp hin with hpoint | hu
      · cases hpoint
      · exact hu
    rw [Bool.and_eq_true] at h
    have hnil : (takeDigits u).2 = [] := List.isEmpty_iff.mp h.2
    have hin := hrest u hu
    rw [hnil] at hin
    cases hin
  · cases h

/-- Amounts are not negative. -/
theorem minorUnits_nonneg {s : Source} {raw : Option Text} {n : Int}
    (h : minorUnits s raw = .ok n) : 0 ≤ n := by
  cases raw with
  | none => cases h
  | some raw =>
    unfold minorUnits at h
    dsimp only at h
    split_ifs at h with hplain
    split at h
    · cases h
    · rename_i value hvalue
      split at h
      · cases h
      · rename_i scaled hscaled
        split_ifs at h
        cases h
        have hunsigned := plainDecimal_unsigned (by simpa using hplain)
        have hneg : scaled.neg = false := by
          rw [Decimal.fix_neg hscaled, Decimal.ofText_neg hunsigned hvalue]
          rfl
        rw [Decimal.toInt, hneg]
        exact Int.natCast_nonneg _

/-! ## The settlement file -/

/-- `type`: `capture` or `refund`. -/
inductive RowType
  | capture
  | refund
  deriving DecidableEq

structure SettlementRow where
  settlementDate : Int
  processorRef : Text
  loanId : Int
  amountMinor : Int
  rowType : RowType
  deriving DecidableEq

/-- A record `csv.reader` reads, or the error reading it raises. -/
inductive CsvLine
  | record (cells : List Text)
  | broken
  deriving DecidableEq

/-- What is at the path; an empty record is a blank line. -/
inductive SettlementFile
  | absent
  | lines (ls : List CsvLine)
  deriving DecidableEq

def settlementDateColumn : Text := "settlement_date".toList
def processorRefColumn : Text := "processor_ref".toList
def loanIdColumn : Text := "loan_id".toList
def amountColumn : Text := "amount".toList
def typeColumn : Text := "type".toList

/-- `REQUIRED_COLUMNS`. -/
def requiredColumns : List Text :=
  [settlementDateColumn, processorRefColumn, loanIdColumn, amountColumn, typeColumn]

/-- `raw.get(column)` of a `DictReader` row: the last column of that name counts, and a short
record's missing cells are `None`. -/
def cell (columns cells : List Text) (column : Text) : Option Text :=
  ((columns.zipIdx.filter fun x => x.1 = column).getLast?).bind fun x => cells[x.2]?

/-- The stripped text of a column, which the row check has found to be there. -/
def stripped (raw : Text → Option Text) (column : Text) : Text := strip ((raw column).getD [])

def rowType? (t : Text) : Option RowType :=
  if t = "capture".toList then some .capture
  else if t = "refund".toList then some .refund
  else none

/-- `_parse_settlement_row`. -/
def parseSettlementRow (raw : Text → Option Text) (source : Source) : E SettlementRow := do
  match requiredColumns.find? fun c => (stripped raw c).isEmpty with
  | some column => .error (.abort (.missingValue source column))
  | none => pure ()
  let settlementDate ← orRaise
    (.abort (.dateUnparsed source (stripped raw settlementDateColumn)))
    (parseDate (stripped raw settlementDateColumn))
  let rawLoan := stripped raw loanIdColumn
  abortIf (rawLoan.all isDigit = false) (.loanUnparsed source rawLoan)
  let rowType ← orRaise (.abort (.typeUnknown source (stripped raw typeColumn)))
    (rowType? (stripped raw typeColumn))
  -- `isdigit` accepts digits `int` does not
  let loanId ← orRaise .valueError (parseInt rawLoan)
  let amountMinor ← minorUnits source (raw amountColumn)
  pure ⟨settlementDate, stripped raw processorRefColumn, loanId, amountMinor, rowType⟩

/-- The data rows, numbered from line `n` on; blank lines are skipped and not counted. -/
def parseRows (path : Text) (columns : List Text) : Nat → List CsvLine → E (List SettlementRow)
  | _, [] => .ok []
  | n, .record [] :: ls => parseRows path columns n ls
  | _, .broken :: _ => .error (.abort (.unreadable path))
  | n, .record cells :: ls => do
    let row ← parseSettlementRow (cell columns cells) (.line path n)
    let rows ← parseRows path columns (n + 1) ls
    pure (row :: rows)

/-- `load_settlement`. -/
def loadSettlement (path : Text) : SettlementFile → E (List SettlementRow)
  | .absent => .error (.abort (.fileNotFound path))
  | .lines (.broken :: _) => .error (.abort (.unreadable path))
  | .lines ls => do
    let columns := match ls with
      | .record cells :: _ => cells
      | _ => []
    let missing := requiredColumns.filter fun c => !columns.contains c
    abortIf (missing ≠ []) (.missingColumns path missing)
    let rows ← parseRows path columns 2 ls.tail
    abortIf (rows = []) (.noDataRows path)
    pure rows

/-! ## The ledger -/

/-- The columns of `payments` the query selects. -/
structure PaymentRow where
  id : Int
  loanId : Option Int
  amount : Double
  createdAt : Option Int
  deriving DecidableEq

/-- The `payments` table; `none` when queries fail. -/
abbrev Payments := Option (List PaymentRow)

structure LedgerRow where
  paymentId : Int
  loanId : Int
  amountMinor : Int
  createdAt : Int
  deriving DecidableEq

namespace LedgerRow

/-- `created_at.date()`. -/
def date (r : LedgerRow) : Int := dateOf r.createdAt

end LedgerRow

/-- `day <= x <= day'`. -/
def between (windowFrom windowTo d : Int) : Bool := windowFrom ≤ d && d ≤ windowTo

/-- NULLs sort last. -/
def nullsLast (x : Option Int) : Bool ×ₗ Int := toLex (x.isNone, x.getD 0)

/-- `ORDER BY loan_id, amount, created_at, id`. -/
def queryKey (r : PaymentRow) : (Bool ×ₗ Int) ×ₗ (Int ×ₗ ℚ) ×ₗ (Bool ×ₗ Int) ×ₗ Int :=
  toLex (nullsLast r.loanId, toLex (r.amount.sortKey, toLex (nullsLast r.createdAt, r.id)))

/-- `created_at >= from AND created_at < upper`; NULL is not true. -/
def selects (windowFrom upper : Int) (r : PaymentRow) : Bool :=
  r.createdAt.any fun t => windowFrom * microsPerDay ≤ t && t < upper * microsPerDay

/-- One row of `load_ledger`'s loop; `none` for a row it passes over. -/
def ledgerRow (windowFrom windowTo : Int) (r : PaymentRow) : E (Option LedgerRow) :=
  match r.createdAt with
  | none => .error (.abort (.createdAtMissing r.id))
  | some createdAt =>
    match r.loanId with
    | none => .error (.abort (.loanIdMissing r.id))
    | some loanId =>
      if between windowFrom windowTo (dateOf createdAt) = false then .ok none
      else
        match minorUnits (.payment r.id) (some r.amount.repr) with
        | .error e => .error e
        | .ok amountMinor => .ok (some ⟨r.id, loanId, amountMinor, createdAt⟩)

/-- `load_ledger`'s loop. -/
def ledgerRows (windowFrom windowTo : Int) : List PaymentRow → E (List LedgerRow)
  | [] => .ok []
  | r :: rs => do
    let row ← ledgerRow windowFrom windowTo r
    let rows ← ledgerRows windowFrom windowTo rs
    pure (row.toList ++ rows)

/-- `load_ledger`. -/
def loadLedger (payments : Payments) (windowFrom windowTo : Int) : E (List LedgerRow) := do
  let upper ← orRaise .overflowError (addDays windowTo 1)
  let rows ← orRaise (.abort (.queryFailed windowFrom windowTo)) payments
  ledgerRows windowFrom windowTo (sortBy queryKey (rows.filter (selects windowFrom upper)))

/-! ## What loads

A row loads by itself, whatever window it is fetched for; a window loads exactly when each of its
rows does. -/

/-- The typed row of a `payments` row that has one. -/
def typedRow (r : PaymentRow) : Option LedgerRow :=
  match r.createdAt, r.loanId, minorUnits (.payment r.id) (some r.amount.repr) with
  | some createdAt, some loanId, .ok amountMinor => some ⟨r.id, loanId, amountMinor, createdAt⟩
  | _, _, _ => none

/-- The row was created in the window. -/
def createdIn (windowFrom windowTo : Int) (r : PaymentRow) : Bool :=
  r.createdAt.any fun t => between windowFrom windowTo (dateOf t)

theorem orRaise_ok {α : Type} {e : Exc} {o : Option α} {a : α} (h : orRaise e o = .ok a) :
    o = some a := by
  cases o <;> cases h
  rfl

theorem abortIf_ok {c : Prop} [Decidable c] {a : Abort} {u : Unit} (h : abortIf c a = .ok u) :
    ¬ c := by
  intro hc
  rw [abortIf, if_pos hc] at h
  cases h

section Loading

variable {f t : Int} {r : PaymentRow} {rs : List PaymentRow} {x : LedgerRow} {L : List LedgerRow}

/-- The query's bounds are those of the window. -/
theorem selects_eq (f t : Int) : selects f (t + 1) = createdIn f t := by
  funext r
  unfold selects createdIn
  congr 1
  funext x
  unfold between dateOf microsPerDay
  rw [Bool.eq_iff_iff]
  simp only [Bool.and_eq_true, decide_eq_true_eq]
  omega

theorem ledgerRow_ok (hr : createdIn f t r = true) (h : typedRow r = some x) :
    ledgerRow f t r = .ok (some x) := by
  unfold typedRow at h
  split at h
  · rename_i c l m hc hl hm
    cases h
    rw [createdIn, hc] at hr
    unfold ledgerRow
    simp only [hc, hl, hm]
    rw [if_neg (by simpa using hr)]
  · cases h

theorem ledgerRow_error (hr : createdIn f t r = true) (h : typedRow r = none) :
    ∃ e, ledgerRow f t r = .error e := by
  cases hc : r.createdAt with
  | none => exact ⟨.abort (.createdAtMissing r.id), by simp only [ledgerRow, hc]⟩
  | some c =>
    cases hl : r.loanId with
    | none => exact ⟨.abort (.loanIdMissing r.id), by simp only [ledgerRow, hc, hl]⟩
    | some l =>
      cases hm : minorUnits (.payment r.id) (some r.amount.repr) with
      | error e =>
        rw [createdIn, hc] at hr
        refine ⟨e, ?_⟩
        simp only [ledgerRow, hc, hl, hm]
        rw [if_neg (by simpa using hr)]
      | ok m =>
        simp only [typedRow, hc, hl, hm] at h
        cases h

/-- The loop gathers the typed rows when every row has one, and fails with some row's error
otherwise. -/
theorem ledgerRows_eq (hrs : ∀ r ∈ rs, createdIn f t r = true) :
    (ledgerRows f t rs = .ok (rs.filterMap typedRow) ∧ ∀ r ∈ rs, (typedRow r).isSome) ∨
    ∃ e, ledgerRows f t rs = .error e ∧
      ∃ r ∈ rs, typedRow r = none ∧ ledgerRow f t r = .error e := by
  induction rs with
  | nil => exact .inl ⟨rfl, fun _ h => absurd h List.not_mem_nil⟩
  | cons r rs ih =>
    have hr := hrs r List.mem_cons_self
    cases hx : typedRow r with
    | none =>
      obtain ⟨e, he⟩ := ledgerRow_error hr hx
      exact .inr ⟨e, by simp [ledgerRows, he, bind, Except.bind], r, List.mem_cons_self, hx, he⟩
    | some x =>
      have hx' := ledgerRow_ok hr hx
      rcases ih fun r hr => hrs r (List.mem_cons_of_mem _ hr) with ⟨hL, hall⟩ | ⟨e, he, r', hr', hn⟩
      · refine .inl ⟨?_, fun r' hr' => ?_⟩
        · simp [ledgerRows, hx', hL, bind, Except.bind, pure, Except.pure, hx]
        · rcases List.mem_cons.mp hr' with rfl | hr'
          · rw [hx]
            rfl
          · exact hall r' hr'
      · exact .inr ⟨e, by simp [ledgerRows, hx', he, bind, Except.bind], r',
          List.mem_cons_of_mem _ hr', hn⟩

/-- **A window loads** exactly when each `payments` row created in it has a typed row, and gives
those rows. -/
theorem loadLedger_cases (hupper : addDays t 1 = some (t + 1)) (rs : List PaymentRow) (f : Int) :
    ((∃ L, loadLedger (some rs) f t = .ok L ∧
        L.Perm ((rs.filter (createdIn f t)).filterMap typedRow)) ∧
      ∀ r ∈ rs, createdIn f t r = true → (typedRow r).isSome) ∨
    ∃ e, loadLedger (some rs) f t = .error e ∧
      ∃ r ∈ rs, createdIn f t r = true ∧ typedRow r = none ∧ ledgerRow f t r = .error e := by
  have hload : loadLedger (some rs) f t =
      ledgerRows f t (sortBy queryKey (rs.filter (createdIn f t))) := by
    unfold loadLedger
    rw [hupper]
    simp only [orRaise, bind, Except.bind, selects_eq]
  have hmem : ∀ r ∈ sortBy queryKey (rs.filter (createdIn f t)), createdIn f t r = true :=
    fun r hr => (List.mem_filter.mp ((mem_sortBy _).mp hr)).2
  rw [hload]
  rcases ledgerRows_eq hmem with ⟨hL, hall⟩ | ⟨e, he, r, hr, hn⟩
  · refine .inl ⟨⟨_, hL, (sortBy_perm _ _).filterMap _⟩, fun r hr hin => hall r ?_⟩
    exact (mem_sortBy _).mpr (List.mem_filter.mpr ⟨hr, hin⟩)
  · have hr' := List.mem_filter.mp ((mem_sortBy _).mp hr)
    exact .inr ⟨e, he, r, hr'.1, hr'.2, hn⟩

end Loading

end Meridian.Reconciliation
