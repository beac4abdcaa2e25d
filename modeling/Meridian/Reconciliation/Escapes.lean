import Meridian.Python.Json
import Meridian.Reconciliation.Duplicates
import Meridian.Reconciliation.MinorUnits

/-!
# What escapes a reconciliation

`reconcile` is to raise `ReconciliationAbort` and nothing else (`OnlyAborts`). A sequence does that
where its parts do (`onlyAborts_bind`), so the runs that do are found by going through the code:
`NoCrash` has a field for each step that can raise something else, on what that step is given.

`reconcile` leaves its message texts open; `reconcileRendered` is the code with the two that format
an integer of any size, of which `str` takes no more than 4300 digits.
-/

namespace Meridian.Reconciliation

open Python

/-! ## The texts -/

/-- `str(n)`. -/
def printed (n : Int) : E Text :=
  if maxStrDigits < (Nat.digits 10 n.natAbs).length then .error .valueError
  else .ok (Item.intText n)

def Printable (n : Int) : Prop := (Nat.digits 10 n.natAbs).length ≤ maxStrDigits

instance (n : Int) : Decidable (Printable n) := inferInstanceAs (Decidable (_ ≤ _))

/-- The text of a break's `detail`. -/
def Detail.text : Detail → E Text
  | .neverCaptured => .ok "credited, never captured".toList
  | .neverCredited => .ok "captured, never credited".toList
  | .refund => .ok "settlement refund the payments table cannot represent".toList
  | .amounts ledger settlement processorRef settlementDate => do
    let ledger ← printed ledger
    let settlement ← printed settlement
    pure ("ledger ".toList ++ ledger ++ " minor units vs settlement ".toList ++ settlement ++
      " minor units (".toList ++ processorRef ++ ", ".toList ++ isoDate settlementDate ++ [')'])

/-- What a refused tolerance is printed as, in the message of its abort. -/
def Run.refusal (x : Run) : E Text :=
  if x.toleranceDays < 0 then printed x.toleranceDays else .ok []

/-- `reconcile`, with the texts formatted. -/
def reconcileRendered (x : Run) : E ReconciliationResult := do
  -- the message is formatted before its abort is raised
  let _ ← x.refusal
  let r ← reconcile x
  let _ ← r.breaks.mapM fun b => b.detail.text
  pure r

/-! ## The command -/

/-- `_parse_date` of an argument that is given; `none` is its abort. -/
def dateArgument : Option Text → Option (Option Int)
  | some (c :: t) => (parseDate (c :: t)).map some
  | _ => some none

/-- The run that `main` asks for in an environment. -/
def Run.called (x : Run) (fromDate toDate : Option Text) : Option Run := do
  let fromDate ← dateArgument fromDate
  let toDate ← dateArgument toDate
  pure { x with fromDate := fromDate, toDate := toDate, settlementPath := none }

/-- `EXIT_ABORT`. -/
def exitAbort : Nat := 2

/-- `main`, `report` being how it writes the document and the summary. -/
def main (report : ReconciliationResult → E Unit) (x : Run) (fromDate toDate : Option Text) :
    E Nat :=
  match x.called fromDate toDate with
  | none => .ok exitAbort
  | some y =>
    match reconcileRendered y with
    | .error (.abort _) => .ok exitAbort
    | .error e => .error e
    | .ok r => do
      report r
      pure r.exitCode

/-- `sys.exit(main())`: an exception nothing catches ends the interpreter with 1. -/
def status : E Nat → Nat
  | .ok n => n
  | .error _ => 1

/-! ## Raising nothing but aborts -/

/-- The computation returns or aborts. -/
def OnlyAborts {α : Type} (x : E α) : Prop := ∀ e, x = .error e → ∃ a, e = .abort a

section OnlyAborts

variable {α β : Type} {x : E α} {e : Exc} {o : Option α}

@[simp] theorem onlyAborts_ok (a : α) : OnlyAborts (.ok a : E α) := nofun

@[simp] theorem onlyAborts_pure (a : α) : OnlyAborts (pure a : E α) := nofun

@[simp] theorem onlyAborts_error : OnlyAborts (.error e : E α) ↔ ∃ a, e = .abort a := by
  simp [OnlyAborts]

@[simp] theorem onlyAborts_abortIf {c : Prop} [Decidable c] {a : Abort} :
    OnlyAborts (abortIf c a) := by
  unfold abortIf
  split_ifs <;> simp

theorem orRaise_eq_ok {a : α} : orRaise e o = .ok a ↔ o = some a := by
  cases o <;> simp [orRaise]

theorem abortIf_eq_ok {c : Prop} [Decidable c] {a : Abort} {u : Unit} :
    abortIf c a = .ok u ↔ ¬ c := by
  unfold abortIf
  split_ifs with h <;> simp [h]

theorem onlyAborts_orRaise_abort {a : Abort} : OnlyAborts (orRaise (.abort a) o) := by
  cases o <;> simp [orRaise]

theorem onlyAborts_orRaise_valueError : OnlyAborts (orRaise .valueError o) ↔ o.isSome = true := by
  cases o <;> simp [orRaise]

theorem onlyAborts_orRaise_overflowError :
    OnlyAborts (orRaise .overflowError o) ↔ o.isSome = true := by
  cases o <;> simp [orRaise]

/-- A sequence only aborts where its first part does, and what follows on what that returned. -/
theorem onlyAborts_bind {k : α → E β} :
    OnlyAborts (x >>= k) ↔ OnlyAborts x ∧ ∀ a, x = .ok a → OnlyAborts (k a) := by
  cases x with
  | ok a =>
    rw [bind_of_ok rfl]
    simp
  | error e =>
    have hraise : (Except.error e : E α) >>= k = .error e := rfl
    rw [hraise]
    simp

/-- Code that never aborts only aborts when it returns. -/
theorem onlyAborts_iff_of_no_abort (h : ∀ a, x ≠ .error (.abort a)) :
    OnlyAborts x ↔ ¬ Raises x := by
  constructor
  · rintro hx ⟨e, he⟩
    obtain ⟨a, rfl⟩ := hx e he
    exact h a he
  · exact fun hx e he => absurd ⟨e, he⟩ hx

end OnlyAborts

/-! ## One row -/

/-- The loan id is one that `int` reads: `isdigit` also accepts other digits, and any number of
them. -/
def IntReads (t : Text) : Prop := (∀ c ∈ t, (digit? c).isSome) ∧ t.length ≤ maxStrDigits

/-- What the context keeps of the amount's hundredfold has at most a million digits before its
point. -/
def AmountInRange (t : Text) : Prop :=
  plainDecimal t = true →
    Decimal.keptDigits (plainCoeff t * 100) (decimalPlaces t).length ≤
      1000000 + (decimalPlaces t).length

/-- What passes the checks before `int(raw_loan)` reads, and so does the amount after it. -/
def RowReads (raw : Text → Option Text) : Prop :=
  (∀ c ∈ requiredColumns, stripped raw c ≠ []) →
  (parseDate (stripped raw settlementDateColumn)).isSome →
  (stripped raw loanIdColumn).all isDigit = true →
  (rowType? (stripped raw typeColumn)).isSome →
  IntReads (stripped raw loanIdColumn) ∧ AmountInRange (stripped raw amountColumn)

section Row

variable {t : Text} {raw : Text → Option Text} {source : Source}

theorem isSpace_of_isDigit {c : Char} (h : isDigit c = true) : isSpace c = false := by
  rcases Bool.or_eq_true _ _ ▸ h with hdigit | hother
  · obtain ⟨d, hd⟩ := Option.isSome_iff_exists.mp hdigit
    exact isSpace_of_digit hd
  · have hapart : ∀ q ∈ otherDigits, ∀ r ∈ spaces, q.2 < r.1 ∨ r.2 < q.1 := by decide
    obtain ⟨q, hq, hin⟩ := List.any_eq_true.mp hother
    simp only [Bool.and_eq_true, decide_eq_true_eq] at hin
    unfold isSpace inRuns
    rw [List.any_eq_false]
    intro r hr
    have := hapart q hq r hr
    simp only [Bool.and_eq_true, decide_eq_true_eq]
    omega

/-- Without underscores `int` reads digit by digit. -/
theorem intDigits_of_digits (ht : t ≠ []) (h : ∀ c ∈ t, isDigit c = true) :
    intDigits t = t.mapM digit? := by
  induction t with
  | nil => exact absurd rfl ht
  | cons c t ih =>
    cases t with
    | nil => cases hc : digit? c <;> simp [intDigits, hc]
    | cons d t =>
      have hd : d ≠ '_' := by
        rintro rfl
        exact absurd (h '_' (by simp)) (by decide)
      have hrest := ih (by simp) fun x hx => h x (List.mem_cons_of_mem _ hx)
      rw [List.mapM_cons, ← hrest, intDigits]
      · cases digit? c with
        | none => rfl
        | some n => cases intDigits (d :: t) <;> rfl
      · exact nofun
      · exact fun u hu => hd (List.cons.inj hu).1

theorem mapM_digit?_isSome : (t.mapM digit?).isSome ↔ ∀ c ∈ t, (digit? c).isSome := by
  induction t with
  | nil => simp
  | cons c t ih =>
    rw [List.mapM_cons, List.forall_mem_cons, ← ih]
    cases digit? c <;> cases t.mapM digit? <;> simp

theorem length_mapM_digit? {ds : List Nat} (h : t.mapM digit? = some ds) : ds.length = t.length := by
  induction t generalizing ds with
  | nil =>
    cases h
    rfl
  | cons c t ih =>
    rw [List.mapM_cons] at h
    cases hc : digit? c with
    | none => simp [hc] at h
    | some d =>
      cases ht : t.mapM digit? with
      | none => simp [hc, ht] at h
      | some es =>
        simp only [hc, ht, Option.bind_eq_bind, Option.bind_some, Option.pure_def,
          Option.some.injEq] at h
        subst h
        simp [ih ht]

/-- What `isdigit` accepts, `int` reads exactly when it is decimal digits within the limit. -/
theorem parseInt_isSome (ht : t ≠ []) (h : ∀ c ∈ t, isDigit c = true) :
    (parseInt t).isSome ↔ IntReads t := by
  have hspace : strip t = t := strip_eq fun c hc => isSpace_of_isDigit (h c hc)
  have hsign : (takeSign t).2 = t := by
    unfold takeSign
    split
    · exact absurd (h '-' (by simp)) (by decide)
    · exact absurd (h '+' (by simp)) (by decide)
    · rfl
  unfold parseInt IntReads
  rw [hspace, hsign, intDigits_of_digits ht h, ← mapM_digit?_isSome]
  cases hds : t.mapM digit? with
  | none => simp
  | some ds =>
    rw [← length_mapM_digit? hds]
    simp

theorem minorUnits_notPlain (h : plainDecimal (strip t) = false) : minorUnits source (some t) =
    .error (.abort (.amountNotPlain source (strip t))) := by
  unfold minorUnits
  dsimp only
  rw [if_pos h]

theorem minorUnits_onlyAborts (t : Text) :
    OnlyAborts (minorUnits source (some t)) ↔ AmountInRange (strip t) := by
  unfold AmountInRange
  by_cases hplain : plainDecimal (strip t) = true
  · rw [imp_iff_right hplain]
    rcases Decimal.fix_places (plainCoeff (strip t) * 100) (decimalPlaces (strip t)).length with
      ⟨hfix, hlarge, -⟩ | ⟨d, hfix, -, hkept, -⟩
    · rw [minorUnits_signal hplain hfix]
      exact iff_of_false (by simp) (not_le.mpr hlarge)
    · rw [minorUnits_scaled hplain hfix]
      refine iff_of_true ?_ hkept
      split_ifs <;> simp
  · refine iff_of_true ?_ fun h => absurd h hplain
    rw [minorUnits_notPlain (by simpa using hplain)]
    simp

/-- A row only aborts exactly when it reads. -/
theorem parseSettlementRow_onlyAborts :
    OnlyAborts (parseSettlementRow raw source) ↔ RowReads raw := by
  unfold parseSettlementRow RowReads
  cases hmissing : requiredColumns.find? fun c => (stripped raw c).isEmpty with
  | some column =>
    have hc := List.find?_some hmissing
    refine iff_of_true (by simp [onlyAborts_bind]) fun hall => ?_
    exact absurd (List.isEmpty_iff.mp hc) (hall column (List.mem_of_find?_eq_some hmissing))
  | none =>
    have hall : ∀ c ∈ requiredColumns, stripped raw c ≠ [] := by
      intro c hc
      simpa using List.find?_eq_none.mp hmissing c hc
    have hloanText : stripped raw loanIdColumn ≠ [] := hall loanIdColumn (by decide)
    have hamount : ∃ t, raw amountColumn = some t ∧ stripped raw amountColumn = strip t := by
      cases ht : raw amountColumn with
      | none => exact absurd (by simp [stripped, ht, strip]) (hall amountColumn (by decide))
      | some t => exact ⟨t, rfl, by simp [stripped, ht]⟩
    obtain ⟨t, ht, hstripped⟩ := hamount
    simp only [onlyAborts_bind, onlyAborts_orRaise_abort, onlyAborts_abortIf, onlyAborts_pure, ht,
      minorUnits_onlyAborts, orRaise_eq_ok, abortIf_eq_ok, onlyAborts_orRaise_valueError, ← hstripped,
      true_and, implies_true, and_true]
    constructor
    · intro h _ hdate hdigits htype
      obtain ⟨day, hday⟩ := Option.isSome_iff_exists.mp hdate
      obtain ⟨rowType, hrow⟩ := Option.isSome_iff_exists.mp htype
      obtain ⟨hloan, hin⟩ := h day hday () (by simpa using hdigits) rowType hrow
      obtain ⟨n, hn⟩ := Option.isSome_iff_exists.mp hloan
      exact ⟨(parseInt_isSome hloanText (List.all_eq_true.mp hdigits)).mp hloan, hin n hn⟩
    · intro h day hday _ hdigits rowType hrow
      rw [Bool.not_eq_false] at hdigits
      obtain ⟨hloan, hin⟩ := h hall (by simp [hday]) hdigits (by simp [hrow])
      exact ⟨(parseInt_isSome hloanText (List.all_eq_true.mp hdigits)).mpr hloan, fun _ _ => hin⟩

end Row

/-! ## The file -/

/-- Each record that the rows above it let the loop reach reads. -/
def RecordsRead (path : Text) (columns : List Text) (n : Nat) (ls : List CsvLine) : Prop :=
  ∀ above cells below, ls = above ++ .record cells :: below → cells ≠ [] →
    ¬ Raises (parseRows path columns n above) → RowReads (cell columns cells)

/-- The lines after the header read, when it has every column. -/
def FileReads (path : Text) : SettlementFile → Prop
  | .lines (.record header :: ls) =>
    (∀ c ∈ requiredColumns, header.contains c = true) → RecordsRead path header 2 ls
  | _ => True

section File

variable {path : Text} {columns : List Text} {ls : List CsvLine} {n : Nat}

theorem recordsRead_blank :
    RecordsRead path columns n (.record [] :: ls) ↔ RecordsRead path columns n ls := by
  constructor
  · intro h above cells below heq hcells hreach
    exact h (.record [] :: above) cells below (by rw [heq]; rfl) hcells hreach
  · intro h above cells below heq hcells hreach
    cases above with
    | nil =>
      cases heq
      exact absurd rfl hcells
    | cons a above =>
      obtain ⟨rfl, rfl⟩ := List.cons.inj heq
      exact h above cells below rfl hcells hreach

theorem recordsRead_record {cells : List Text} (hcells : cells ≠ []) :
    RecordsRead path columns n (.record cells :: ls) ↔ RowReads (cell columns cells) ∧
      ∀ row, parseSettlementRow (cell columns cells) (.line path n) = .ok row →
        RecordsRead path columns (n + 1) ls := by
  have hstep : ∀ above, parseRows path columns n (.record cells :: above) =
      parseSettlementRow (cell columns cells) (.line path n) >>= fun row =>
        parseRows path columns (n + 1) above >>= fun rows => pure (row :: rows) := by
    intro above
    rw [parseRows]
    simpa using hcells
  constructor
  · intro h
    refine ⟨h [] cells ls rfl hcells (not_raises_ok _), ?_⟩
    intro row hrow above cells' below heq hcells' hreach
    refine h (.record cells :: above) cells' below (by rw [heq]; rfl) hcells' ?_
    obtain ⟨rows, hrows⟩ := not_raises_iff.mp hreach
    rw [hstep, hrow, bind_of_ok rfl, hrows]
    exact not_raises_ok _
  · rintro ⟨hrow, hrest⟩ above cells' below heq hcells' hreach
    cases above with
    | nil =>
      cases heq
      exact hrow
    | cons a above =>
      obtain ⟨rfl, rfl⟩ := List.cons.inj heq
      rw [hstep, not_raises_iff] at hreach
      obtain ⟨_, hreach⟩ := hreach
      obtain ⟨row, hok, hreach⟩ := of_bind_ok hreach
      obtain ⟨rows, hrows, -⟩ := of_bind_ok hreach
      exact hrest row hok above cells' below rfl hcells' (not_raises_iff.mpr ⟨rows, hrows⟩)

theorem parseRows_onlyAborts :
    OnlyAborts (parseRows path columns n ls) ↔ RecordsRead path columns n ls := by
  induction ls generalizing n with
  | nil => exact iff_of_true (by simp [parseRows]) (by simp [RecordsRead])
  | cons l ls ih =>
    cases l with
    | broken =>
      refine iff_of_true (by simp [parseRows]) fun above cells below heq _ hreach => ?_
      cases above with
      | nil => cases heq
      | cons a above =>
        obtain ⟨rfl, -⟩ := List.cons.inj heq
        exact absurd (raises_error _) hreach
    | record cells =>
      cases cells with
      | nil =>
        rw [recordsRead_blank, ← ih]
        rfl
      | cons c cells =>
        rw [recordsRead_record (by simp), ← @parseSettlementRow_onlyAborts _ (.line path n),
          parseRows]
        · simp only [onlyAborts_bind, onlyAborts_pure, implies_true, and_true, ih]
        · simp

theorem loadSettlement_onlyAborts (f : SettlementFile) :
    OnlyAborts (loadSettlement path f) ↔ FileReads path f := by
  cases f with
  | absent => simp [loadSettlement, FileReads]
  | lines ls =>
    cases ls with
    | nil =>
      simp [loadSettlement, FileReads, onlyAborts_bind, abortIf_eq_ok, requiredColumns]
    | cons l ls =>
      cases l with
      | broken => simp [loadSettlement, FileReads]
      | record header =>
        have hcolumns : requiredColumns.filter (fun c => !header.contains c) = [] ↔
            ∀ c ∈ requiredColumns, header.contains c = true := by
          simp [List.filter_eq_nil_iff]
        simp only [loadSettlement, FileReads, onlyAborts_bind, onlyAborts_abortIf, onlyAborts_pure,
          List.tail_cons, implies_true, and_true, true_and, abortIf_eq_ok, not_not,
          parseRows_onlyAborts, hcolumns, forall_const]

end File

/-! ## The ledger -/

/-- The calendar has the window widened by some days, and the day after it. -/
def Reaches (windowFrom windowTo days : Int) : Prop :=
  days ≤ maxDays ∧ 1 ≤ windowFrom - days ∧ windowTo + days < maxOrdinal

section Ledger

variable {f t : Int} {days : Int}

theorem addDays_isSome {d n : Int} :
    (addDays d n).isSome ↔ -maxDays ≤ n ∧ n ≤ maxDays ∧ 1 ≤ d + n ∧ d + n ≤ maxOrdinal := by
  unfold addDays
  split_ifs with h <;> simp [h]

/-- The text of a stored amount is never out of range. -/
theorem minorUnits_double (source : Source) (x : Double) :
    OnlyAborts (minorUnits source (some x.repr)) := by
  cases x with
  | finite f =>
    have hread := minorUnits_repr source f
    by_cases hplain : PlainCents f.repr
    · rw [if_pos hplain] at hread
      obtain ⟨m, hm, -⟩ := hread
      rw [Double.repr, hm]
      exact onlyAborts_ok m
    · rw [if_neg hplain] at hread
      obtain ⟨a, ha⟩ := hread
      rw [Double.repr, ha]
      exact onlyAborts_error.mpr ⟨a, rfl⟩
  | infinite neg =>
    rw [minorUnits_notPlain (by cases neg <;> decide)]
    simp
  | nan =>
    rw [minorUnits_notPlain (by decide)]
    simp

theorem printable_of_lt {n : Int} (h : |n| < 10 ^ 22) : Printable n := by
  have hlt : n.natAbs < 10 ^ 22 := by
    rw [Int.abs_eq_natAbs] at h
    exact_mod_cast h
  exact ((Nat.digits_length_le_iff (by decide) _).mpr hlt).trans (by decide)

/-- A ledger row's amount is a double's, and those can be printed. -/
theorem typedRow_printable {r : PaymentRow} {l : LedgerRow} (h : typedRow r = some l) :
    Printable l.amountMinor := by
  have hread : ∀ m, minorUnits (.payment r.id) (some r.amount.repr) = .ok m → Printable m := by
    intro m hm
    cases hx : r.amount with
    | finite f =>
      rw [hx] at hm
      obtain ⟨hnonneg, hlt⟩ := minorUnits_repr_lt hm
      exact printable_of_lt (by rwa [abs_of_nonneg hnonneg])
    | infinite neg =>
      rw [hx, minorUnits_notPlain (by cases neg <;> decide)] at hm
      cases hm
    | nan =>
      rw [hx, minorUnits_notPlain (by decide)] at hm
      cases hm
  unfold typedRow at h
  split at h
  · rename_i hm
    cases h
    exact hread _ hm
  · cases h

theorem ledgerRow_onlyAborts (r : PaymentRow) : OnlyAborts (ledgerRow f t r) := by
  have hamount := minorUnits_double (.payment r.id) r.amount
  unfold ledgerRow
  cases r.createdAt with
  | none => simp
  | some createdAt =>
    cases r.loanId with
    | none => simp
    | some loanId =>
      dsimp only
      split_ifs with hout
      · exact onlyAborts_ok none
      · cases hm : minorUnits (.payment r.id) (some r.amount.repr) with
        | error e => exact onlyAborts_error.mpr (hamount e hm)
        | ok m => exact onlyAborts_ok _

theorem ledgerRows_onlyAborts (rs : List PaymentRow) : OnlyAborts (ledgerRows f t rs) := by
  induction rs with
  | nil => simp [ledgerRows]
  | cons r rs ih =>
    rw [ledgerRows]
    simp only [onlyAborts_bind, ledgerRow_onlyAborts, ih, onlyAborts_pure, implies_true, and_true]

theorem loadLedger_onlyAborts (payments : Payments) :
    OnlyAborts (loadLedger payments f t) ↔ (addDays t 1).isSome := by
  simp only [loadLedger, onlyAborts_bind, onlyAborts_orRaise_overflowError,
    onlyAborts_orRaise_abort, ledgerRows_onlyAborts, implies_true, and_true]

theorem reaches_iff (hft : f ≤ t) (hdays : 0 ≤ days) : Reaches f t days ↔
    (addDays f (-days)).isSome ∧ (addDays t days).isSome ∧ (addDays (t + days) 1).isSome := by
  simp only [Reaches, addDays_isSome, maxDays, maxOrdinal]
  omega

/-- A window widened to both sides, its ledger, and what follows on that. -/
theorem widened_onlyAborts {α : Type} {k : Int → Int → List LedgerRow → E α} (payments : Payments)
    (hft : f ≤ t) (hdays : 0 ≤ days) :
    OnlyAborts (do
      let windowFrom ← orRaise .overflowError (addDays f (-days))
      let windowTo ← orRaise .overflowError (addDays t days)
      let rows ← loadLedger payments windowFrom windowTo
      k windowFrom windowTo rows) ↔ Reaches f t days ∧ ∀ windowFrom windowTo rows,
        addDays f (-days) = some windowFrom → addDays t days = some windowTo →
        loadLedger payments windowFrom windowTo = .ok rows →
        OnlyAborts (k windowFrom windowTo rows) := by
  simp only [onlyAborts_bind, onlyAborts_orRaise_overflowError, loadLedger_onlyAborts,
    orRaise_eq_ok, reaches_iff hft hdays]
  constructor
  · rintro ⟨hfrom, h⟩
    obtain ⟨windowFrom, hf⟩ := Option.isSome_iff_exists.mp hfrom
    obtain ⟨hto, -⟩ := h windowFrom hf
    obtain ⟨windowTo, ht⟩ := Option.isSome_iff_exists.mp hto
    have hload := ((h windowFrom hf).2 windowTo ht).1
    rw [(addDays_eq ht).1] at hload
    exact ⟨⟨hfrom, hto, hload⟩, fun a b rows ha hb => ((h a ha).2 b hb).2 rows⟩
  · rintro ⟨⟨hfrom, hto, hload⟩, h⟩
    refine ⟨hfrom, fun a ha => ⟨hto, fun b hb => ⟨?_, fun rows => h a b rows ha hb⟩⟩⟩
    rw [(addDays_eq hb).1]
    exact hload

end Ledger

/-! ## The runs that only abort -/

/-- The window of a run on the rows of its file. -/
def Run.windowFrom (x : Run) (rows : List SettlementRow) : Int := x.fromDate.getD (firstDate rows)
def Run.windowTo (x : Run) (rows : List SettlementRow) : Int := x.toDate.getD (lastDate rows)

/-- The threshold is short enough for `int` when it is a run of digits. -/
def ThresholdReads (s : Settings) : Prop :=
  plainInteger (strip s.reconciliationAlertThresholdMinor) = true →
    (strip s.reconciliationAlertThresholdMinor).length ≤ maxStrDigits

/-- A mismatch that the run reports pairs the capture. -/
def Comparison.Mismatched (y : Comparison) (c : SettlementRow) : Prop :=
  ∃ l, (l, c) ∈ y.matching.mismatches ∧
    (y.inWindow l.date || y.inWindow c.settlementDate) = true

/-- What every step of the run is given, it takes or refuses with an abort. -/
structure NoCrash (x : Run) : Prop where
  /-- A tolerance that is refused can be printed. -/
  tolerance : x.toleranceDays < 0 → Printable x.toleranceDays
  file : 0 ≤ x.toleranceDays → FileReads x.path (x.files x.path)
  window : ∀ rows, 0 ≤ x.toleranceDays → loadSettlement x.path (x.files x.path) = .ok rows →
    x.windowFrom rows ≤ x.windowTo rows →
    Reaches (x.windowFrom rows) (x.windowTo rows) x.toleranceDays
  threshold : ∀ y, x.comparison = .ok y → ThresholdReads x.settings
  /-- The calendar has the days around the window that duplicates are looked for in. -/
  margin : ∀ y threshold seconds, x.comparison = .ok y →
    alertThresholdMinor x.settings = .ok threshold →
    duplicateSuspectWindowSeconds x.settings = .ok seconds →
    Reaches y.windowFrom y.windowTo (seconds / 86400 + 1)
  /-- The captured amount of a mismatch can be printed; the ledger's always can. -/
  details : ∀ y threshold seconds rows, x.comparison = .ok y →
    alertThresholdMinor x.settings = .ok threshold →
    duplicateSuspectWindowSeconds x.settings = .ok seconds →
    loadLedger x.payments (y.windowFrom - (seconds / 86400 + 1))
      (y.windowTo + (seconds / 86400 + 1)) = .ok rows →
    ∀ c ∈ y.captureCandidates, y.Mismatched c → Printable c.amountMinor

section Run

variable {x : Run} {s : Settings}

theorem comparison_onlyAborts : OnlyAborts x.comparison ↔
    (0 ≤ x.toleranceDays → FileReads x.path (x.files x.path)) ∧
    ∀ rows, 0 ≤ x.toleranceDays → loadSettlement x.path (x.files x.path) = .ok rows →
      x.windowFrom rows ≤ x.windowTo rows →
      Reaches (x.windowFrom rows) (x.windowTo rows) x.toleranceDays := by
  unfold Run.comparison
  rw [onlyAborts_bind]
  by_cases htol : x.toleranceDays < 0
  · refine iff_of_true ⟨onlyAborts_abortIf, fun _ hok => absurd htol (abortIf_ok hok)⟩ ?_
    exact ⟨fun h => absurd htol (not_lt.mpr h), fun _ h => absurd htol (not_lt.mpr h)⟩
  have htol := not_lt.mp htol
  simp only [onlyAborts_abortIf, abortIf_eq_ok, not_lt.mpr htol, htol, not_false_eq_true, true_and,
    forall_const]
  rw [onlyAborts_bind, loadSettlement_onlyAborts]
  refine and_congr_right' (forall_congr' fun rows => imp_congr_right fun _ => ?_)
  rw [onlyAborts_bind]
  simp only [onlyAborts_abortIf, abortIf_eq_ok, not_lt, true_and, forall_const]
  refine imp_congr_right fun hft => ?_
  rw [widened_onlyAborts x.payments hft htol]
  simp [Run.windowFrom, Run.windowTo]

theorem plainInteger_digits {t : Text} (h : plainInteger t = true) :
    t ≠ [] ∧ ∀ c ∈ t, (digit? c).isSome := by
  unfold plainInteger at h
  rw [Bool.and_eq_true] at h
  refine ⟨?_, fun c hc => (mem_takeDigits hc).resolve_right ?_⟩
  · rintro rfl
    exact absurd h.1 (by decide)
  · rw [List.isEmpty_iff.mp h.2]
    exact List.not_mem_nil

theorem alertThresholdMinor_onlyAborts : OnlyAborts (alertThresholdMinor s) ↔ ThresholdReads s := by
  unfold alertThresholdMinor ThresholdReads
  dsimp only
  generalize strip s.reconciliationAlertThresholdMinor = t
  by_cases hplain : plainInteger t = true
  · obtain ⟨hne, hdigits⟩ := plainInteger_digits hplain
    have hread := parseInt_isSome hne fun c hc => by simp [isDigit, hdigits c hc]
    have hlength : (parseInt t).isSome ↔ t.length ≤ maxStrDigits :=
      hread.trans (and_iff_right hdigits)
    rw [if_neg (by simpa using hne), if_neg (by simp [hplain]), ← hlength]
    cases parseInt t with
    | none => simp [hplain]
    | some threshold =>
      dsimp only
      split_ifs <;> simp
  · refine iff_of_true ?_ fun h => absurd h hplain
    by_cases hne : t.isEmpty = true
    · rw [if_pos hne]
      simp
    · rw [if_neg hne, if_pos (by simpa using hplain)]
      simp

theorem duplicateSuspectWindowSeconds_onlyAborts :
    OnlyAborts (duplicateSuspectWindowSeconds s) := by
  unfold duplicateSuspectWindowSeconds
  dsimp only
  split_ifs
  · simp
  · cases parseInt (strip s.duplicateSuspectWindowSeconds) with
    | none => simp
    | some seconds =>
      dsimp only
      split_ifs <;> simp

theorem printed_raises {n : Int} : Raises (printed n) ↔ ¬ Printable n := by
  unfold printed Printable
  split_ifs with h <;> simp [h]

theorem printed_ok_iff {n : Int} : (∃ t, printed n = .ok t) ↔ Printable n := by
  rw [← not_raises_iff, printed_raises, not_not]

/-- The detail of a mismatch formats exactly when its amounts can be printed. -/
theorem amountMismatch_raises (z : LedgerRow × SettlementRow) :
    Raises (Break.amountMismatch z).detail.text ↔
      ¬ (Printable z.1.amountMinor ∧ Printable z.2.amountMinor) := by
  simp only [Break.amountMismatch, Detail.text, raises_bind, printed_raises]
  by_cases hl : Printable z.1.amountMinor
  · obtain ⟨t, ht⟩ := printed_ok_iff.mpr hl
    simp [hl, ht]
  · simp [hl]

/-- A break's detail is formatted unless it is a mismatch of too large amounts. -/
theorem details_raise (y : Comparison) : Raises (y.breaks.mapM fun b => b.detail.text) ↔
    ∃ z ∈ y.matching.mismatches, (y.inWindow z.1.date || y.inWindow z.2.settlementDate) = true ∧
      ¬ (Printable z.1.amountMinor ∧ Printable z.2.amountMinor) := by
  rw [raises_mapM]
  constructor
  · rintro ⟨b, hb, hraise⟩
    rcases Comparison.mem_breaks.mp hb with ⟨l, -, -, rfl⟩ | ⟨c, -, -, rfl⟩ | ⟨c, -, rfl⟩ |
      ⟨z, hz, hin, rfl⟩
    · exact absurd hraise (not_raises_ok _)
    · exact absurd hraise (not_raises_ok _)
    · exact absurd hraise (not_raises_ok _)
    · exact ⟨z, hz, hin, (amountMismatch_raises z).mp hraise⟩
  · rintro ⟨z, hz, hin, hraise⟩
    exact ⟨_, Comparison.mem_breaks.mpr (.inr (.inr (.inr ⟨z, hz, hin, rfl⟩))),
      (amountMismatch_raises z).mpr hraise⟩

theorem printed_error {n : Int} {e : Exc} (h : printed n = .error e) : e = .valueError := by
  unfold printed at h
  split_ifs at h
  cases h
  rfl

theorem Detail.text_error {d : Detail} {e : Exc} (h : d.text = .error e) : e = .valueError := by
  cases d with
  | neverCaptured => cases h
  | neverCredited => cases h
  | refund => cases h
  | amounts ledger settlement ref date =>
    rcases of_bind_error h with hl | ⟨_, -, h⟩
    · exact printed_error hl
    · rcases of_bind_error h with hs | ⟨_, -, h⟩
      · exact printed_error hs
      · cases h

/-- The details are formatted when the captures of the mismatches can be printed. -/
theorem details_onlyAborts {y : Comparison} (hledger : ∀ l ∈ y.ledgerCandidates,
    Printable l.amountMinor) : OnlyAborts (y.breaks.mapM fun b => b.detail.text) ↔
      ∀ c ∈ y.captureCandidates, y.Mismatched c → Printable c.amountMinor := by
  rw [onlyAborts_iff_of_no_abort, details_raise]
  · constructor
    · rintro h c - ⟨l, hz, hin⟩
      exact by_contra fun hn => h ⟨(l, c), hz, hin, fun hprint => hn hprint.2⟩
    · rintro h ⟨z, hz, hin, hn⟩
      obtain ⟨hl, hc⟩ := Comparison.mem_mismatches hz
      exact hn ⟨hledger z.1 hl, h z.2 hc ⟨z.1, hz, hin⟩⟩
  · intro a h
    obtain ⟨b, -, hb⟩ := of_mapM_error h
    cases Detail.text_error hb

/-- The ledger's amounts of a run can be printed. -/
theorem ledger_printable {y : Comparison} (hy : x.comparison = .ok y) :
    ∀ l ∈ y.ledgerCandidates, Printable l.amountMinor := by
  intro l hl
  obtain ⟨rows, hreads⟩ := comparison_spec hy
  obtain ⟨r, -, hr⟩ := List.mem_filterMap.mp (List.mem_filter.mp (hreads.ledger.mem_iff.mp hl)).1
  exact typedRow_printable hr

/-- A run whose steps return and whose calendar has the margin returns. -/
theorem reconcile_of_steps {y : Comparison} {threshold seconds : Int} {rows : List LedgerRow}
    (hy : x.comparison = .ok y) (hthreshold : alertThresholdMinor x.settings = .ok threshold)
    (hseconds : duplicateSuspectWindowSeconds x.settings = .ok seconds)
    (hreaches : Reaches y.windowFrom y.windowTo (seconds / 86400 + 1))
    (hload : loadLedger x.payments (y.windowFrom - (seconds / 86400 + 1))
      (y.windowTo + (seconds / 86400 + 1)) = .ok rows) :
    reconcile x = .ok (y.result rows seconds threshold) := by
  obtain ⟨payments, hreads⟩ := comparison_spec hy
  have hpos := duplicateSuspectWindowSeconds_pos hseconds
  obtain ⟨hfrom, hto, -⟩ := (reaches_iff hreads.ordered (by omega)).mp hreaches
  obtain ⟨f, hf⟩ := Option.isSome_iff_exists.mp hfrom
  obtain ⟨t, ht⟩ := Option.isSome_iff_exists.mp hto
  obtain ⟨rfl, -, -⟩ := addDays_eq hf
  obtain ⟨rfl, -, -⟩ := addDays_eq ht
  unfold reconcile
  rw [bind_of_ok hy, bind_of_ok hthreshold, bind_of_ok hseconds, bind_of_ok (orRaise_eq_ok.mpr hf),
    bind_of_ok (orRaise_eq_ok.mpr ht), ← sub_eq_add_neg, bind_of_ok hload]
  rfl

theorem reconcile_onlyAborts : OnlyAborts (reconcile x) ↔ OnlyAborts x.comparison ∧
    ∀ y, x.comparison = .ok y → ThresholdReads x.settings ∧
      ∀ threshold, alertThresholdMinor x.settings = .ok threshold →
      ∀ seconds, duplicateSuspectWindowSeconds x.settings = .ok seconds →
        Reaches y.windowFrom y.windowTo (seconds / 86400 + 1) := by
  unfold reconcile
  rw [onlyAborts_bind]
  refine and_congr_right' (forall_congr' fun y => imp_congr_right fun hy => ?_)
  obtain ⟨rows, hreads⟩ := comparison_spec hy
  rw [onlyAborts_bind, alertThresholdMinor_onlyAborts]
  refine and_congr_right' (forall_congr' fun threshold => imp_congr_right fun _ => ?_)
  rw [onlyAborts_bind]
  simp only [duplicateSuspectWindowSeconds_onlyAborts, true_and]
  refine forall_congr' fun seconds => imp_congr_right fun hseconds => ?_
  have hpos := duplicateSuspectWindowSeconds_pos hseconds
  rw [widened_onlyAborts x.payments hreads.ordered (by omega)]
  simp

/-- A refused tolerance is formatted when it can be printed. -/
theorem refusal_onlyAborts :
    OnlyAborts x.refusal ↔ (x.toleranceDays < 0 → Printable x.toleranceDays) := by
  unfold Run.refusal
  by_cases htol : x.toleranceDays < 0
  · rw [if_pos htol, onlyAborts_iff_of_no_abort, printed_raises, not_not]
    · simp [htol]
    · intro a h
      cases printed_error h
  · rw [if_neg htol]
    simp [htol]

theorem reconcileRendered_onlyAborts : OnlyAborts (reconcileRendered x) ↔ NoCrash x := by
  have hrest : OnlyAborts (reconcileRendered x) ↔
      (x.toleranceDays < 0 → Printable x.toleranceDays) ∧
      ((x.toleranceDays < 0 → Printable x.toleranceDays) → OnlyAborts (reconcile x) ∧
        ∀ r, reconcile x = .ok r → OnlyAborts (r.breaks.mapM fun b => b.detail.text)) := by
    unfold reconcileRendered
    simp only [onlyAborts_bind, onlyAborts_pure, implies_true, and_true]
    rw [refusal_onlyAborts]
    refine and_congr_right fun hprint => ?_
    obtain ⟨t, ht⟩ : ∃ t, x.refusal = .ok t := by
      unfold Run.refusal
      by_cases htol : x.toleranceDays < 0
      · rw [if_pos htol]
        exact printed_ok_iff.mpr (hprint htol)
      · exact ⟨[], if_neg htol⟩
    exact ⟨fun h _ => h t ht, fun h _ _ => h hprint⟩
  rw [hrest, reconcile_onlyAborts, comparison_onlyAborts]
  constructor
  · rintro ⟨htol, h⟩
    obtain ⟨⟨⟨hfile, hwindow⟩, hrun⟩, hdetails⟩ := h htol
    refine ⟨htol, hfile, hwindow, fun y hy => (hrun y hy).1, ?_, ?_⟩
    · exact fun y threshold seconds hy ht hs => (hrun y hy).2 threshold ht seconds hs
    · intro y threshold seconds rows hy ht hs hload
      have hreaches := (hrun y hy).2 threshold ht seconds hs
      exact (details_onlyAborts (ledger_printable hy)).mp
        (hdetails _ (reconcile_of_steps hy ht hs hreaches hload))
  · intro h
    refine ⟨h.tolerance, fun _ => ⟨⟨⟨h.file, h.window⟩, fun y hy => ⟨h.threshold y hy, ?_⟩⟩, ?_⟩⟩
    · exact fun threshold ht seconds hs => h.margin y threshold seconds hy ht hs
    · intro r hr
      obtain ⟨y, threshold, seconds, rows, hy, ht, hs, hload, rfl⟩ := reconcile_steps hr
      exact (details_onlyAborts (ledger_printable hy)).mpr
        (h.details y threshold seconds rows hy ht hs hload)

end Run

/-! ## The exit code -/

/-- The command ends with 2 exactly when its run, if it got that far, has no result. -/
def Told (report : ReconciliationResult → E Unit) (x : Run) (fromDate toDate : Option Text) :
    Prop :=
  status (main report x fromDate toDate) = exitAbort ↔
    ∀ y, x.called fromDate toDate = some y → Raises (reconcileRendered y)

theorem exitCode_lt (r : ReconciliationResult) : r.exitCode < exitAbort := by
  unfold ReconciliationResult.exitCode exitAbort
  split_ifs <;> decide

theorem told_iff (report : ReconciliationResult → E Unit) (x : Run) (fromDate toDate : Option Text) :
    Told report x fromDate toDate ↔
      ∀ y, x.called fromDate toDate = some y → OnlyAborts (reconcileRendered y) := by
  unfold Told main
  cases x.called fromDate toDate with
  | none => simp [status]
  | some y =>
    simp only [Option.some.injEq, forall_eq']
    cases hy : reconcileRendered y with
    | error e =>
      cases e with
      | abort a => simp [status, onlyAborts_error]
      | valueError => simp [status, exitAbort]
      | overflowError => simp [status, exitAbort]
      | signal s => simp [status, exitAbort]
    | ok r =>
      have hlt := exitCode_lt r
      have hcode : status (report r >>= fun _ => pure r.exitCode) ≠ exitAbort := by
        cases report r with
        | error e => simp [status, exitAbort, bind, Except.bind]
        | ok u => exact hlt.ne
      exact iff_of_true (iff_of_false hcode (not_raises_ok r)) (onlyAborts_ok r)

/-- **Which runs could-not-check.** A run raises nothing but aborts, and the command's exit code says
whether it has a result, exactly when every step takes or refuses what it is given. -/
theorem only_aborts (x : Run) : (OnlyAborts (reconcileRendered x) ↔ NoCrash x) ∧
    ∀ report fromDate toDate, Told report x fromDate toDate ↔
      ∀ y, x.called fromDate toDate = some y → NoCrash y := by
  refine ⟨reconcileRendered_onlyAborts, fun report fromDate toDate => ?_⟩
  rw [told_iff]
  exact forall_congr' fun y => imp_congr_right fun _ => reconcileRendered_onlyAborts

/-- A capture on the loan "²". -/
def superscriptLoan : Run :=
  runOn [.record ["2026-05-31".toList, "a".toList, ['²'], "1.00".toList, "capture".toList]]
    [] 739767 739767 1

/-- **A crash, and exit code 1**: `isdigit` accepts a superscript that `int` refuses. -/
theorem superscript_crashes :
    ¬ ∀ x : Run, OnlyAborts (reconcileRendered x) ∧
      ∀ report fromDate toDate, Told report x fromDate toDate := by
  intro h
  have hraise : reconcileRendered superscriptLoan = .error .valueError := by decide +kernel
  obtain ⟨a, ha⟩ := (h superscriptLoan).1 _ hraise
  cases ha

end Meridian.Reconciliation
