import Meridian.Reconciliation.Agreement

/-!
# Adjacent windows

A run drops the candidates it leaves over outside its window: the window that contains them will
report them. But each run pairs the rows near the split anew and serves its own first, so one row
can be the partner of one row in the run before the split and of another in the run after it. Both
runs are then clean, and the run over both windows is not (`lost_break`).

* `NoneLost`: two clean runs over adjacent windows make the run over both clean.
* `Undisputed`: the candidates fall into parts with no exact pair between two of them, each of which
  has none across the split either, or a pairing with the nearest captures.
* `adjacent_windows`: nothing is lost where the candidates are undisputed; and nothing is lost for
  any ledger and file only with no tolerance, or where the range leaves the calendar.
-/

namespace Meridian.Reconciliation

open Python Assignment

/-- The run over the window of the given dates. -/
def Run.over (x : Run) (windowFrom windowTo : Int) : Run :=
  { x with fromDate := some windowFrom, toDate := some windowTo }

def CleanRun (x : Run) : Prop := ∃ r, reconcile x = .ok r ∧ Clean r.breaks

/-- **No break is lost** by splitting the window `[a, c]` after `b`. -/
def NoneLost (x : Run) (a b c : Int) : Prop :=
  CleanRun (x.over a b) → CleanRun (x.over (b + 1) c) →
    ∀ r, reconcile (x.over a c) = .ok r → Clean r.breaks

namespace Comparison

/-! ## One side of the split -/

/-- The run `w` over one side of the split, against the run `y` over both. -/
structure Half (side : Int → Bool) (w y : Comparison) : Prop where
  tolerance : w.toleranceDays = y.toleranceDays
  window : ∀ d, side d = true → w.inWindow d = y.inWindow d
  ledger : w.ledgerCandidates ⊆ y.ledgerCandidates
  captures : w.captureCandidates ⊆ y.captureCandidates
  sameLedger : (w.ledgerCandidates.filter fun l => side l.date).Perm
    (y.ledgerCandidates.filter fun l => side l.date)
  sameCaptures : (w.captureCandidates.filter fun c => side c.settlementDate).Perm
    (y.captureCandidates.filter fun c => side c.settlementDate)

section

variable {side : Int → Bool} {w y : Comparison} {p : LedgerRow → Bool} {q : SettlementRow → Bool}

/-- A filter that implies another one. -/
theorem filter_narrow {α : Type} {p s : α → Bool} (h : ∀ a, p a = true → s a = true) (l : List α) :
    (l.filter s).filter p = l.filter p := by
  rw [List.filter_filter]
  refine List.filter_congr fun a _ => ?_
  by_cases hp : p a = true
  · rw [hp, h a hp]
    rfl
  · simp [hp]

/-- A side's rows in the order they are served in. -/
theorem Half.served (h : Half side w y) (hp : ∀ l, p l = true → side l.date = true) :
    w.served.filter p = y.served.filter p := by
  refine filter_sortBy ?_ (fun l hl => ?_) fun l _ l' _ => ledgerKey_inj
  · have hperm := h.sameLedger.filter p
    rwa [filter_narrow hp, filter_narrow hp] at hperm
  · obtain ⟨hl, hpl⟩ := List.mem_filter.mp hl
    have hflag : l ∈ w.matchArgs.trueWindowLedger ↔ l ∈ y.matchArgs.trueWindowLedger := by
      rw [mem_trueWindowLedger hl, mem_trueWindowLedger (h.ledger hl), h.window _ (hp l hpl)]
    unfold ledgerKey
    rw [decide_eq_decide.mpr (not_congr hflag)]

theorem Half.offered (h : Half side w y) (hq : ∀ c, q c = true → side c.settlementDate = true) :
    w.offered.filter q = y.offered.filter q := by
  refine filter_sortBy ?_ (fun _ _ => rfl) fun c hc c' hc' => captureKey_inj ?_
  · have hperm := h.sameCaptures.filter q
    rwa [filter_narrow hq, filter_narrow hq] at hperm
  · rw [rowType_candidate (List.mem_filter.mp hc).1, rowType_candidate (List.mem_filter.mp hc').1]

/-- **A part of one side is paired alike** in the run over that side and in the run over both, when
no exact pair leaves it. -/
theorem Half.exact_filter (h : Half side w y) (hp : ∀ l, p l = true → side l.date = true)
    (hq : ∀ c, q c = true → side c.settlementDate = true)
    (hclosed : ∀ l ∈ y.ledgerCandidates, ∀ c ∈ y.captureCandidates,
      exactCandidate y.toleranceDays l c = true → p l = q c) :
    w.exact.left.filter p = y.exact.left.filter p ∧
    w.exact.right.filter q = y.exact.right.filter q := by
  have hw := exact_part (y := w) (p := p) (q := q) fun l hl c hc hok =>
    hclosed l (h.ledger hl) c (h.captures hc) (by rwa [← h.tolerance])
  rw [h.served hp, h.offered hq, h.tolerance] at hw
  have hrank : ∀ l ∈ y.served.filter p, ∀ c ∈ y.offered.filter q,
      rankCandidate w.matchArgs.trueWindowCaptures l c =
        rankCandidate y.matchArgs.trueWindowCaptures l c := by
    intro l _ c hc
    have hc' : c ∈ w.offered.filter q := by rwa [h.offered hq]
    obtain ⟨hcy, hqc⟩ := List.mem_filter.mp hc
    have hcw := (List.mem_filter.mp hc').1
    have hflag : c ∈ w.matchArgs.trueWindowCaptures ↔ c ∈ y.matchArgs.trueWindowCaptures := by
      rw [mem_trueWindowCaptures (mem_offered.mp hcw), mem_trueWindowCaptures (mem_offered.mp hcy),
        h.window _ (hq c hqc)]
    unfold rankCandidate
    rw [decide_eq_decide.mpr (not_congr hflag)]
  rw [assign_congr (fun _ _ _ _ => rfl) hrank, exact_part hclosed, Assigned.mk.injEq] at hw
  exact ⟨hw.2.1.symm, hw.2.2.symm⟩

end

/-- The run over a narrower window is a half of the run over the wider one, on the side of the dates
both windows treat alike. -/
theorem half_of_reads {x x' : Run} {w y : Comparison} {rows rows' : List PaymentRow}
    {side : Int → Bool} (hw : Reads x w rows) (hy : Reads x' y rows')
    (hfiles : loadSettlement x.path (x.files x.path) = loadSettlement x'.path (x'.files x'.path))
    (hpayments : x.payments = x'.payments) (htol : x.toleranceDays = x'.toleranceDays)
    (hfrom : y.windowFrom ≤ w.windowFrom) (hto : w.windowTo ≤ y.windowTo)
    (hside : ∀ d, side d = true → (w.inWindow d = y.inWindow d) ∧
      between (w.windowFrom - y.toleranceDays) (w.windowTo + y.toleranceDays) d =
        between (y.windowFrom - y.toleranceDays) (y.windowTo + y.toleranceDays) d) :
    Half side w y := by
  have htol : w.toleranceDays = y.toleranceDays := by rw [hw.tolerance, hy.tolerance, htol]
  have hall : w.allSettlement = y.allSettlement :=
    Except.ok.inj (hw.file.symm.trans (hfiles.trans hy.file))
  have hrows : rows = rows' :=
    Option.some.inj (hw.payments.symm.trans (hpayments.trans hy.payments))
  subst hrows
  have hwide : ∀ d,
      between (w.windowFrom - y.toleranceDays) (w.windowTo + y.toleranceDays) d = true →
      between (y.windowFrom - y.toleranceDays) (y.windowTo + y.toleranceDays) d = true := by
    intro d hd
    simp only [between, Bool.and_eq_true, decide_eq_true_eq] at hd ⊢
    omega
  have hL := hw.ledger
  rw [htol] at hL
  refine ⟨htol, fun d hd => (hside d hd).1, fun l hl => ?_, fun c hc => ?_, ?_, ?_⟩
  · have hl := List.mem_filter.mp (hL.mem_iff.mp hl)
    exact hy.ledger.mem_iff.mpr (List.mem_filter.mpr ⟨hl.1, hwide _ hl.2⟩)
  · unfold captureCandidates captures at hc ⊢
    rw [htol, hall] at hc
    simp only [List.mem_filter] at hc ⊢
    exact ⟨⟨hc.1.1, hwide _ hc.1.2⟩, hc.2⟩
  · refine (hL.filter _).trans (List.Perm.trans ?_ (hy.ledger.filter _).symm)
    rw [List.filter_filter, List.filter_filter, List.filter_congr fun l _ => ?_]
    cases hl : side l.date with
    | false => rfl
    | true => rw [(hside _ hl).2]
  · unfold captureCandidates captures
    rw [htol, hall, List.filter_filter, List.filter_filter, List.filter_filter, List.filter_filter,
      List.filter_congr fun c _ => ?_]
    cases hc : side c.settlementDate with
    | false => rfl
    | true => rw [(hside _ hc).2]

/-! ## Parts -/

/-- The candidates in parts; an exact pair lies within one. -/
structure Parts (y : Comparison) where
  ledger : LedgerRow → Nat
  capture : SettlementRow → Nat
  closed : ∀ l ∈ y.ledgerCandidates, ∀ c ∈ y.captureCandidates,
    exactCandidate y.toleranceDays l c = true → ledger l = capture c

namespace Parts

variable {y : Comparison}

/-- No exact pair of the part is one across the split after `b`. -/
def Uncontested (k : Parts y) (b : Int) (i : Nat) : Prop :=
  ∀ l ∈ y.ledgerCandidates, k.ledger l = i → ∀ c ∈ y.captureCandidates,
    exactCandidate y.toleranceDays l c = true → (l.date ≤ b ↔ c.settlementDate ≤ b)

/-- The part's rows have a pairing that gives each the best capture still open. -/
def Paired (k : Parts y) (i : Nat) : Prop :=
  ∃ pairs, Pairing y.toleranceDays (y.ledgerCandidates.filter fun l => k.ledger l = i)
      (y.captureCandidates.filter fun c => k.capture c = i) pairs ∧
    Nearest y.matchArgs pairs

/-- The exact pass leaves nothing of a paired part. -/
theorem Paired.none_left {k : Parts y} {i : Nat} (h : k.Paired i) :
    (∀ l ∈ y.exact.left, k.ledger l ≠ i) ∧ ∀ c ∈ y.exact.right, k.capture c ≠ i := by
  obtain ⟨pairs, hp, hn⟩ := h
  have hserved := (sortBy_perm (ledgerKey y.matchArgs.trueWindowLedger) y.ledgerCandidates).filter
    fun l => decide (k.ledger l = i)
  have hoffered := (sortBy_perm captureKey y.captureCandidates).filter
    fun c => decide (k.capture c = i)
  have hcand : ∀ c ∈ y.offered.filter fun c => k.capture c = i,
      c ∈ y.captureCandidates := fun c hc => mem_offered.mp (List.mem_filter.mp hc).1
  obtain ⟨hleft, hright⟩ := assign_nearest (a := y.matchArgs)
    ⟨hp.ledger.trans hserved.symm, hp.captures.trans hoffered.symm, hp.same⟩ hn
    ((sortBy_pairwise _ _).filter _)
    fun c hc c' hc' => trueWindow_congr (hcand c hc) (hcand c' hc')
  have hpart := exact_part (y := y) (p := fun l => k.ledger l = i) (q := fun c => k.capture c = i)
    fun l hl c hc hok => by rw [k.closed l hl c hc hok]
  have hleft := (congrArg Assigned.left hpart).symm.trans hleft
  have hright := (congrArg Assigned.right hpart).symm.trans hright
  constructor
  · intro l hl
    simpa using List.filter_eq_nil_iff.mp hleft l hl
  · intro c hc
    simpa using List.filter_eq_nil_iff.mp hright c hc

/-- What the exact pass leaves of an uncontested part, the run over its half leaves too. -/
theorem Uncontested.left_of_half {k : Parts y} {b : Int} {i : Nat} (h : k.Uncontested b i)
    {side : Int → Bool} (hside : ∀ d e, (d ≤ b ↔ e ≤ b) → side d = side e) {w : Comparison}
    (hw : Half side w y) :
    (∀ l ∈ y.exact.left, k.ledger l = i → side l.date = true → l ∈ w.exact.left) ∧
    ∀ c ∈ y.exact.right, k.capture c = i → side c.settlementDate = true → c ∈ w.exact.right := by
  obtain ⟨hleft, hright⟩ := hw.exact_filter (p := fun l => k.ledger l = i && side l.date)
    (q := fun c => k.capture c = i && side c.settlementDate) (by simp) (by simp)
    fun l hl c hc hok => by
      have hpart := k.closed l hl c hc hok
      by_cases hi : k.ledger l = i
      · rw [← hpart, hside _ _ (h l hl hi c hc hok)]
      · simp [← hpart, hi]
  constructor
  · intro l hl hi hd
    exact (List.mem_filter.mp (hleft ▸ List.mem_filter.mpr ⟨hl, by simp [hi, hd]⟩)).1
  · intro c hc hi hd
    exact (List.mem_filter.mp (hright ▸ List.mem_filter.mpr ⟨hc, by simp [hi, hd]⟩)).1

/-- No row of an uncontested part is reported when neither half reports one. -/
theorem Uncontested.none_left {k : Parts y} {b : Int} {i : Nat} (h : k.Uncontested b i)
    {w w' : Comparison} (hw : Half (fun d => d ≤ b) w y) (hw' : Half (fun d => b < d) w' y)
    (hclean : Clean w.breaks) (hclean' : Clean w'.breaks) :
    (∀ l ∈ y.exact.left, k.ledger l = i → y.inWindow l.date = false) ∧
    ∀ c ∈ y.exact.right, k.capture c = i → y.inWindow c.settlementDate = false := by
  have hbefore := h.left_of_half (fun d e hde => decide_eq_decide.mpr hde) hw
  have hafter := h.left_of_half (fun d e hde => decide_eq_decide.mpr (by omega)) hw'
  obtain ⟨hl₁, hc₁⟩ := clean_iff.mp hclean
  obtain ⟨hl₂, hc₂⟩ := clean_iff.mp hclean'
  constructor
  · intro l hl hi
    by_cases hd : l.date ≤ b
    · rw [← hw.window _ (by simpa using hd)]
      exact hl₁ l (hbefore.1 l hl hi (by simpa using hd))
    · rw [← hw'.window _ (by simpa using hd)]
      exact hl₂ l (hafter.1 l hl hi (by simpa using hd))
  · intro c hc hi
    by_cases hd : c.settlementDate ≤ b
    · rw [← hw.window _ (by simpa using hd)]
      exact hc₁ c (hbefore.2 c hc hi (by simpa using hd))
    · rw [← hw'.window _ (by simpa using hd)]
      exact hc₂ c (hafter.2 c hc hi (by simpa using hd))

end Parts

end Comparison

/-- The candidates of the run over `[a, c]` fall into parts, each uncontested at `b` or paired. -/
def Undisputed (x : Run) (a b c : Int) : Prop :=
  ∀ y, (x.over a c).comparison = .ok y →
    ∃ k : Comparison.Parts y, ∀ i, k.Uncontested b i ∨ k.Paired i

section Split

open Comparison

variable {x : Run} {w y : Comparison} {rows rows' : List PaymentRow} {a b c : Int}

theorem half_before (hw : Reads (x.over a b) w rows) (hy : Reads (x.over a c) y rows')
    (hbc : b ≤ c) : Half (fun d => d ≤ b) w y := by
  have hfrom := (hw.fromDate a rfl).trans (hy.fromDate a rfl).symm
  have hto := hw.toDate b rfl
  have hto' := hy.toDate c rfl
  have hnonneg := hy.nonneg
  refine half_of_reads hw hy rfl rfl rfl (by omega) (by omega) fun d hd => ?_
  have hd : d ≤ b := by simpa using hd
  unfold inWindow between
  rw [hfrom, decide_eq_true (by omega : d ≤ w.windowTo), decide_eq_true (by omega : d ≤ y.windowTo),
    decide_eq_true (by omega : d ≤ w.windowTo + y.toleranceDays),
    decide_eq_true (by omega : d ≤ y.windowTo + y.toleranceDays)]
  exact ⟨rfl, rfl⟩

theorem half_after (hw : Reads (x.over (b + 1) c) w rows) (hy : Reads (x.over a c) y rows')
    (hab : a ≤ b + 1) : Half (fun d => b < d) w y := by
  have hto := (hw.toDate c rfl).trans (hy.toDate c rfl).symm
  have hfrom := hw.fromDate (b + 1) rfl
  have hfrom' := hy.fromDate a rfl
  have hnonneg := hy.nonneg
  refine half_of_reads hw hy rfl rfl rfl (by omega) (by omega) fun d hd => ?_
  have hd : b < d := by simpa using hd
  unfold inWindow between
  rw [hto, decide_eq_true (by omega : w.windowFrom ≤ d),
    decide_eq_true (by omega : y.windowFrom ≤ d),
    decide_eq_true (by omega : w.windowFrom - y.toleranceDays ≤ d),
    decide_eq_true (by omega : y.windowFrom - y.toleranceDays ≤ d)]
  exact ⟨rfl, rfl⟩

/-- **Nothing is lost where the candidates are undisputed.** -/
theorem none_lost (h : Undisputed x a b c) : NoneLost x a b c := by
  rintro ⟨r₁, hr₁, hclean₁⟩ ⟨r₂, hr₂, hclean₂⟩ r hr
  obtain ⟨w₁, hw₁, rows₁, seconds₁, threshold₁, rfl⟩ := reconcile_spec hr₁
  obtain ⟨w₂, hw₂, rows₂, seconds₂, threshold₂, rfl⟩ := reconcile_spec hr₂
  obtain ⟨y, hy, rows, seconds, threshold, rfl⟩ := reconcile_spec hr
  obtain ⟨k, hk⟩ := h y hy
  obtain ⟨_, hreads₁⟩ := comparison_spec hw₁
  obtain ⟨_, hreads₂⟩ := comparison_spec hw₂
  obtain ⟨_, hreads⟩ := comparison_spec hy
  have hab : a ≤ b := by
    have hord := hreads₁.ordered
    rwa [hreads₁.fromDate a rfl, hreads₁.toDate b rfl] at hord
  have hbc : b + 1 ≤ c := by
    have hord := hreads₂.ordered
    rwa [hreads₂.fromDate (b + 1) rfl, hreads₂.toDate c rfl] at hord
  have hbefore := half_before hreads₁ hreads (by omega)
  have hafter := half_after hreads₂ hreads (by omega)
  refine clean_iff.mpr ⟨fun l hl => ?_, fun c hc => ?_⟩
  · rcases hk (k.ledger l) with hun | hpaired
    · exact (hun.none_left hbefore hafter hclean₁ hclean₂).1 l hl rfl
    · exact absurd rfl (hpaired.none_left.1 l hl)
  · rcases hk (k.capture c) with hun | hpaired
    · exact (hun.none_left hbefore hafter hclean₁ hclean₂).2 c hc rfl
    · exact absurd rfl (hpaired.none_left.2 c hc)

/-- With no tolerance the captures of a row are those of its date. -/
theorem undisputed_of_zero (hzero : x.toleranceDays = 0) : Undisputed x a b c := by
  intro y hy
  obtain ⟨_, hreads⟩ := comparison_spec hy
  have htol : y.toleranceDays = 0 := hreads.tolerance.trans hzero
  refine ⟨⟨fun _ => 0, fun _ => 0, fun _ _ _ _ _ => rfl⟩, fun i => .inl ?_⟩
  intro l _ _ c _ hok
  obtain ⟨-, -, hgap⟩ := exactCandidate_iff.mp hok
  rw [htol, gapDays, abs_nonpos_iff, sub_eq_zero] at hgap
  rw [hgap]

/-- All candidates may be one part. -/
theorem undisputed_of_pairing (hy : (x.over a c).comparison = .ok y)
    {pairs : List (LedgerRow × SettlementRow)}
    (hp : Pairing y.toleranceDays y.ledgerCandidates y.captureCandidates pairs)
    (hn : Nearest y.matchArgs pairs) : Undisputed x a b c := by
  intro y' hy'
  rw [hy] at hy'
  cases hy'
  refine ⟨⟨fun _ => 0, fun _ => 0, fun _ _ _ _ _ => rfl⟩, fun i => ?_⟩
  by_cases hi : 0 = i
  · right
    refine ⟨pairs, ?_⟩
    simpa [hi] using ⟨hp, hn⟩
  · exact .inl fun _ _ hl => absurd hl hi

end Split

/-! ## A capture both halves use -/

/-- One capture on a day, a payment on it and one on the next. -/
def shared (text : Text) (day toleranceDays : Int) : Run :=
  runOn [captureOn text "a".toList] [paymentOn 1 day, paymentOn 2 (day + 1)] day (day + 1)
    toleranceDays

section Shared

theorem typedRow_paymentOn (id day : Int) :
    typedRow (paymentOn id day) = some (ledgerOn id day) := by
  have hminor : minorUnits (.payment id) (some (Double.finite one).repr) = .ok 100 :=
    minorUnits_source (s := .payment 0) (by decide +kernel)
  unfold typedRow paymentOn
  simp only [hminor]
  rfl

theorem date_ledgerOn (id day : Int) : (ledgerOn id day).date = day := by
  show (day * 86400000000 + 43200000000) / 86400000000 = day
  omega

/-- A capture row as it parses, whatever its date's text. -/
theorem parseSettlementRow_captureOn {text : Text} {day : Int} (hdate : parseDate text = some day)
    (hstrip : strip text = text) (source : Source) :
    parseSettlementRow (cell requiredColumns
      [text, "a".toList, "1".toList, "1.00".toList, "capture".toList]) source =
      .ok (settledOn day "a".toList) := by
  generalize hraw : cell requiredColumns
    [text, "a".toList, "1".toList, "1.00".toList, "capture".toList] = raw
  have hday : stripped raw settlementDateColumn = text := by
    rw [← hraw]
    exact hstrip
  have href : stripped raw processorRefColumn = "a".toList := by rw [← hraw]; rfl
  have hloan : stripped raw loanIdColumn = "1".toList := by rw [← hraw]; rfl
  have hamount : stripped raw amountColumn = "1.00".toList := by rw [← hraw]; rfl
  have htype : stripped raw typeColumn = "capture".toList := by rw [← hraw]; rfl
  have hminor : minorUnits source (raw amountColumn) = .ok 100 := by
    rw [← hraw]
    show minorUnits source (some "1.00".toList) = .ok 100
    exact minorUnits_source (s := .payment 0) (by decide +kernel)
  have hne : text.isEmpty = false := by
    cases text with
    | nil => cases hdate
    | cons => rfl
  have hmissing : (requiredColumns.find? fun c => (stripped raw c).isEmpty) = none := by
    simp only [requiredColumns, List.find?_cons, hday, href, hloan, hamount, htype, hne]
    rfl
  have hdigits : ("1".toList).all isDigit = true := by decide +kernel
  have hint : parseInt "1".toList = some 1 := by decide +kernel
  have hkind : rowType? "capture".toList = some .capture := by decide
  unfold parseSettlementRow
  simp only [hmissing, hday, hdate, hloan, hdigits, htype, hkind, hint, hminor, href, orRaise,
    abortIf]
  rfl

theorem loadSettlement_captureOn {text : Text} {day : Int} (hdate : parseDate text = some day)
    (hstrip : strip text = text) (path : Text) :
    loadSettlement path (.lines [.record requiredColumns, captureOn text "a".toList]) =
      .ok [settledOn day "a".toList] := by
  have hrow := parseSettlementRow_captureOn hdate hstrip (.line path 2)
  have hmissing : (requiredColumns.filter fun c => !requiredColumns.contains c) = [] := by
    decide +kernel
  unfold loadSettlement captureOn
  simp only [hmissing, List.tail_cons, parseRows, hrow, abortIf]
  rfl

variable {text : Text} {day toleranceDays f t : Int}

/-- A run on the shared capture over a window whose candidates are all of its rows. -/
theorem returns_shared (hdate : parseDate text = some day) (hstrip : strip text = text)
    (htol : 1 ≤ toleranceDays) (hft : f ≤ t) (hlower : 1 ≤ f - toleranceDays)
    (hupper : t + toleranceDays < maxOrdinal) :
    ∃ r, reconcile ((shared text day toleranceDays).over f t) = .ok r := by
  have hthreshold : alertThresholdMinor sampleSettings = .ok 500 := by decide +kernel
  have hseconds : duplicateSuspectWindowSeconds sampleSettings = .ok 90 := by decide +kernel
  refine reconcile_returns rfl rfl hft (show 0 ≤ toleranceDays by omega) hlower hupper
    (loadSettlement_captureOn hdate hstrip _) rfl ?_ hthreshold hseconds (by decide) (by omega)
    (by omega)
  intro r hr
  simp only [List.mem_cons, List.not_mem_nil, or_false] at hr
  rcases hr with rfl | rfl
  · rw [typedRow_paymentOn]
    rfl
  · rw [typedRow_paymentOn]
    rfl

/-- What such a run compares. -/
theorem candidates_shared (hdate : parseDate text = some day) (hstrip : strip text = text)
    {y : Comparison} {rows : List PaymentRow}
    (hy : Reads ((shared text day toleranceDays).over f t) y rows)
    (hf : f - toleranceDays ≤ day) (ht : day + 1 ≤ t + toleranceDays) :
    y.ledgerCandidates.Perm [ledgerOn 1 day, ledgerOn 2 (day + 1)] ∧
    y.captureCandidates = [settledOn day "a".toList] := by
  have hfrom := hy.fromDate f rfl
  have hto := hy.toDate t rfl
  have htol : y.toleranceDays = toleranceDays := hy.tolerance
  have hrows : [paymentOn 1 day, paymentOn 2 (day + 1)] = rows := Option.some.inj hy.payments
  have hall : [settledOn day "a".toList] = y.allSettlement :=
    Except.ok.inj ((loadSettlement_captureOn hdate hstrip _).symm.trans hy.file)
  have hin : ∀ d, (d = day ∨ d = day + 1) →
      between (f - toleranceDays) (t + toleranceDays) d = true := by
    intro d hd
    simp only [between, Bool.and_eq_true, decide_eq_true_eq]
    omega
  constructor
  · have hL := hy.ledger
    rw [hfrom, hto, htol, ← hrows] at hL
    simpa [typedRow_paymentOn, date_ledgerOn, hin] using hL
  · unfold Comparison.captureCandidates captures
    rw [hfrom, hto, htol, ← hall]
    have hd := hin day (.inl rfl)
    simp [settledOn, hd]

/-- Two rows and a capture either may take: the row served first takes it. -/
theorem exact_contested {y : Comparison} {l l' : LedgerRow} {c : SettlementRow}
    (hL : y.ledgerCandidates.Perm [l, l']) (hC : y.captureCandidates = [c])
    (hfirst : ledgerKey y.matchArgs.trueWindowLedger l ≤ ledgerKey y.matchArgs.trueWindowLedger l')
    (hl : exactCandidate y.toleranceDays l c = true) :
    y.exact = ⟨[(l, c)], [l'], []⟩ := by
  have hserved : y.served = [l, l'] := by
    refine eq_of_sorted ((sortBy_perm _ _).trans hL) (sortBy_pairwise _ _) ?_
      fun a _ b _ => Comparison.ledgerKey_inj
    simpa using hfirst
  show assign (exactCandidate y.toleranceDays) (rankCandidate y.matchArgs.trueWindowCaptures)
    y.served y.offered = _
  have hoffered : y.offered = [c] := by
    rw [Comparison.offered, hC]
    rfl
  rw [hserved, hoffered]
  simp [assign, hl, minBy, Assigned.claim, Assigned.pass]

/-- A row of the true window is served before one outside it, else the earlier one first. -/
theorem ledgerKey_le {w : List LedgerRow} {id id' d d' : Int}
    (h : (ledgerOn id d ∈ w ∧ ledgerOn id' d' ∉ w) ∨
      ((ledgerOn id d ∈ w ↔ ledgerOn id' d' ∈ w) ∧ d < d')) :
    ledgerKey w (ledgerOn id d) ≤ ledgerKey w (ledgerOn id' d') := by
  refine Prod.Lex.toLex_le_toLex.mpr (.inr ⟨rfl, Prod.Lex.toLex_le_toLex.mpr (.inr ⟨rfl, ?_⟩)⟩)
  refine Prod.Lex.toLex_le_toLex.mpr ?_
  rcases h with ⟨hin, hout⟩ | ⟨hflag, hlt⟩
  · left
    simp [hin, hout]
  · right
    refine ⟨decide_eq_decide.mpr (not_congr hflag), Prod.Lex.toLex_le_toLex.mpr (.inl ?_)⟩
    show d * 86400000000 + 43200000000 < d' * 86400000000 + 43200000000
    omega

theorem exactCandidate_shared {id d : Int} (htol : 1 ≤ toleranceDays) (hd : d = day ∨ d = day + 1)
    (ref : Text) : exactCandidate toleranceDays (ledgerOn id d) (settledOn day ref) = true := by
  refine exactCandidate_iff.mpr ⟨rfl, rfl, ?_⟩
  show |day - (ledgerOn id d).date| ≤ toleranceDays
  rw [date_ledgerOn, abs_le]
  omega

/-- A run that leaves one payment is clean when the payment is not of its window. -/
theorem clean_shared {y : Comparison} {id d : Int} (hleft : y.exact.left = [ledgerOn id d])
    (hright : y.exact.right = []) : Clean y.breaks ↔ y.inWindow d = false := by
  rw [Comparison.clean_iff, hleft, hright]
  simp [date_ledgerOn]

/-- A run over a window near the shared capture: the payment of the day takes the capture unless
only the next day's is in the window. -/
theorem run_shared (hdate : parseDate text = some day) (hstrip : strip text = text)
    (htol : 1 ≤ toleranceDays) (hft : f ≤ t) (hf : f - toleranceDays ≤ day)
    (ht : day + 1 ≤ t + toleranceDays) (hlower : 1 ≤ f - toleranceDays)
    (hupper : t + toleranceDays < maxOrdinal) :
    ∃ r, reconcile ((shared text day toleranceDays).over f t) = .ok r ∧
      (f ≤ day → (Clean r.breaks ↔ t ≤ day)) ∧ (f = day + 1 → Clean r.breaks) := by
  obtain ⟨r, hr⟩ := returns_shared hdate hstrip htol hft hlower hupper
  refine ⟨r, hr, ?_⟩
  obtain ⟨y, hy, rows, seconds, threshold, rfl⟩ := reconcile_spec hr
  change (f ≤ day → (Clean y.breaks ↔ t ≤ day)) ∧ (f = day + 1 → Clean y.breaks)
  obtain ⟨rows', hreads⟩ := comparison_spec hy
  obtain ⟨hL, hC⟩ := candidates_shared hdate hstrip hreads hf ht
  have htol' : y.toleranceDays = toleranceDays := hreads.tolerance
  have hwindow : ∀ d, y.inWindow d = true ↔ f ≤ d ∧ d ≤ t := by
    intro d
    rw [Comparison.inWindow, hreads.fromDate f rfl, hreads.toDate t rfl]
    simp [between]
  -- the flags that order the two payments
  have hfirst := Comparison.mem_trueWindowLedger (hL.mem_iff.mpr List.mem_cons_self)
  have hsecond := Comparison.mem_trueWindowLedger
    (hL.mem_iff.mpr (List.mem_cons_of_mem _ List.mem_cons_self))
  rw [date_ledgerOn, hwindow] at hfirst hsecond
  constructor
  · intro hday
    have hserved : ledgerKey y.matchArgs.trueWindowLedger (ledgerOn 1 day) ≤
        ledgerKey y.matchArgs.trueWindowLedger (ledgerOn 2 (day + 1)) := by
      refine ledgerKey_le ?_
      rw [hfirst, hsecond]
      omega
    have hexact := exact_contested hL hC hserved
      (htol' ▸ exactCandidate_shared htol (.inl rfl) _)
    rw [clean_shared (by rw [hexact]) (by rw [hexact]), ← Bool.not_eq_true, hwindow]
    omega
  · intro hnext
    have hserved : ledgerKey y.matchArgs.trueWindowLedger (ledgerOn 2 (day + 1)) ≤
        ledgerKey y.matchArgs.trueWindowLedger (ledgerOn 1 day) := by
      refine ledgerKey_le ?_
      rw [hfirst, hsecond]
      omega
    have hexact := exact_contested (hL.trans (List.Perm.swap _ _ _)) hC hserved
      (htol' ▸ exactCandidate_shared htol (.inr rfl) _)
    rw [clean_shared (by rw [hexact]) (by rw [hexact]), ← Bool.not_eq_true, hwindow]
    omega

/-- **A break is lost**: the capture is the first payment's partner before the split and the second
one's after it. -/
theorem lost_shared {a c : Int} (hdate : parseDate text = some day) (hstrip : strip text = text)
    (htol : 1 ≤ toleranceDays) (hab : a ≤ day) (hbc : day < c) (hlower : 1 ≤ a - toleranceDays)
    (hupper : c + toleranceDays < maxOrdinal) :
    ¬ NoneLost (shared text day toleranceDays) a day c := by
  intro hnone
  obtain ⟨r₁, hr₁, hclean₁, -⟩ := run_shared (f := a) (t := day) hdate hstrip htol hab (by omega)
    (by omega) hlower (by omega)
  obtain ⟨r₂, hr₂, -, hclean₂⟩ := run_shared (f := day + 1) (t := c) hdate hstrip htol hbc
    (by omega) (by omega) (by omega) hupper
  obtain ⟨r, hr, hclean, -⟩ := run_shared (f := a) (t := c) hdate hstrip htol (by omega) (by omega)
    (by omega) hlower hupper
  have hlost := hnone ⟨r₁, hr₁, (hclean₁ hab).mpr le_rfl⟩ ⟨r₂, hr₂, hclean₂ rfl⟩ r hr
  have hle := (hclean hab).mp hlost
  omega

end Shared

/-- **When nothing is lost between adjacent windows**: where the candidates are undisputed; and for
every ledger and file exactly with no tolerance, or where the range leaves the calendar and the run
over it does not return. -/
theorem adjacent_windows {a b c : Int} (toleranceDays : Int) (hab : a ≤ b) (hbc : b < c) :
    (∀ x : Run, x.toleranceDays = toleranceDays → Undisputed x a b c → NoneLost x a b c) ∧
    ((∀ x : Run, x.toleranceDays = toleranceDays → NoneLost x a b c) ↔
      toleranceDays ≤ 0 ∨ a - toleranceDays < 1 ∨ maxOrdinal ≤ c + toleranceDays) := by
  refine ⟨fun x _ => none_lost, fun hall => ?_, fun hsafe x hx => ?_⟩
  · by_contra hunsafe
    obtain ⟨y, m, d, hday⟩ := exists_ordinal (n := b) (by omega) (by omega)
    have hdate := parseDate_isoFormat hday
    exact lost_shared hdate (strip_isoFormat hday) (by omega) hab hbc (by omega) (by omega)
      (hall (shared (isoFormat y m d) b toleranceDays) rfl)
  · intro hclean₁ hclean₂ r hr
    obtain ⟨y, hy, -⟩ := reconcile_spec hr
    obtain ⟨_, hreads⟩ := comparison_spec hy
    have htol : y.toleranceDays = toleranceDays := hreads.tolerance.trans hx
    have hnonneg := hreads.nonneg
    have hlower := hreads.lower
    have hupper := hreads.upper
    rw [hreads.fromDate a rfl] at hlower
    rw [hreads.toDate c rfl] at hupper
    exact none_lost (undisputed_of_zero (by omega)) hclean₁ hclean₂ r hr

/-- The capture of the 30th serves the payment of the 30th in the run over that day and the one of
the 31st in the run over the next. -/
theorem lost_break :
    CleanRun ((shared "2026-05-30".toList 739766 1).over 739766 739766) ∧
    CleanRun ((shared "2026-05-30".toList 739766 1).over 739767 739767) ∧
    ∃ r, reconcile ((shared "2026-05-30".toList 739766 1).over 739766 739767) = .ok r ∧
      ¬ Clean r.breaks :=
  ⟨exists_ok (by decide +kernel), exists_ok (by decide +kernel), exists_ok (by decide +kernel)⟩

/-- A payment on the 30th, captured on the 31st. -/
def oneLate : Run :=
  runOn [captureOn "2026-05-31".toList "a".toList] [paymentOn 1 739766] 739765 739767 1

def oneLatePairs : List (LedgerRow × SettlementRow) :=
  [(ledgerOn 1 739766, settledOn 739767 "a".toList)]

theorem one_late_kept : NoneLost oneLate 739766 739766 739767 ∧
    ¬ ∀ x : Run, x.toleranceDays = 1 → NoneLost x 739766 739766 739767 := by
  have h := adjacent_windows 1 (le_refl 739766) (by decide : (739766 : Int) < 739767)
  obtain ⟨y, hy, htol, hledger, hcaptures, hn⟩ :=
    exists_ok (x := (oneLate.over 739766 739767).comparison)
      (p := fun y => y.toleranceDays = 1 ∧ (oneLatePairs.map Prod.fst).Perm y.ledgerCandidates ∧
        (oneLatePairs.map Prod.snd).Perm y.captureCandidates ∧
        Nearest y.matchArgs oneLatePairs) (by decide +kernel)
  have hsame : ∀ z ∈ oneLatePairs, exactCandidate y.toleranceDays z.1 z.2 = true := by
    rw [htol]
    decide +kernel
  constructor
  · exact h.1 oneLate rfl (undisputed_of_pairing hy ⟨hledger, hcaptures, hsame⟩ hn)
  · exact fun hall => absurd (h.2.mp hall) (by decide)

end Meridian.Reconciliation
