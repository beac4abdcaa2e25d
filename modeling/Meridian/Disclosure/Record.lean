import Meridian.Disclosure.Offer
import Meridian.Python.Json
import Meridian.Reconciliation.Rows

/-!
# The regulated record

What `create_disclosure` computes, checks and writes into the columns of `disclosures` that nothing
changes afterwards: the figures, the snapshot of their inputs and the fingerprint (`fingerprint.py`).
`createRecord` is that path from the terms to the row, past the comparisons with the offer and with
the document; a `Record` carries the checks of the table.
-/

namespace Meridian.Disclosure

open Python Numeric

/-! ## The figures -/

/-- `computed`: the amount financed is not rounded here. -/
def compute (feePct principal annualRatePct : ℚ) (termMonths : ℤ) : Except Fault (Box ℚ) := do
  let c := Context.default
  let payment ← monthlyPayment c principal annualRatePct termMonths
  let apr ← computeApr c feePct principal annualRatePct termMonths
  let financeCharge ← financeCharge c feePct principal annualRatePct termMonths
  let amountFinanced ← amountFinanced c feePct principal
  let monthlyPayment ← toCentPlaces payment
  let totalOfPayments ← toCentPlaces (c.fix (payment * termMonths))
  pure ⟨apr, financeCharge, monthlyPayment, amountFinanced, totalOfPayments⟩

/-- `_to_cents`: `int` of a whole number. -/
def toCents (amount : ℚ) : Except Fault ℤ := do
  let whole ← raising (Context.default.quantize 1 (Context.default.fix (amount * 100)))
  pure ⌊whole⌋

/-- A decimal of three places. -/
def threePlaces (thousandths : ℤ) : Decimal := ⟨thousandths < 0, thousandths.natAbs, -3⟩

/-- `outputs`: the rate as a decimal of three places, the amounts in cents. -/
structure Outputs where
  apr : Decimal
  financeChargeCents : ℤ
  amountFinancedCents : ℤ
  monthlyPaymentCents : ℤ
  totalOfPaymentsCents : ℤ
  deriving DecidableEq

def outputs (computed : Box ℚ) : Except Fault Outputs := do
  let financeCharge ← toCents computed.financeCharge
  let amountFinanced ← toCents computed.amountFinanced
  let monthlyPayment ← toCents computed.monthlyPayment
  let totalOfPayments ← toCents computed.totalOfPayments
  pure ⟨threePlaces ⌊computed.apr * 1000⌋, financeCharge, amountFinanced, monthlyPayment,
    totalOfPayments⟩

/-! ## The snapshot and the fingerprint -/

/-- `compute_snapshot` -/
structure Snapshot where
  principalCents : ℤ
  noteRatePct : Text
  termMonths : ℤ
  feePct : Text
  deriving DecidableEq

/-- `str(Decimal(str(x)))` -/
def decimalText (f : F64) : Text :=
  match Decimal.ofText f.repr with
  | .ok d => d.toText
  | .error _ => []

def snapshot (s : FeeSchedule) (t : Terms) : Except Fault Snapshot := do
  let principalCents ← toCents (toDecimal t.principal)
  pure ⟨principalCents, decimalText t.annualRate, t.termMonths, decimalText s.originationFeePct⟩

/-- `FINGERPRINT_VERSION` -/
def fingerprintVersion : Text := "fp-1".toList

/-- `APR_METHOD_VERSION` -/
def aprMethodVersion : Text := "actuarial-regz-appj-1".toList

/-- A JSON object of written members; the keys are given in their order. -/
def object (members : List (String × Text)) : Text :=
  '{' :: ((members.map fun m => (Item.text m.1.toList).dump ++ ':' :: m.2).intersperse [',']).flatten
    ++ ['}']

def Snapshot.json (s : Snapshot) : Text :=
  object [("fee_pct", (Item.text s.feePct).dump), ("note_rate_pct", (Item.text s.noteRatePct).dump),
    ("principal_cents", (Item.int s.principalCents).dump),
    ("term_months", (Item.int s.termMonths).dump)]

/-- A decimal is written as its text. -/
def Outputs.json (o : Outputs) : Text :=
  object [("amount_financed_cents", (Item.int o.amountFinancedCents).dump),
    ("apr", (Item.text o.apr.toText).dump),
    ("finance_charge_cents", (Item.int o.financeChargeCents).dump),
    ("monthly_payment_cents", (Item.int o.monthlyPaymentCents).dump),
    ("total_of_payments_cents", (Item.int o.totalOfPaymentsCents).dump)]

/-- `compute_fingerprint`; `sha256` is `hashlib.sha256(text.encode("utf-8")).hexdigest()`. -/
def computeFingerprint (sha256 : Text → Text) (inputs : Snapshot)
    (feeScheduleVersion aprMethodVersion : Text) (outputs : Outputs) : Text :=
  let ruleset := object [("apr_method_version", (Item.text aprMethodVersion).dump),
    ("fee_schedule_version", (Item.text feeScheduleVersion).dump)]
  fingerprintVersion ++ ':' :: sha256 (object [("inputs", inputs.json), ("outputs", outputs.json),
    ("ruleset", ruleset), ("version", (Item.text fingerprintVersion).dump)])

/-! ## The comparisons -/

/-- The names of the figures, as the refusals list them. -/
inductive Figure
  | apr
  | financeCharge
  | monthlyPayment
  | amountFinanced
  | totalOfPayments
  deriving DecidableEq

/-- Why a disclosure is not created. -/
inductive Refusal
  /-- 500 -/
  | raised (f : Fault)
  /-- 409, `recomputed disclosure disagrees with the persisted offer on {mismatches}` -/
  | offerDisagrees (mismatches : List Figure)
  /-- 409, `the document's figures disagree with the recomputed disclosure on {mismatched}` -/
  | documentDisagrees (mismatched : List Figure)
  /-- A check of the table, an `IntegrityError`. -/
  | checkViolation
  /-- A number its column does not hold. -/
  | outOfRange
  deriving DecidableEq

/-- The exceptions of a computation leave the request. -/
def orRaise {α : Type} : Except Fault α → Except Refusal α
  | .ok a => .ok a
  | .error f => .error (.raised f)

/-- `OFFER_MATCH_TOLERANCE` -/
def offerMatchTolerance : ℚ := 1 / 100

/-- `stored is None or abs(Decimal(str(stored)) - derived) > OFFER_MATCH_TOLERANCE`: an infinity is
far from everything, and to compare with a NaN raises. -/
def disagrees (stored : Option Double) (derived : ℚ) : Except Fault Bool :=
  match stored with
  | none => .ok true
  | some (.finite f) =>
    .ok (offerMatchTolerance < |Context.default.fix (toDecimal f - derived)|)
  | some (.infinite _) => .ok true
  | some .nan => .error (.decimal .invalidOperation)

/-- The columns of an `offers` row. -/
abbrev OfferBox := Box (Option Double)

/-- The checks of `_refuse_if_offer_disagrees`, in the code's order. -/
def offerChecks (offer : OfferBox) (computed : Box ℚ) : List (Figure × Option Double × ℚ) :=
  [(.apr, offer.apr, computed.apr), (.financeCharge, offer.financeCharge, computed.financeCharge),
    (.monthlyPayment, offer.monthlyPayment, computed.monthlyPayment),
    (.amountFinanced, offer.amountFinanced, computed.amountFinanced),
    (.totalOfPayments, offer.totalOfPayments, computed.totalOfPayments)]

/-- The names whose check `p` fails. -/
def mismatches {α : Type} (p : α → Except Fault Bool) :
    List (Figure × α) → Except Fault (List Figure)
  | [] => .ok []
  | (name, a) :: rest => do
    let bad ← p a
    let names ← mismatches p rest
    pure (if bad then name :: names else names)

/-- `_refuse_if_offer_disagrees` -/
def refuseIfOfferDisagrees (offer : OfferBox) (computed : Box ℚ) : Except Refusal Unit := do
  match ← orRaise (mismatches (fun x => disagrees x.1 x.2) (offerChecks offer computed)) with
  | [] => .ok ()
  | names => .error (.offerDisagrees names)

/-- `DisclosureDocument`: the prose has no digit in it, `^\D*$`. -/
structure Document where
  heading : Text
  figures : Box Text
  paymentTerms : Text
  prepayment : Text
  prose : ∀ c ∈ heading ++ paymentTerms ++ prepayment, digit? c = none
  lengths : heading.length ≤ 120 ∧ paymentTerms.length ≤ 600 ∧ prepayment.length ≤ 300
  deriving DecidableEq

/-- `_parse_figure` -/
def parseFigure (value : Text) : Option Decimal :=
  let candidate := strip value
  if Reconciliation.plainDecimal candidate = false then none
  else
    match Decimal.ofText candidate with
    | .ok parsed => some parsed
    | .error _ => none

/-- A rendered figure is the number `derived`. -/
def spells (rendered : Text) (derived : Decimal) : Bool :=
  match parseFigure rendered with
  | none => false
  | some parsed => parsed.numEq derived

/-- `Decimal(cents) / 100` -/
def hundredths (cents : ℤ) : Decimal := ⟨cents < 0, cents.natAbs, -2⟩

/-- The checks of `_refuse_if_document_disagrees`, in the code's order. -/
def documentChecks (figures : Box Text) (o : Outputs) : List (Figure × Text × Decimal) :=
  [(.financeCharge, figures.financeCharge, hundredths o.financeChargeCents),
    (.amountFinanced, figures.amountFinanced, hundredths o.amountFinancedCents),
    (.monthlyPayment, figures.monthlyPayment, hundredths o.monthlyPaymentCents),
    (.totalOfPayments, figures.totalOfPayments, hundredths o.totalOfPaymentsCents),
    (.apr, figures.apr, o.apr)]

/-- `_refuse_if_document_disagrees`; the refusal sorts the names. -/
def refuseIfDocumentDisagrees (document : Option Document) (o : Outputs) : Except Refusal Unit :=
  match document with
  | none => .ok ()
  | some d =>
    let bad := (documentChecks d.figures o).filter fun x => !spells x.2.1 x.2.2
    match bad with
    | [] => .ok ()
    | _ => .error (.documentDisagrees (bad.map (·.1)))

/-! ## The row -/

/-- The columns of `disclosures` that describe the loan, with the checks of the table: the rate is
`NUMERIC(9,3)`, in thousandths, and the amounts are `BIGINT`. -/
structure Record where
  apr : ℤ
  financeChargeCents : ℤ
  amountFinancedCents : ℤ
  monthlyPaymentCents : ℤ
  totalOfPaymentsCents : ℤ
  computeSnapshot : Snapshot
  feeScheduleVersion : Text
  aprMethodVersion : Text
  contentFingerprint : Text
  /-- `disclosures_amounts_nonnegative` -/
  amounts_nonneg : 0 ≤ financeChargeCents ∧ 0 < amountFinancedCents ∧ 0 < monthlyPaymentCents ∧
    0 < totalOfPaymentsCents
  /-- `disclosures_apr_nonnegative` -/
  apr_nonneg : 0 ≤ apr
  deriving DecidableEq

/-- `_persisted_outputs`: what is read back from the row. -/
def Record.persistedOutputs (r : Record) : Outputs :=
  ⟨threePlaces r.apr, r.financeChargeCents, r.amountFinancedCents, r.monthlyPaymentCents,
    r.totalOfPaymentsCents⟩

/-- `NUMERIC(9,3)` of a decimal, in thousandths. -/
def numericThousandths (d : Decimal) : ℤ := halfUp (d.value * 1000)

/-- The columns hold the numbers. -/
def fits (apr : ℤ) (o : Outputs) : Prop :=
  |apr| < 10 ^ 9 ∧ |o.financeChargeCents| < 2 ^ 63 ∧ |o.amountFinancedCents| < 2 ^ 63 ∧
    |o.monthlyPaymentCents| < 2 ^ 63 ∧ |o.totalOfPaymentsCents| < 2 ^ 63

instance (apr : ℤ) (o : Outputs) : Decidable (fits apr o) :=
  inferInstanceAs (Decidable (_ ∧ _ ∧ _ ∧ _ ∧ _))

/-- The figures an `INSERT` writes. -/
def persist (inputs : Snapshot) (feeScheduleVersion contentFingerprint : Text) (o : Outputs) :
    Except Refusal Record :=
  let apr := numericThousandths o.apr
  if fits apr o then
    if h : (0 ≤ o.financeChargeCents ∧ 0 < o.amountFinancedCents ∧ 0 < o.monthlyPaymentCents ∧
        0 < o.totalOfPaymentsCents) ∧ 0 ≤ apr then
      .ok ⟨apr, o.financeChargeCents, o.amountFinancedCents, o.monthlyPaymentCents,
        o.totalOfPaymentsCents, inputs, feeScheduleVersion, aprMethodVersion, contentFingerprint,
        h.1, h.2⟩
    else .error .checkViolation
  else .error .outOfRange

/-- `create_disclosure` from the fee schedule to the row, on the terms of the request. -/
def createRecord (sha256 : Text → Text) (s : FeeSchedule) (t : Terms) (offer : OfferBox)
    (document : Option Document) : Except Refusal Record := do
  let computed ← orRaise (compute (toDecimal s.originationFeePct) (toDecimal t.principal)
    (toDecimal t.annualRate) t.termMonths)
  refuseIfOfferDisagrees offer computed
  let inputs ← orRaise (snapshot s t)
  let o ← orRaise (outputs computed)
  refuseIfDocumentDisagrees document o
  persist inputs s.version (computeFingerprint sha256 inputs s.version aprMethodVersion o) o

/-! ## Recomputing a record -/

/-- The outputs from a snapshot alone. -/
def Snapshot.recompute (s : Snapshot) : Except Fault Outputs :=
  match Decimal.ofText s.noteRatePct, Decimal.ofText s.feePct with
  | .ok rate, .ok fee => do
    let principal ← raising (Context.default.div s.principalCents 100)
    let computed ← compute fee.value principal rate.value s.termMonths
    outputs computed
  | _, _ => .error (.decimal .invalidOperation)

/-- The fingerprint from the columns of a row. -/
def Record.recomputedFingerprint (sha256 : Text → Text) (r : Record) : Text :=
  computeFingerprint sha256 r.computeSnapshot r.feeScheduleVersion r.aprMethodVersion
    r.persistedOutputs

end Meridian.Disclosure
