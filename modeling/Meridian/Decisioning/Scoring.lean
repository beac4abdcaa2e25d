import Meridian.Python.Exact
import Meridian.Python.Sorted
import Meridian.Python.Value

/-!
# What a credit decision is made of

The parts of decision-service that compute: the inputs of a request, the score of the vendor model,
the band the score lands in, the principal reasons, the record, and the comparison of a request with
a record that has its request id.

* `Vendor` is the model behind `score_application`: any function of the six declared inputs.
* `decideOn` is `_run_decision` between the credit pull and the `INSERT`.
* `Event` is a row of `decision_events` without its id, `resultFromEvent` the answer read from one.
* `decideOn_ok`: the answer to the call that records an event is the answer read from the event.
* `conflict_of_differ`: `_inputs_conflict` finds every financial input that differs.
-/

namespace Meridian.Decisioning

open Python

/-! ## The request -/

/-- The five inputs a request states. -/
structure Financials where
  annualIncome : Double
  requestedAmount : Double
  termMonths : ℕ
  monthlyDebt : Double
  employmentYears : Double
  term_bounds : 12 ≤ termMonths ∧ termMonths ≤ 60
  deriving DecidableEq

/-- Every number has a JSON text. -/
def Financials.isJson (f : Financials) : Bool :=
  f.annualIncome.isFinite && f.requestedAmount.isFinite && f.monthlyDebt.isFinite &&
    f.employmentYears.isFinite

/-- What `run_decision` hands to `decide` of a `DecisionIn`. -/
structure Application where
  appId : Int
  ssn : Text
  financials : Financials
  requestId : Option Text
  deriving DecidableEq

/-- `application.get("request_id") or None` -/
def Application.key (a : Application) : Option Text :=
  match a.requestId with
  | none | some [] => none
  | some rid => some rid

/-- Where a credit score comes from, the keys of `CREDIT_SOURCE_PROVENANCE`. -/
inductive CreditSource
  | bureau
  | synthetic
  | syntheticAfterBureauFailure
  deriving DecidableEq

/-- `CREDIT_SOURCE_PROVENANCE` -/
def CreditSource.provenance : CreditSource → Text
  | bureau => "bureau_verified".toList
  | synthetic => "synthetic_credit".toList
  | syntheticAfterBureauFailure => "synthetic_credit_bureau_failed".toList

/-- Why a call of `decide` raises. -/
inductive Refused
  /-- `CreditPullError` -/
  | creditPull
  /-- `DecisionRecordError` -/
  | record
  /-- `DecisionInputMismatch` -/
  | inputMismatch
  /-- `UnmappedFeatureError` -/
  | unmappedFeature
  /-- any other exception of the vendor model -/
  | vendor
  deriving DecidableEq

/-! ## The vendor model -/

/-- The six inputs the model is given; the bureau's score is whatever JSON value it answers. -/
structure ScoringInputs where
  bureauScore : Value
  financials : Financials

structure Attribution where
  feature : Text
  contribution : Double
  deriving DecidableEq

/-- What `score_application` returns. -/
structure ModelOut where
  score : Int
  modelId : Text
  modelVersion : Text
  attributions : List Attribution
  deriving DecidableEq

/-- The model behind `score_application`; `none` when it raises. -/
abbrev Vendor := ScoringInputs → Option ModelOut

inductive Band
  | approve
  | refer
  | deny
  deriving DecidableEq

/-- `APPROVE_CUTOFF` -/
def approveCutoff : Int := 660

/-- `DENY_CUTOFF` -/
def denyCutoff : Int := 600

/-- `policy_band` -/
def policyBand (score : Int) : Band :=
  if approveCutoff ≤ score then .approve
  else if denyCutoff ≤ score then .refer
  else .deny

/-- `model_signature()` -/
def modelSignature : Text := "meridian-risk-stub:v1".toList

/-! ## Reasons -/

structure Reason where
  code : Text
  reason : Text
  feature : Text
  deriving DecidableEq

/-- `REASON_MAP` -/
def reasonMap : List (Text × Text × Text) :=
  [("delinquency_history".toList, "R01".toList,
      "Delinquent past or present credit obligations with others".toList),
    ("payment_burden".toList, "R02".toList,
      "Excessive obligations in relation to income".toList),
    ("income_sufficiency".toList, "R03".toList,
      "Income insufficient for amount of credit requested".toList),
    ("employment_tenure".toList, "R04".toList, "Length of employment".toList)]

/-- `MAX_REASONS` -/
def maxReasons : ℕ := 4

/-- `CREDIT_DERIVED_FEATURES` -/
def creditDerivedFeatures : List Text := ["delinquency_history".toList]

/-- `APPLICANT_STATED_FEATURES` -/
def applicantStatedFeatures : List Text :=
  ["payment_burden".toList, "income_sufficiency".toList, "employment_tenure".toList]

/-- `a["contribution"] < 0` -/
def Attribution.negative (a : Attribution) : Bool := Double.gt (.finite .zero) a.contribution

/-- The reason of a feature that is mapped. -/
def reasonOf (a : Attribution) : Option Reason :=
  (reasonMap.lookup a.feature).map fun r => ⟨r.1, r.2, a.feature⟩

/-- `principal_reasons` -/
def principalReasons (attributions : List Attribution) : Except Refused (List Reason) :=
  if attributions.any fun a => (reasonOf a).isNone then .error .unmappedFeature
  else
    let negatives := sortBy (fun a => a.contribution.sortKey) (attributions.filter (·.negative))
    .ok ((negatives.take maxReasons).filterMap reasonOf)

/-- `feature_provenance` -/
def featureProvenance (attributions : List Attribution) (source : CreditSource) :
    Except Refused (List (Text × Text)) :=
  if attributions.any fun a => a.feature ∉ creditDerivedFeatures ++ applicantStatedFeatures then
    .error .unmappedFeature
  else
    .ok (attributions.map fun a =>
      (a.feature, if a.feature ∈ creditDerivedFeatures then source.provenance
        else "applicant_stated".toList))

/-! ## The record -/

/-- The `drivers` of an event. -/
structure Drivers where
  modelId : Text
  modelVersion : Text
  modelScore : Int
  attributions : List Attribution
  /-- `band_cutoffs` -/
  approve : Int
  deny : Int
  deriving DecidableEq

/-- The `inputs` of an event. -/
structure Inputs where
  bureauScore : Value
  financials : Financials
  ssnFingerprint : Option Text
  featureProvenance : List (Text × Text)

/-- A row of `decision_events`, without its id. -/
structure Event where
  appId : Int
  outcome : Band
  principalReasons : List Reason
  drivers : Drivers
  policyBand : Band
  inputs : Inputs
  decidedBy : Text
  requestId : Option Text

/-- A `jsonb` column takes the `drivers` and the `inputs`. -/
def Event.isJson (e : Event) : Bool :=
  e.drivers.attributions.all (·.contribution.isFinite) && e.inputs.bureauScore.isJson &&
    e.inputs.financials.isJson

/-- What a call of `decide` returns. -/
structure Answer where
  score : Int
  decision : Band
  policyBand : Band
  principalReasons : List Reason
  decidedBy : Text
  deriving DecidableEq

/-- `_has_negative_drivers` -/
def hasNegativeDrivers (d : Drivers) : Bool := d.attributions.any (·.negative)

/-- `_validate_record`; the drivers are never an empty dictionary. -/
def validateRecord (outcome band : Band) (reasons : List Reason) (drivers : Drivers)
    (decidedBy : Text) : Except Refused Unit :=
  if outcome = .deny ∧ reasons = [] then .error .record
  else if outcome = .refer ∧ reasons = [] ∧ hasNegativeDrivers drivers = true then .error .record
  else if outcome ≠ band ∧ decidedBy = modelSignature then .error .record
  else .ok ()

/-- `_run_decision` from the score of the bureau on: the event it records, and its answer once the
event is recorded. -/
def decideOn (vendor : Vendor) (a : Application) (fingerprint : Option Text) (bureauScore : Value)
    (source : CreditSource) (key : Option Text) : Except Refused (Event × Answer) :=
  match vendor ⟨bureauScore, a.financials⟩ with
  | none => .error .vendor
  | some out => do
    let band := policyBand out.score
    let outcome := band
    let mapped ← principalReasons out.attributions
    let reasons := if outcome = .approve then [] else mapped
    let provenance ← featureProvenance out.attributions source
    let drivers : Drivers := ⟨out.modelId, out.modelVersion, out.score, out.attributions,
      approveCutoff, denyCutoff⟩
    validateRecord outcome band reasons drivers modelSignature
    let event : Event := {
      appId := a.appId
      outcome := outcome
      principalReasons := reasons
      drivers := drivers
      policyBand := band
      inputs := ⟨bureauScore, a.financials, fingerprint, provenance⟩
      decidedBy := modelSignature
      requestId := key }
    pure (event, ⟨out.score, outcome, band, reasons, modelSignature⟩)

/-- `_result_from_event` -/
def resultFromEvent (e : Event) : Answer where
  score := e.drivers.modelScore
  decision := e.outcome
  policyBand := e.policyBand
  principalReasons := e.principalReasons
  decidedBy := e.decidedBy

/-! ## A request against a record -/

/-- `_inputs_conflict`: the financial inputs as floats, the fingerprints when both sides have one. The
stored inputs are never an empty dictionary. -/
def inputsConflict (stored : Inputs) (current : Financials) (fingerprint : Option Text) : Bool :=
  !stored.financials.annualIncome.numEq current.annualIncome ||
  !stored.financials.requestedAmount.numEq current.requestedAmount ||
  !(Double.ofRat stored.financials.termMonths).numEq (Double.ofRat current.termMonths) ||
  !stored.financials.monthlyDebt.numEq current.monthlyDebt ||
  !stored.financials.employmentYears.numEq current.employmentYears ||
  (stored.ssnFingerprint.isSome && fingerprint.isSome && stored.ssnFingerprint != fingerprint)

/-- Some financial input is another number. -/
def Financials.Differ (f g : Financials) : Prop :=
  f.annualIncome.numEq g.annualIncome = false ∨ f.requestedAmount.numEq g.requestedAmount = false ∨
    f.termMonths ≠ g.termMonths ∨ f.monthlyDebt.numEq g.monthlyDebt = false ∨
    f.employmentYears.numEq g.employmentYears = false

theorem numEq_self {x : Double} (h : x.isFinite = true) : x.numEq x = true := by
  cases x with
  | finite f => simp [Double.numEq]
  | infinite neg => cases h
  | nan => cases h

/-- Inputs a record can hold do not differ from themselves. -/
theorem Financials.not_differ_self {f : Financials} (h : f.isJson = true) : ¬ f.Differ f := by
  simp only [Financials.isJson, Bool.and_eq_true] at h
  obtain ⟨⟨⟨hincome, hamount⟩, hdebt⟩, hyears⟩ := h
  rintro (hd | hd | hd | hd | hd)
  · rw [numEq_self hincome] at hd
    cases hd
  · rw [numEq_self hamount] at hd
    cases hd
  · exact hd rfl
  · rw [numEq_self hdebt] at hd
    cases hd
  · rw [numEq_self hyears] at hd
    cases hd

/-- **Every financial input that differs is a conflict.** -/
theorem conflict_of_differ {stored : Inputs} {current : Financials} {fingerprint : Option Text}
    (h : stored.financials.Differ current) : inputsConflict stored current fingerprint = true := by
  have hs := stored.financials.term_bounds
  have hc := current.term_bounds
  have hterm := Double.numEq_ofRat_natCast (m := stored.financials.termMonths)
    (n := current.termMonths) (by omega) (by omega)
  unfold inputsConflict
  rw [hterm]
  rcases h with h | h | h | h | h <;> simp [h]

/-- What the recorded event says of its request, and its answer of the event. -/
theorem decideOn_ok {vendor : Vendor} {a : Application} {fingerprint : Option Text}
    {bureauScore : Value} {source : CreditSource} {key : Option Text} {e : Event} {answer : Answer}
    (h : decideOn vendor a fingerprint bureauScore source key = .ok (e, answer)) :
    e.appId = a.appId ∧ e.requestId = key ∧ e.inputs.financials = a.financials ∧
      answer = resultFromEvent e := by
  unfold decideOn at h
  split at h
  · cases h
  · rename_i out _
    cases hr : principalReasons out.attributions with
    | error r =>
      rw [hr] at h
      cases h
    | ok mapped =>
      cases hp : featureProvenance out.attributions source with
      | error r =>
        rw [hr, hp] at h
        cases h
      | ok provenance =>
        rw [hr, hp] at h
        dsimp only [bind, Except.bind] at h
        split at h
        · cases h
        · cases h
          exact ⟨rfl, rfl, rfl, rfl⟩

end Meridian.Decisioning
