import Meridian.Disclosure.Figures
import Meridian.Interleave.Run
import Meridian.Origination.Statements

/-!
# The services' functions as programs

The functions that decide, check identity, offer, disclose and board, as programs over the
statements of `Statements.lean`:

* decision-service: `decide`, with `persistEvent` (`_persist_event`); kyc-service: `cipCheck`;
* origination-service: `makeOffer`, `acceptOffer` up to the loan it inserts, and their gate
  `kycPassed` (`require_kyc_passed`);
* disclosure-service: `createOffer`, which `makeOffer` and the disclosure coordinator call over
  HTTP, `createDisclosure` and `transitionDisclosure`.

A `Task` is one call of one of them; `start` runs any family of tasks from any world. Who may call,
what is logged, and what a decision is scored from are left out.
-/

namespace Meridian.Origination

open Python Interleave Disclosure

abbrev P := Prog origination

def sql (s : Stmt) : P s.Res := Prog.issue (M := origination) s

/-- The configuration a call reads: `sha256` is `hashlib.sha256(text.encode("utf-8")).hexdigest()`. -/
structure Deployment where
  sha256 : Text → Text
  schedule : FeeSchedule

/-- The edges a chain can lack, as `_incomplete_edges` names them. -/
inductive Edge
  | disclosureId
  | offerId
  | decisionEventId
  | applicationId
  | applicantId
  /-- `decision_event_id_mismatch` -/
  | decisionEdgeSplit
  /-- `decision_not_approved` -/
  | decisionNotApproved
  deriving DecidableEq

/-- Why a call does not go through. -/
inductive Refused
  /-- 409, `identity verification (KYC) has not passed for this application` -/
  | kycNotPassed
  /-- 404, `application not found` -/
  | applicationNotFound
  /-- 404, `offer not found` -/
  | offerNotFound
  /-- 404, `decision event not found` -/
  | decisionEventNotFound
  /-- 404, `disclosure not found` -/
  | disclosureNotFound
  /-- 409, `offer requires an approved decision`, `application is not approved for boarding` -/
  | notApproved
  /-- 422, a principal, rate or term `OfferIn` does not admit -/
  | invalidTerms
  /-- 409, the event belongs to another application -/
  | foreignEvent
  /-- 409, `decision_event_id did not approve this offer (outcome={outcome!r})` -/
  | eventNotApproved (outcome : Outcome)
  /-- 409, `decision_event_id is not the event that authorized this offer (offer cites {cites})` -/
  | notAuthorizing (cites : Int)
  /-- a figure, a comparison with the offer or with the document, or a check of the table -/
  | disclosure (r : Disclosure.Refusal)
  /-- a database call raised -/
  | db (e : DbError)
  /-- 409, `illegal transition {current} -> {target}` -/
  | illegalTransition (current : Status) (target : Text)
  /-- 400, `a reject needs a routable reason_code` -/
  | unroutableReject
  /-- 409, no document is recorded -/
  | noDocument
  /-- 409, `provenance chain is incomplete ({missing})` -/
  | chainIncomplete (missing : List Edge)
  /-- 409, the loan is already boarded -/
  | alreadyConsummated
  /-- 409, `disclosure changed status concurrently; re-read it` -/
  | changedConcurrently
  /-- 409, `no offer to accept for this application` -/
  | noOffer
  /-- 409, no delivered disclosure -/
  | notDelivered
  /-- 409, the two decision edges differ -/
  | splitChain
  /-- 409, the disclosure cites a decision that did not approve -/
  | citesNonApproval
  /-- 409, no usable note rate -/
  | noNoteRate
  /-- 409, the note rate exceeds the offer's rate -/
  | noteRateExceedsApr
  /-- 409, a lost race without the row that won it -/
  | conflictWithoutRow
  /-- `DecisionInputMismatch` -/
  | inputMismatch
  /-- `DecisionRecordError` -/
  | recordNotPersisted
  deriving DecidableEq

/-! ## Deciding -/

/-- A call of `decide`: the outcome is the band the score lands in, and `conflicts` is what
`_inputs_conflict` says of a recorded event's inputs. -/
structure DecideIn where
  appId : Int
  requestId : Option Text
  outcome : Outcome
  conflicts : EventRow → Bool

/-- `_persist_event`: nothing on a fresh insert, or the event that already has the request id. -/
def persistEvent (r : DecideIn) (requestId : Option Text) : P (Except Refused (Option EventRow)) := do
  let start ← sql .now
  let id ← sql .nextEventId
  match ← sql (.persistEvent ⟨id, r.appId, r.outcome, start, requestId⟩) with
  | .ok () => pure (.ok none)
  | .error .uniqueViolation =>
    match requestId with
    | none => pure (.error .recordNotPersisted)
    | some rid =>
      match ← sql (.findEventByRequest r.appId rid) with
      | some existing => pure (.ok (some existing))
      | none => pure (.error .recordNotPersisted)
  | .error _ => pure (.error .recordNotPersisted)

/-- The answer from an event that was already recorded. -/
def replayEvent (r : DecideIn) (existing : EventRow) : Except Refused Outcome :=
  if r.conflicts existing then .error .inputMismatch else .ok existing.outcome

/-- `_run_decision` -/
def runDecision (r : DecideIn) (requestId : Option Text) : P (Except Refused Outcome) := do
  match ← persistEvent r requestId with
  | .error e => pure (.error e)
  | .ok (some raced) => pure (replayEvent r raced)
  | .ok none => pure (.ok r.outcome)

/-- `decide`: a request id serializes on an advisory lock. -/
def decide (r : DecideIn) : P (Except Refused Outcome) :=
  match r.requestId with
  | none | some [] => runDecision r none
  | some rid => do
    sql (.lock r.appId rid)
    match ← sql (.findEventByRequest r.appId rid) with
    | some existing => do
      sql (.unlock r.appId rid)
      pure (replayEvent r existing)
    | none => do
      let answer ← runDecision r (some rid)
      sql (.unlock r.appId rid)
      pure answer

/-! ## Identity -/

/-- What `run_cip` verified of an applicant. -/
structure CipResult where
  nameVerified : Bool
  dobVerified : Bool
  addressVerified : Bool
  ssnVerified : Bool
  deriving DecidableEq

/-- `run_cip_check` -/
def cipCheck (applicantId : Int) (cip : CipResult) : P Int := do
  let id ← sql .nextKycId
  sql (.insertKyc ⟨id, applicantId, cip.nameVerified, cip.dobVerified, cip.addressVerified,
    cip.ssnVerified⟩)
  pure id

/-- `require_kyc_passed`: a natural person needs all four elements, an entity an EIN. -/
def kycPassed : Option KycView → Bool
  | none => false
  | some v =>
    match v.check with
    | none => false
    | some k =>
      k.nameVerified && k.addressVerified &&
        if v.isEntity then !(strip (v.ein.getD [])).isEmpty
        else k.dobVerified && k.ssnVerified

/-! ## Offers -/

/-- `OfferIn` -/
structure OfferIn where
  applicationId : Int
  terms : Terms
  decisionEventId : Option Int

/-- `_require_decision_event_for_application` -/
def requireDecisionEventForApplication (decisionEventId applicationId : Int) :
    P (Option Refused) := do
  match ← sql (.selectEvent decisionEventId) with
  | none => pure (some .decisionEventNotFound)
  | some e => pure (if e.appId ≠ applicationId then some .foreignEvent else none)

/-- The `INSERT` of `create_offer`; the loser of a race replays the offer that won it. -/
def insertOffer (D : Deployment) (b : OfferIn) : P (Except Refused Int) :=
  match buildOffer D.schedule b.terms with
  | .error f => pure (.error (.disclosure (.raised f)))
  | .ok o => do
    match ← sql (.insertOffer b.applicationId (o.map some) b.decisionEventId) with
    | .ok id => pure (.ok id)
    | .error .uniqueViolation =>
      match ← sql (.selectOfferOf b.applicationId) with
      | some won => pure (.ok won.id)
      | none => pure (.error .conflictWithoutRow)
    | .error e => pure (.error (.db e))

/-- `create_offer`: the id of the application's offer. -/
def createOffer (D : Deployment) (b : OfferIn) : P (Except Refused Int) := do
  match ← sql (.selectOfferOf b.applicationId) with
  | some existing => pure (.ok existing.id)
  | none =>
    match b.decisionEventId with
    | none => insertOffer D b
    | some e =>
      match ← requireDecisionEventForApplication e b.applicationId with
      | some refused => pure (.error refused)
      | none => insertOffer D b

theorem policyRatePct_canonical : (8995940255672566 < 2 ^ 52 ∧ (-50 : Int) = -1074) ∨
    (2 ^ 52 ≤ 8995940255672566 ∧ 8995940255672566 < 2 ^ 53 ∧ -1074 ≤ (-50 : Int) ∧
      (-50 : Int) ≤ 971) := by decide

/-- `POLICY_RATE_PCT`, 7.99 -/
def policyRatePct : F64 := ⟨false, 8995940255672566, -50, policyRatePct_canonical⟩

/-- The terms `OfferIn` admits of a stored application. -/
def admitted (amount : Option Double) (annualRate : F64) (termMonths : Option Int) : Option Terms :=
  match amount, termMonths with
  | some (.finite principal), some n =>
    if h : (0 < principal.toRat ∧ principal.toRat ≤ 50000) ∧
        (0 < annualRate.toRat ∧ annualRate.toRat ≤ 35) ∧ 12 ≤ n ∧ n ≤ 60 then
      some ⟨principal, annualRate, n, h.1, h.2.1, h.2.2⟩
    else none
  | _, _ => none

/-- `make_offer`: the outcome it requires is read from `decisions`, the event it records from
`decision_events`. -/
def makeOffer (D : Deployment) (appId : Int) : P (Except Refused Int) := do
  let view ← sql (.selectKyc appId)
  if kycPassed view = false then pure (.error .kycNotPassed)
  else
    match ← sql (.selectTerms appId) with
    | none => pure (.error .applicationNotFound)
    | some (amount, termMonths) =>
      let outcome ← sql (.selectOutcome appId)
      if outcome ≠ some .approve then pure (.error .notApproved)
      else
        let event ← sql (.selectNewestEvent appId)
        match admitted amount policyRatePct termMonths with
        | none => pure (.error .invalidTerms)
        | some terms => createOffer D ⟨appId, terms, event⟩

/-! ## Disclosures -/

/-- `DisclosureIn` -/
structure DisclosureIn where
  offerId : Int
  decisionEventId : Int
  terms : Terms
  document : Option Document

/-- `_refuse_if_decision_event_invalid` -/
def refuseIfDecisionEventInvalid (decisionEventId : Int) (offer : OfferRow) : P (Option Refused) := do
  match ← sql (.selectEvent decisionEventId) with
  | none => pure (some .decisionEventNotFound)
  | some e =>
    if e.outcome ≠ .approve then pure (some (.eventNotApproved e.outcome))
    else
      match offer.decisionEventId with
      | some cites => pure (if decisionEventId ≠ cites then some (.notAuthorizing cites) else none)
      | none => pure (if some e.appId ≠ offer.appId then some .foreignEvent else none)

/-- `_repair_missing_document`: the document to write, and whether the status goes back to
`draft`. -/
def repairMissingDocument (row : DisclosureRow) (document : Option Document) :
    Except Refused (Option (Document × Bool)) :=
  match row.documentBody, document with
  | none, some doc =>
    if row.status = .delivered then .ok none
    else
      match refuseIfDocumentDisagrees (some doc) row.record.persistedOutputs with
      | .error r => .error (.disclosure r)
      | .ok () => .ok (some (doc, row.status ≠ .draft))
  | _, _ => .ok none

/-- `_close_provenance_edge`: the edge to write. -/
def closeProvenanceEdge (offer : OfferRow) (decisionEventId : Int) : Option (Int × Int) :=
  match offer.decisionEventId with
  | some _ => none
  | none => some (offer.id, decisionEventId)

/-- A replay onto a disclosure that exists. -/
def replayDisclosure (offer : OfferRow) (existing : DisclosureRow) (document : Option Document) :
    P (Except Refused DisclosureRow) :=
  match repairMissingDocument existing document with
  | .error r => pure (.error r)
  | .ok repaired =>
    let edge := closeProvenanceEdge offer existing.decisionEventId
    if repaired = none ∧ edge = none then pure (.ok existing)
    else do
      match ← sql (.repair existing.id repaired edge) with
      | .error e => pure (.error (.db e))
      | .ok () =>
        let row ← sql (.selectDisclosure existing.id)
        pure (.ok (row.getD existing))

/-- After an `IntegrityError`: the winner's record, with the edge closed from it; the offer is read
again, as the rollback expired it. -/
def loseRace (offerId : Int) (cause : Refused) : P (Except Refused DisclosureRow) := do
  match ← sql (.selectDisclosureOf offerId) with
  | none => pure (.error cause)
  | some winner =>
    match ← sql (.selectOffer offerId) with
    | none => pure (.error .offerNotFound)
    | some offer =>
      match closeProvenanceEdge offer winner.decisionEventId with
      | none => pure (.ok winner)
      | some edge =>
        match ← sql (.repair winner.id none (some edge)) with
        | .error e => pure (.error (.db e))
        | .ok () => pure (.ok winner)

/-- The fresh path of `create_disclosure`, from the checked event on. -/
def insertDisclosure (D : Deployment) (b : DisclosureIn) (offer : OfferRow) :
    P (Except Refused DisclosureRow) :=
  match createRecord D.sha256 D.schedule b.terms offer.box b.document with
  | .error .checkViolation => loseRace b.offerId (.disclosure .checkViolation)
  | .error r => pure (.error (.disclosure r))
  | .ok record => do
    let closeEdge := (closeProvenanceEdge offer b.decisionEventId).isSome
    match ← sql (.insertDisclosure b.offerId b.decisionEventId record b.document closeEdge) with
    | .ok inserted =>
      let row ← sql (.selectDisclosure inserted.id)
      pure (.ok (row.getD inserted))
    | .error e => loseRace b.offerId (.db e)

/-- `create_disclosure` -/
def createDisclosure (D : Deployment) (b : DisclosureIn) : P (Except Refused DisclosureRow) := do
  match ← sql (.selectOffer b.offerId) with
  | none => pure (.error .offerNotFound)
  | some offer =>
    match ← sql (.selectDisclosureOf b.offerId) with
    | some existing => replayDisclosure offer existing b.document
    | none =>
      match ← refuseIfDecisionEventInvalid b.decisionEventId offer with
      | some refused => pure (.error refused)
      | none => insertDisclosure D b offer

/-! ## The lifecycle -/

namespace Status

def text : Status → Text
  | draft => "draft".toList
  | inReview => "in_review".toList
  | approved => "approved".toList
  | delivered => "delivered".toList

/-- `LEGAL_TRANSITIONS` -/
def next : Status → List Status
  | draft => [inReview]
  | inReview => [approved, draft]
  | approved => [delivered, draft]
  | delivered => []

end Status

/-- `REJECT_ROUTES` -/
def rejectRoutes : List (Text × Text) :=
  [("wording".toList, "assemble".toList), ("formatting".toList, "assemble".toList),
    ("wrong_terms".toList, "decisioning".toList), ("wrong_rate".toList, "decisioning".toList),
    ("ineligible".toList, "decisioning".toList)]

/-- `TransitionIn` -/
structure TransitionIn where
  toStatus : Text
  reasonCode : Option Text

/-- The status to go to and where a reject sends the work. -/
def legalTarget (current : Status) (b : TransitionIn) : Except Refused (Status × Option Text) :=
  match current.next.find? (·.text = b.toStatus) with
  | none => .error (.illegalTransition current b.toStatus)
  | some target =>
    if target = .draft then
      match rejectRoutes.lookup (b.reasonCode.getD []) with
      | none => .error .unroutableReject
      | some route => .ok (target, some route)
    else .ok (target, none)

/-- `_incomplete_edges` -/
def incompleteEdges (p : Provenance) : List Edge :=
  (if p.disclosureId = none then [.disclosureId] else []) ++
  (if p.offerId = none then [.offerId] else []) ++
  (if p.decisionEventId = none then [.decisionEventId] else []) ++
  (if p.applicationId = none then [.applicationId] else []) ++
  (if p.applicantId = none then [.applicantId] else []) ++
  (if p.decisionEventId.isSome ∧ p.disclosureDecisionEventId.isSome ∧
      p.decisionEventId ≠ p.disclosureDecisionEventId then [.decisionEdgeSplit] else []) ++
  (if p.disclosureDecisionOutcome.any (· ≠ .approve) then [.decisionNotApproved] else [])

/-- `_CHAIN_EDGES` -/
def chainEdges : List Edge :=
  [.disclosureId, .offerId, .decisionEventId, .applicationId, .applicantId]

/-- The four refusals before a delivery. -/
def refuseDelivery (row : DisclosureRow) : P (Option Refused) :=
  if row.documentBody = none then pure (some .noDocument)
  else
    match refuseIfDocumentDisagrees row.documentBody row.record.persistedOutputs with
    | .error r => pure (some (.disclosure r))
    | .ok () => do
      let chain ← sql (.selectProvenance row.id)
      match (chain.map incompleteEdges).getD chainEdges with
      | e :: missing => pure (some (.chainIncomplete (e :: missing)))
      | [] =>
        let boarded ← sql (.selectConsummated row.offerId)
        pure (if boarded then some .alreadyConsummated else none)

/-- The guarded `UPDATE` and the row it leaves. -/
def writeStatus (row : DisclosureRow) (target : Status) (time : Int) (routedTo : Option Text) :
    P (Except Refused (DisclosureRow × Option Text)) := do
  match ← sql (.updateStatus row.id row.status target time) with
  | .error e => pure (.error (.db e))
  | .ok 0 => pure (.error .changedConcurrently)
  | .ok _ =>
    let written ← sql (.selectDisclosure row.id)
    pure (.ok (written.getD row, routedTo))

/-- `transition_disclosure`; only a delivery writes a time. -/
def transitionDisclosure (disclosureId : Int) (b : TransitionIn) :
    P (Except Refused (DisclosureRow × Option Text)) := do
  match ← sql (.selectDisclosure disclosureId) with
  | none => pure (.error .disclosureNotFound)
  | some row =>
    match legalTarget row.status b with
    | .error r => pure (.error r)
    | .ok (target, routedTo) =>
      if target = .delivered then do
        match ← refuseDelivery row with
        | some refused => pure (.error refused)
        | none =>
          let time ← sql .now
          writeStatus row target time routedTo
      else writeStatus row target 0 routedTo

/-! ## Boarding -/

/-- `_note_rate_for_boarding` -/
def noteRateForBoarding (snapshot : Option Snapshot) (apr : Double) : Except Refused Double :=
  match snapshot with
  | none => .error .noNoteRate
  | some s =>
    if Reconciliation.plainDecimal s.noteRatePct = false then .error .noNoteRate
    else
      match Decimal.ofText s.noteRatePct with
      | .error _ => .error .noNoteRate
      | .ok d =>
        let noteRate := Double.ofRat d.value
        if noteRate.gt apr then .error .noteRateExceedsApr else .ok noteRate

/-- The guards of the boarding branch, and the note rate to board at. -/
def boardingGuards (r : Boarding) (apr : Double) : Except Refused Double :=
  if r.disclosureStatus ≠ some .delivered ∨ r.disclosureDeliveredAt = none then
    .error .notDelivered
  else if r.disclosureHasDocument = false then .error .noDocument
  else if r.offerDecisionEventId.isSome ∧ r.disclosureDecisionEventId.isSome ∧
      r.offerDecisionEventId ≠ r.disclosureDecisionEventId then .error .splitChain
  else if r.disclosureDecisionEventId.isSome ∧ r.disclosureDecisionOutcome ≠ some .approve then
    .error .citesNonApproval
  else noteRateForBoarding r.disclosureSnapshot apr

/-- The boarding branch: the loan's id. -/
def board (appId : Int) (r : Boarding) (apr : Double) : P (Except Refused Int) :=
  match boardingGuards r apr with
  | .error refused => pure (.error refused)
  | .ok noteRate => do
    match ← sql (.insertLoan appId r.amount (some apr) noteRate r.termMonths) with
    | .ok id => pure (.ok id)
    | .error .uniqueViolation =>
      match ← sql (.selectLoan appId) with
      | some won => pure (.ok won.id)
      | none => pure (.error .conflictWithoutRow)
    | .error e => pure (.error (.db e))

/-- `accept_offer`, to the application's loan; its balance and the funded status come after. -/
def acceptOffer (appId : Int) : P (Except Refused Int) := do
  let view ← sql (.selectKyc appId)
  if kycPassed view = false then pure (.error .kycNotPassed)
  else
    match ← sql (.selectBoarding appId) with
    | none => pure (.error .applicationNotFound)
    | some r =>
      if r.outcome ≠ some .approve then pure (.error .notApproved)
      else
        match r.apr with
        | none => pure (.error .noOffer)
        | some apr =>
          match ← sql (.selectLoan appId) with
          | some existing => pure (.ok existing.id)
          | none => board appId r apr

/-! ## Tasks -/

/-- One call. -/
inductive Task
  | decide (r : DecideIn)
  | cipCheck (applicantId : Int) (cip : CipResult)
  | createOffer (b : OfferIn)
  | makeOffer (appId : Int)
  | createDisclosure (b : DisclosureIn)
  | transitionDisclosure (disclosureId : Int) (b : TransitionIn)
  | acceptOffer (appId : Int)

/-- What a call returns or raises. -/
inductive Answer
  | decided (r : Except Refused Outcome)
  | checked (id : Int)
  | offered (r : Except Refused Int)
  | disclosed (r : Except Refused DisclosureRow)
  | moved (r : Except Refused (DisclosureRow × Option Text))
  | accepted (r : Except Refused Int)

/-- The program of a call. -/
def Task.prog (D : Deployment) : Task → P Answer
  | decide r => do pure (.decided (← Origination.decide r))
  | cipCheck applicantId cip => do pure (.checked (← Origination.cipCheck applicantId cip))
  | createOffer b => do pure (.offered (← Origination.createOffer D b))
  | makeOffer appId => do pure (.offered (← Origination.makeOffer D appId))
  | createDisclosure b => do pure (.disclosed (← Origination.createDisclosure D b))
  | transitionDisclosure id b => do pure (.moved (← Origination.transitionDisclosure id b))
  | acceptOffer appId => do pure (.accepted (← Origination.acceptOffer appId))

/-- Any family of calls, started in a world. -/
def start {ι : Type} (D : Deployment) (tasks : ι → Task) (w : World) :
    Config origination ι Answer :=
  ⟨w, fun i => (tasks i).prog D⟩

/-! ## An application to run them on -/

/-- A natural person who passed the identity check has applied for 1000 over twelve months. -/
def World.applied : World where
  now := 0
  locks := []
  applicants := [⟨1, false, none⟩]
  applications := [⟨1, some 1, some (.finite wholeTerms.principal), some 12⟩]
  kycChecks := [⟨1, 1, true, true, true, true⟩]
  kycNext := 2
  decisions := fun _ => none
  events := .empty
  eventNext := 1
  offers := .empty 1
  disclosures := .empty 1
  loans := .empty 1

/-- The application is approved. -/
def World.approved : World :=
  { (World.applied.persistEvent ⟨1, 1, .approve, 0, none⟩).2 with eventNext := 2 }

/-- The approval has an offer. -/
def World.offered : World := (World.approved.insertOffer 1 wholeRow (some 1)).2

theorem prose_of_all {text : Text} (h : text.all (fun c => (digit? c).isNone) = true) :
    ∀ c ∈ text, digit? c = none :=
  fun c hc => Option.isNone_iff_eq_none.mp (List.all_eq_true.mp h c hc)

def sampleDocument : Document where
  heading := "Truth in Lending Disclosure".toList
  figures := ⟨"13.76".toList, "73.81".toList, "86.98".toList, "970.00".toList, "1043.81".toList⟩
  paymentTerms := "Twelve monthly payments.".toList
  prepayment := "You may prepay without a penalty.".toList
  prose := prose_of_all (by decide +kernel)
  lengths := by decide +kernel

/-- What is recorded of the offer. -/
def sampleRecord : Record where
  apr := 13760
  financeChargeCents := 7381
  amountFinancedCents := 97000
  monthlyPaymentCents := 8698
  totalOfPaymentsCents := 104381
  computeSnapshot := ⟨100000, "7.99".toList, 12, "0.03".toList⟩
  feeScheduleVersion := "2024-11".toList
  aprMethodVersion := aprMethodVersion
  contentFingerprint := fingerprintVersion ++ ':' :: wholeDigest []
  amounts_nonneg := by decide
  apr_nonneg := by decide

/-- The offer has a disclosure in `draft`. -/
def World.disclosed (document : Option Document) : World :=
  (World.offered.insertDisclosure 1 1 sampleRecord document false).2

def sampleDeployment : Deployment := ⟨wholeDigest, publishedSchedule⟩

inductive Caller
  | first
  | second
  | third
  | fourth
  deriving DecidableEq

end Meridian.Origination
