import Meridian.Interleave.Program
import Meridian.Origination.Schema

/-!
# The statements of an application's life

Every SQL statement of deciding, checking identity, offering, disclosing and boarding as one step on
the world. `db.query` commits each statement on its own; a SQLAlchemy request commits what it
changed in one transaction at its end, so `insertDisclosure`, `repair` and `updateStatus` are one
step each, with the columns they write. An `INSERT` that draws its key from a sequence before it
waits for other statements is two steps, so that rows need not appear in the order of their keys.

`origination` collects the statements into a `Machine`; its environment is the clock and the end of
a session that held an advisory lock.
-/

namespace Meridian.Origination

open Python Relational Interleave Disclosure

/-- What a database call raises. -/
inductive DbError
  | foreignKeyViolation
  | uniqueViolation
  /-- the exception of `disclosures_freeze_delivered` -/
  | frozen
  deriving DecidableEq

/-- The columns `require_kyc_passed` selects; no check leaves the last four NULL. -/
structure KycView where
  isEntity : Bool
  ein : Option Text
  check : Option KycRow
  deriving DecidableEq

/-- The edges of `v_disclosure_provenance`, for one disclosure. -/
structure Provenance where
  disclosureId : Option Int
  offerId : Option Int
  decisionEventId : Option Int
  disclosureDecisionEventId : Option Int
  disclosureDecisionOutcome : Option Outcome
  applicationId : Option Int
  applicantId : Option Int
  deriving DecidableEq

/-- The columns `accept_offer` selects. -/
structure Boarding where
  amount : Option Double
  termMonths : Option Int
  apr : Option Double
  outcome : Option Outcome
  disclosureStatus : Option Status
  disclosureDeliveredAt : Option Int
  disclosureSnapshot : Option Snapshot
  disclosureHasDocument : Bool
  offerDecisionEventId : Option Int
  disclosureDecisionEventId : Option Int
  disclosureDecisionOutcome : Option Outcome
  deriving DecidableEq

inductive Stmt
  /-- the clock, at the start of a statement or for `datetime.now` -/
  | now
  /-- `pg_advisory_xact_lock` of an application and a request id -/
  | lock (appId : Int) (requestId : Text)
  /-- the end of the transaction that holds it -/
  | unlock (appId : Int) (requestId : Text)
  /-- the `SELECT` of `_find_event_by_request` -/
  | findEventByRequest (appId : Int) (requestId : Text)
  /-- `nextval` of `decision_events.id` -/
  | nextEventId
  /-- the rest of the statement of `_persist_event`, to its commit -/
  | persistEvent (e : EventRow)
  /-- `nextval` of `kyc_checks.id` -/
  | nextKycId
  /-- the rest of the `INSERT` of `run_cip_check` -/
  | insertKyc (k : KycRow)
  /-- the `SELECT` of `require_kyc_passed` -/
  | selectKyc (appId : Int)
  /-- `SELECT amount, term_months FROM applications` -/
  | selectTerms (appId : Int)
  /-- `SELECT outcome FROM decisions` -/
  | selectOutcome (appId : Int)
  /-- the `SELECT` of the newest event in `make_offer` -/
  | selectNewestEvent (appId : Int)
  /-- the offer `SELECT` of `create_offer` -/
  | selectOfferOf (appId : Int)
  /-- `SELECT app_id, outcome FROM decision_events` -/
  | selectEvent (id : Int)
  /-- the `INSERT` of `create_offer` -/
  | insertOffer (appId : Int) (box : OfferBox) (decisionEventId : Option Int)
  /-- `session.get(models.Offer, id)` -/
  | selectOffer (id : Int)
  /-- the disclosure of an offer -/
  | selectDisclosureOf (offerId : Int)
  /-- `session.get(models.Disclosure, id)` -/
  | selectDisclosure (id : Int)
  /-- the commit of a new disclosure; `closeEdge` when it also writes the offer's edge -/
  | insertDisclosure (offerId decisionEventId : Int) (record : Record) (document : Option Document)
      (closeEdge : Bool)
  /-- the commit of a replay: the document, with the status when that was written back to `draft`,
  and the offer's edge -/
  | repair (disclosureId : Int) (document : Option (Document × Bool)) (edge : Option (Int × Int))
  /-- `_PROVENANCE_SQL` -/
  | selectProvenance (disclosureId : Int)
  /-- `_CONSUMMATED_SQL` -/
  | selectConsummated (offerId : Int)
  /-- the `UPDATE` of `transition_disclosure`; `time` is `delivered_at` on delivery -/
  | updateStatus (disclosureId : Int) (current target : Status) (time : Int)
  /-- the `SELECT` of `accept_offer` -/
  | selectBoarding (appId : Int)
  /-- the loan `SELECT` of `accept_offer` -/
  | selectLoan (appId : Int)
  /-- the loan `INSERT` of `board_to_servicing` -/
  | insertLoan (appId : Int) (principal apr : Option Double) (noteRate : Double)
      (termMonths : Option Int)

namespace Stmt

/-- The type of a statement's answer. -/
abbrev Res : Stmt → Type
  | now => Int
  | lock _ _ => Unit
  | unlock _ _ => Unit
  | findEventByRequest _ _ => Option EventRow
  | nextEventId => Int
  | persistEvent _ => Except DbError Unit
  | nextKycId => Int
  | insertKyc _ => Unit
  | selectKyc _ => Option KycView
  | selectTerms _ => Option (Option Double × Option Int)
  | selectOutcome _ => Option Outcome
  | selectNewestEvent _ => Option Int
  | selectOfferOf _ => Option OfferRow
  | selectEvent _ => Option EventRow
  | insertOffer _ _ _ => Except DbError Int
  | selectOffer _ => Option OfferRow
  | selectDisclosureOf _ => Option DisclosureRow
  | selectDisclosure _ => Option DisclosureRow
  | insertDisclosure _ _ _ _ _ => Except DbError DisclosureRow
  | repair _ _ _ => Except DbError Unit
  | selectProvenance _ => Option Provenance
  | selectConsummated _ => Bool
  | updateStatus _ _ _ _ => Except DbError Nat
  | selectBoarding _ => Option Boarding
  | selectLoan _ => Option LoanRow
  | insertLoan _ _ _ _ _ => Except DbError Int

end Stmt

namespace World

/-! ## Deciding -/

/-- The statement of `_persist_event`: the event and the outcome of its application appear
together. -/
def persistEvent (w : World) (e : EventRow) : Except DbError Unit × World :=
  match w.events.insert? e with
  | none => (.error .uniqueViolation, w)
  | some t => (.ok (), { w with
      events := t
      decisions := Function.update w.decisions e.appId (some e.outcome) })

def findEventByRequest (w : World) (appId : Int) (requestId : Text) : Option EventRow :=
  w.events.rows.find? fun e => e.appId = appId ∧ e.requestId = some requestId

/-! ## Identity -/

def kycView (w : World) (appId : Int) : Option KycView := do
  let a ← w.application appId
  let p ← w.applicant (← a.applicantId)
  pure ⟨p.isEntity, p.ein, w.newestKyc p.id⟩

/-! ## Offers -/

def insertOffer (w : World) (appId : Int) (box : OfferBox) (decisionEventId : Option Int) :
    Except DbError Int × World :=
  if w.application appId = none ∨ ∃ e, decisionEventId = some e ∧ w.event e = none then
    (.error .foreignKeyViolation, { w with offers := w.offers.skip })
  else
    match w.offers.insertNext (fun id => ⟨id, some appId, box, decisionEventId⟩) fun _ => rfl with
    | (none, t) => (.error .uniqueViolation, { w with offers := t })
    | (some o, t) => (.ok o.id, { w with offers := t })

/-- `UPDATE offers SET decision_event_id = … WHERE id = …` on one row. -/
def edgeRow (offerId decisionEventId : Int) (o : OfferRow) : OfferRow :=
  if o.id = offerId then { o with decisionEventId := some decisionEventId } else o

@[simp] theorem edgeRow_id (i e : Int) (o : OfferRow) : (edgeRow i e o).id = o.id := by
  unfold edgeRow
  split <;> rfl

@[simp] theorem edgeRow_appId (i e : Int) (o : OfferRow) : (edgeRow i e o).appId = o.appId := by
  unfold edgeRow
  split <;> rfl

def setEdge (w : World) (offerId decisionEventId : Int) : World :=
  { w with
    offers := w.offers.update (edgeRow offerId decisionEventId) (edgeRow_id _ _)
      fun o o' h => by simpa [sameApp, Ledger.clashOn] using h }

/-! ## Disclosures -/

def insertDisclosure (w : World) (offerId decisionEventId : Int) (record : Record)
    (document : Option Document) (closeEdge : Bool) : Except DbError DisclosureRow × World :=
  if w.offer offerId = none ∨ w.event decisionEventId = none then
    (.error .foreignKeyViolation, { w with disclosures := w.disclosures.skip })
  else
    match w.disclosures.insertNext
        (fun id => ⟨id, offerId, decisionEventId, .draft, record, document, none, by simp⟩)
        fun _ => rfl with
    | (none, t) => (.error .uniqueViolation, { w with disclosures := t })
    | (some d, t) =>
      let w := { w with disclosures := t }
      (.ok d, if closeEdge then w.setEdge offerId decisionEventId else w)

/-- Write the document and, with `reset`, the status `draft` on a row that is not delivered. -/
def attachRow (id : Int) (document : Document) (reset : Bool) (d : DisclosureRow) :
    DisclosureRow :=
  if h : d.id = id ∧ d.status ≠ .delivered then
    { d with
      documentBody := some document
      status := if reset then .draft else d.status
      delivered_iff := by
        have hiff := d.delivered_iff
        split <;> simp_all }
  else d

@[simp] theorem attachRow_id (i : Int) (doc : Document) (b : Bool) (d : DisclosureRow) :
    (attachRow i doc b d).id = d.id := by
  unfold attachRow
  split <;> rfl

@[simp] theorem attachRow_offerId (i : Int) (doc : Document) (b : Bool) (d : DisclosureRow) :
    (attachRow i doc b d).offerId = d.offerId := by
  unfold attachRow
  split <;> rfl

def attach (w : World) (id : Int) (document : Document) (reset : Bool) : World :=
  { w with
    disclosures := w.disclosures.update (attachRow id document reset) (attachRow_id _ _ _)
      fun d d' h => by simpa [sameOffer, Ledger.clashOn] using h }

/-- The trigger raises on an `UPDATE` of a delivered row, and the transaction is rolled back. -/
def repair (w : World) (disclosureId : Int) (document : Option (Document × Bool))
    (edge : Option (Int × Int)) : Except DbError Unit × World :=
  if document ≠ none ∧ (w.disclosure disclosureId).any (·.status = .delivered) then
    (.error .frozen, w)
  else
    let w := match document with
      | none => w
      | some (doc, reset) => w.attach disclosureId doc reset
    (.ok (), match edge with
      | none => w
      | some (offerId, decisionEventId) => w.setEdge offerId decisionEventId)

/-- Write the status, and `delivered_at` on delivery, of a row in `current` that is not
delivered. -/
def moveRow (id : Int) (current target : Status) (time : Int) (d : DisclosureRow) : DisclosureRow :=
  if h : d.id = id ∧ d.status = current ∧ d.status ≠ .delivered then
    { d with
      status := target
      deliveredAt := if target = .delivered then some time else d.deliveredAt
      delivered_iff := by
        have hiff := d.delivered_iff
        split <;> simp_all }
  else d

@[simp] theorem moveRow_id (i : Int) (s t : Status) (n : Int) (d : DisclosureRow) :
    (moveRow i s t n d).id = d.id := by
  unfold moveRow
  split <;> rfl

@[simp] theorem moveRow_offerId (i : Int) (s t : Status) (n : Int) (d : DisclosureRow) :
    (moveRow i s t n d).offerId = d.offerId := by
  unfold moveRow
  split <;> rfl

def move (w : World) (id : Int) (current target : Status) (time : Int) : World :=
  { w with
    disclosures := w.disclosures.update (moveRow id current target time) (moveRow_id _ _ _ _)
      fun d d' h => by simpa [sameOffer, Ledger.clashOn] using h }

/-- The `UPDATE` of `transition_disclosure`, with the number of rows it matched. -/
def updateStatus (w : World) (id : Int) (current target : Status) (time : Int) :
    Except DbError Nat × World :=
  match w.disclosure id with
  | none => (.ok 0, w)
  | some d =>
    if d.status ≠ current then (.ok 0, w)
    else if d.status = .delivered then (.error .frozen, w)
    else (.ok 1, w.move id current target time)

def provenance (w : World) (disclosureId : Int) : Option Provenance := do
  let d ← w.disclosure disclosureId
  let o ← w.offer d.offerId
  let a := o.appId.bind w.application
  pure {
    disclosureId := some d.id
    offerId := some o.id
    decisionEventId := (o.decisionEventId.bind w.event).map EventRow.id
    disclosureDecisionEventId := some d.decisionEventId
    disclosureDecisionOutcome := (w.event d.decisionEventId).map EventRow.outcome
    applicationId := a.map ApplicationRow.id
    applicantId := a.bind ApplicationRow.applicantId }

/-- A loan is boarded for the offer's application. -/
def consummated (w : World) (offerId : Int) : Bool :=
  (w.offer offerId).any fun o => w.loans.rows.any fun l => o.appId.isSome && l.appId = o.appId

/-! ## Boarding -/

def boarding (w : World) (appId : Int) : Option Boarding := do
  let a ← w.application appId
  let o := w.offerOf appId
  let d := o.bind fun o => w.disclosureOf o.id
  pure {
    amount := a.amount
    termMonths := a.termMonths
    apr := o.bind fun o => o.box.apr
    outcome := w.decisions appId
    disclosureStatus := d.map DisclosureRow.status
    disclosureDeliveredAt := d.bind DisclosureRow.deliveredAt
    disclosureSnapshot := d.map fun d => d.record.computeSnapshot
    disclosureHasDocument := d.any fun d => d.documentBody.isSome
    offerDecisionEventId := o.bind OfferRow.decisionEventId
    disclosureDecisionEventId := d.map DisclosureRow.decisionEventId
    disclosureDecisionOutcome := (d.bind fun d => w.event d.decisionEventId).map EventRow.outcome }

def insertLoan (w : World) (appId : Int) (principal apr : Option Double) (noteRate : Double)
    (termMonths : Option Int) : Except DbError Int × World :=
  match w.loans.insertNext (fun id => ⟨id, some appId, principal, apr, noteRate, termMonths⟩)
      fun _ => rfl with
  | (none, t) => (.error .uniqueViolation, { w with loans := t })
  | (some l, t) => (.ok l.id, { w with loans := t })

end World

/-! ## The machine -/

/-- Moves of the clock and of the sessions that hold a lock. -/
inductive Env
  /-- time passes -/
  | tick (d : Nat)
  /-- a session that holds a lock ends -/
  | drop (appId : Int) (requestId : Text)

namespace World

def unlock (w : World) (appId : Int) (requestId : Text) : World :=
  { w with locks := w.locks.filter (· ≠ (appId, requestId)) }

def env : Env → World → World
  | .tick d, w => { w with now := w.now + d }
  | .drop appId requestId, w => w.unlock appId requestId

/-- One statement, executed; `none` while it waits. -/
def exec : (s : Stmt) → World → Option (s.Res × World)
  | .now, w => some (w.now, w)
  | .lock appId requestId, w =>
    if (appId, requestId) ∈ w.locks then none
    else some ((), { w with locks := (appId, requestId) :: w.locks })
  | .unlock appId requestId, w => some ((), w.unlock appId requestId)
  | .findEventByRequest appId requestId, w => some (w.findEventByRequest appId requestId, w)
  | .nextEventId, w => some (w.eventNext, { w with eventNext := w.eventNext + 1 })
  | .persistEvent e, w => some (w.persistEvent e)
  | .nextKycId, w => some (w.kycNext, { w with kycNext := w.kycNext + 1 })
  | .insertKyc k, w => some ((), { w with kycChecks := k :: w.kycChecks })
  | .selectKyc appId, w => some (w.kycView appId, w)
  | .selectTerms appId, w => some ((w.application appId).map fun a => (a.amount, a.termMonths), w)
  | .selectOutcome appId, w => some (w.decisions appId, w)
  | .selectNewestEvent appId, w => some ((w.newestEvent appId).map EventRow.id, w)
  | .selectOfferOf appId, w => some (w.offerOf appId, w)
  | .selectEvent id, w => some (w.event id, w)
  | .insertOffer appId box e, w => some (w.insertOffer appId box e)
  | .selectOffer id, w => some (w.offer id, w)
  | .selectDisclosureOf offerId, w => some (w.disclosureOf offerId, w)
  | .selectDisclosure id, w => some (w.disclosure id, w)
  | .insertDisclosure o e r d c, w => some (w.insertDisclosure o e r d c)
  | .repair id d e, w => some (w.repair id d e)
  | .selectProvenance id, w => some (w.provenance id, w)
  | .selectConsummated offerId, w => some (w.consummated offerId, w)
  | .updateStatus id current target time, w => some (w.updateStatus id current target time)
  | .selectBoarding appId, w => some (w.boarding appId, w)
  | .selectLoan appId, w => some (w.loans.rows.find? (·.appId = some appId), w)
  | .insertLoan appId p a n t, w => some (w.insertLoan appId p a n t)

end World

/-- The statements over the world. -/
abbrev origination : Machine where
  World := World
  Stmt := Stmt
  Res := Stmt.Res
  Env := Env
  exec := World.exec
  env := World.env

end Meridian.Origination
