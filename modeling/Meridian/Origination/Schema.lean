import Meridian.Disclosure.Record
import Meridian.Ledger.Schema

/-!
# The tables of an application

`applicants`, `applications`, `kyc_checks`, `decisions`, `decision_events`, `offers`, `disclosures`
and `loans` as `001_schema.sql` declares them, with the columns that deciding, offering, disclosing
and boarding read or write. Each table's constraints are part of its type:

* `decision_events`: its primary key, and `uq_decision_events_request`, one event per application and
  request id;
* `offers`: `uq_offers_app`; `disclosures`: `uq_disclosures_offer`; `loans`: `uq_loans_app`;
* a `disclosures` row: `disclosures_delivered_at_matches_status`, and the checks of its `Record`.

`decisions` holds one outcome per application. Applicants and applications do not change here.
-/

namespace Meridian.Origination

open Python Relational Disclosure
open Ledger (clashOn)

/-- `decision_events.outcome` and `decisions.outcome`. -/
inductive Outcome
  | approve
  | refer
  | deny
  | counteroffer
  deriving DecidableEq

structure ApplicantRow where
  id : Int
  isEntity : Bool
  ein : Option Text
  deriving DecidableEq

structure ApplicationRow where
  id : Int
  applicantId : Option Int
  amount : Option Double
  termMonths : Option Int
  deriving DecidableEq

structure KycRow where
  id : Int
  applicantId : Int
  nameVerified : Bool
  dobVerified : Bool
  addressVerified : Bool
  ssnVerified : Bool
  deriving DecidableEq

structure EventRow where
  id : Int
  appId : Int
  outcome : Outcome
  decidedAt : Int
  requestId : Option Text
  deriving DecidableEq

structure OfferRow where
  id : Int
  appId : Option Int
  box : OfferBox
  decisionEventId : Option Int
  deriving DecidableEq

/-- `disclosures.status`, the vocabulary of `disclosures_status_valid`. -/
inductive Status
  | draft
  | inReview
  | approved
  | delivered
  deriving DecidableEq

structure DisclosureRow where
  id : Int
  offerId : Int
  decisionEventId : Int
  status : Status
  record : Record
  documentBody : Option Document
  deliveredAt : Option Int
  delivered_iff : status = .delivered ↔ deliveredAt.isSome = true
  deriving DecidableEq

structure LoanRow where
  id : Int
  appId : Option Int
  principal : Option Double
  apr : Option Double
  noteRate : Double
  termMonths : Option Int
  deriving DecidableEq

/-- The primary key, or application and request id. -/
def sameEvent (e e' : EventRow) : Bool :=
  e.id == e'.id || clashOn (fun e : EventRow => e.requestId.map fun r => (e.appId, r)) e e'

def sameApp : OfferRow → OfferRow → Bool := clashOn OfferRow.appId
def sameOffer : DisclosureRow → DisclosureRow → Bool := clashOn fun d => some d.offerId
def sameLoanApp : LoanRow → LoanRow → Bool := clashOn LoanRow.appId

/-- The database, the advisory locks that are held and the clock. -/
structure World where
  now : Int
  locks : List (Int × Text)
  applicants : List ApplicantRow
  applications : List ApplicationRow
  kycChecks : List KycRow
  kycNext : Int
  decisions : Int → Option Outcome
  events : Table EventRow sameEvent
  eventNext : Int
  offers : Serial OfferRow OfferRow.id sameApp
  disclosures : Serial DisclosureRow DisclosureRow.id sameOffer
  loans : Serial LoanRow LoanRow.id sameLoanApp

namespace EventRow

/-- `ORDER BY decided_at DESC, id DESC` -/
def newer (e e' : EventRow) : Bool :=
  e'.decidedAt < e.decidedAt || e'.decidedAt = e.decidedAt && e'.id < e.id

end EventRow

namespace World

/-- `ORDER BY decided_at DESC, id DESC LIMIT 1` -/
def newestEvent (w : World) (appId : Int) : Option EventRow :=
  firstBy EventRow.newer (w.events.rows.filter (·.appId = appId))

def event (w : World) (id : Int) : Option EventRow := w.events.rows.find? (·.id = id)

def offer (w : World) (id : Int) : Option OfferRow := w.offers.rows.find? (·.id = id)

def offerOf (w : World) (appId : Int) : Option OfferRow :=
  w.offers.rows.find? (·.appId = some appId)

def disclosure (w : World) (id : Int) : Option DisclosureRow := w.disclosures.rows.find? (·.id = id)

def disclosureOf (w : World) (offerId : Int) : Option DisclosureRow :=
  w.disclosures.rows.find? (·.offerId = offerId)

def application (w : World) (id : Int) : Option ApplicationRow := w.applications.find? (·.id = id)

def applicant (w : World) (id : Int) : Option ApplicantRow := w.applicants.find? (·.id = id)

/-- The newest check, `ORDER BY kc.id DESC LIMIT 1`. -/
def newestKyc (w : World) (applicantId : Int) : Option KycRow :=
  firstBy (fun k k' => k'.id < k.id) (w.kycChecks.filter (·.applicantId = applicantId))

theorem sameEvent_comm (e e' : EventRow) : sameEvent e e' = sameEvent e' e := by
  unfold sameEvent
  rw [Ledger.clashOn_comm, Bool.beq_comm]

/-- An event is told by its id. -/
theorem event_unique {w : World} {e e' : EventRow} (he : e ∈ w.events.rows)
    (he' : e' ∈ w.events.rows) (hid : e.id = e'.id) : e = e' :=
  w.events.eq_of_clash sameEvent_comm he he' (by simp [sameEvent, hid])

end World

end Meridian.Origination
