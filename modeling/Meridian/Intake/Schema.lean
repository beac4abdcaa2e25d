import Meridian.Intake.Tokens
import Meridian.Origination.Services

/-!
# The tables of an application's life

`users`, `applicants`, `applications`, `kyc_checks`, `decisions`, `decision_events`, `offers`, `loans`
and `balances` as `001_schema.sql` declares them, with the columns that submitting, authorizing,
accepting and abandoning read or write. Unique constraints are part of a table's type; foreign keys
are checked by the statements, and `loans.app_id` has none.

A transaction that is still open is the rows it has deleted: nobody else sees a deletion before its
commit, and who needs a row another transaction has deleted waits for that transaction to end.

What `require_kyc_passed` and the boarding query read beyond these tables is set by the environment.
-/

namespace Meridian.Intake

open Python Relational
open Ledger (clashOn)
open Origination (Outcome KycView)

structure ApplicantRow where
  id : Int
  name : Text
  deriving DecidableEq

structure ApplicationRow where
  id : Int
  applicantId : Option Int
  amount : Double
  termMonths : Int
  status : Text
  continuationToken : Option Text
  expiresAt : Option Int
  deriving DecidableEq

structure KycRow where
  id : Int
  applicantId : Option Int
  deriving DecidableEq

structure EventRow where
  id : Int
  appId : Int
  deriving DecidableEq

structure OfferRow where
  id : Int
  appId : Option Int
  decisionEventId : Option Int
  deriving DecidableEq

structure LoanRow where
  id : Int
  appId : Option Int
  applicantName : Text
  principal : Double
  apr : Double
  noteRate : Double
  termMonths : Int
  deriving DecidableEq

structure BalanceRow where
  loanId : Int
  balance : Double
  deriving DecidableEq

/-- A table without a unique index besides its primary key. -/
def noClash {α : Type} (_ _ : α) : Bool := false

def sameApp : OfferRow → OfferRow → Bool := clashOn OfferRow.appId
def sameLoanApp : LoanRow → LoanRow → Bool := clashOn LoanRow.appId
def sameLoan : BalanceRow → BalanceRow → Bool := clashOn fun b => some b.loanId

/-- An open transaction: the ids of the rows it has deleted. -/
structure Transaction (ι : Type) where
  session : ι
  applications : List Int
  kycChecks : List Int
  applicants : List Int
  deriving DecidableEq

/-- The database, the clock, the configuration, and how many tokens have been drawn. -/
structure World (ι : Type) where
  now : Int
  config : Config
  drawn : ℕ
  /-- `users.applicant_id`, by `users.id` -/
  users : Int → Option (Option Int)
  applicants : Serial ApplicantRow ApplicantRow.id noClash
  applications : Serial ApplicationRow ApplicationRow.id noClash
  kycChecks : Serial KycRow KycRow.id noClash
  decisions : Int → Option Outcome
  events : Serial EventRow EventRow.id noClash
  offers : Serial OfferRow OfferRow.id sameApp
  loans : Serial LoanRow LoanRow.id sameLoanApp
  balances : Table BalanceRow sameLoan
  transactions : List (Transaction ι)
  /-- what `require_kyc_passed` selects -/
  kycView : Int → Option KycView
  /-- the columns of the boarding query that come from other tables -/
  chain : Int → Origination.Boarding

/-- `'submitted'`, the default of `applications.status`. -/
def submitted : Text := "submitted".toList

/-- `'funded'` -/
def funded : Text := "funded".toList

variable {ι : Type}

namespace World

def application (w : World ι) (id : Int) : Option ApplicationRow :=
  w.applications.rows.find? (·.id = id)

def applicant (w : World ι) (id : Int) : Option ApplicantRow := w.applicants.rows.find? (·.id = id)

def loanOf (w : World ι) (appId : Int) : Option LoanRow := w.loans.rows.find? (·.appId = some appId)

def offerOf (w : World ι) (appId : Int) : Option OfferRow :=
  w.offers.rows.find? (·.appId = some appId)

/-- A row of `decisions`, `decision_events` or `offers` refers to the application. -/
def Referenced (w : World ι) (appId : Int) : Prop :=
  (w.decisions appId).isSome = true ∨ (∃ e ∈ w.events.rows, e.appId = appId) ∨
    ∃ o ∈ w.offers.rows, o.appId = some appId

instance (w : World ι) (appId : Int) : Decidable (w.Referenced appId) :=
  inferInstanceAs (Decidable (_ ∨ _ ∨ _))

/-- A loan was boarded for the application. -/
def Boarded (w : World ι) (appId : Int) : Prop := ∃ l ∈ w.loans.rows, l.appId = some appId

instance (w : World ι) (appId : Int) : Decidable (w.Boarded appId) :=
  inferInstanceAs (Decidable (∃ l ∈ _, _))

/-- An open transaction has deleted the application. -/
def Deleting (w : World ι) (appId : Int) : Prop := ∃ t ∈ w.transactions, appId ∈ t.applications

instance (w : World ι) (appId : Int) : Decidable (w.Deleting appId) :=
  inferInstanceAs (Decidable (∃ t ∈ _, _))

theorem sameLoanApp_comm (l l' : LoanRow) : sameLoanApp l l' = sameLoanApp l' l :=
  Ledger.clashOn_comm ..

/-- There is one loan to an application. -/
theorem loan_unique {w : World ι} {l l' : LoanRow} {appId : Int} (hl : l ∈ w.loans.rows)
    (hl' : l' ∈ w.loans.rows) (h : l.appId = some appId) (h' : l'.appId = some appId) : l = l' := by
  refine w.loans.eq_of_clash sameLoanApp_comm hl hl' ?_
  simp [sameLoanApp, clashOn, h, h']

theorem loanOf_eq {w : World ι} {l : LoanRow} {appId : Int} :
    w.loanOf appId = some l ↔ l ∈ w.loans.rows ∧ l.appId = some appId := by
  constructor
  · intro h
    exact ⟨List.mem_of_find?_eq_some h, by simpa using List.find?_some h⟩
  · rintro ⟨hl, happ⟩
    unfold loanOf
    cases h : w.loans.rows.find? (·.appId = some appId) with
    | none =>
      have hnone := List.find?_eq_none.mp h l hl
      simp [happ] at hnone
    | some l' =>
      have happ' : l'.appId = some appId := by simpa using List.find?_some h
      rw [loan_unique (List.mem_of_find?_eq_some h) hl happ' happ]

theorem application_eq {w : World ι} {a : ApplicationRow} {appId : Int} :
    w.application appId = some a ↔ a ∈ w.applications.rows ∧ a.id = appId := by
  constructor
  · intro h
    exact ⟨List.mem_of_find?_eq_some h, by simpa using List.find?_some h⟩
  · rintro ⟨ha, rfl⟩
    exact w.applications.find_pk ha

theorem application_ne_none {w : World ι} {appId : Int} :
    w.application appId ≠ none ↔ ∃ a ∈ w.applications.rows, a.id = appId := by
  rw [Option.ne_none_iff_exists']
  exact exists_congr fun a => application_eq

theorem applicant_ne_none {w : World ι} {id : Int} :
    w.applicant id ≠ none ↔ ∃ p ∈ w.applicants.rows, p.id = id := by
  simp [applicant]

end World

end Meridian.Intake
