import Meridian.Intake.Schema
import Meridian.Interleave.Program

/-!
# The statements

Every SQL statement of submitting, authorizing, accepting, boarding and abandoning as one step on
the world, and the one write each of `decide`, `create_offer` and the CIP check makes. `db.query`
commits each statement on its own. `create_application` writes a new applicant and application in
one transaction that nobody waits for, so that is one step; the transaction of
`abandon_application` is a step for each of its statements. A statement that needs a row an open
transaction has deleted is not enabled.

The environment is the clock, the rotation of the token keys, the link of a user to an applicant,
what servicing writes to a balance, what the tables that are not here answer, and the end of a
session, which rolls its transaction back.
-/

namespace Meridian.Intake

open Python Relational Interleave
open Origination (Outcome KycView)

/-- What a database call raises. -/
inductive DbError
  | foreignKeyViolation
  | uniqueViolation
  | connectionLost
  deriving DecidableEq

/-- The columns `require_officer_or_owner` selects. -/
structure AuthView where
  applicantId : Option Int
  continuationToken : Option Text
  expiresAt : Option Int
  deriving DecidableEq

/-- The columns of the boarding query: the application's own, and those of the chain. -/
structure BoardingView where
  name : Option Text
  amount : Double
  termMonths : Int
  chain : Origination.Boarding

/-- The row of the inertness probe. -/
structure Inertness where
  applicantId : Option Int
  decisions : ℕ
  offers : ℕ
  loans : ℕ
  deriving DecidableEq

inductive Stmt (ι : Type)
  /-- `secrets.token_urlsafe(32)` -/
  | drawToken
  | readConfig
  | now
  /-- the transaction of `create_application` -/
  | insertApplication (name : Text) (amount : Double) (termMonths : Int) (token : Text)
      (expiresAt : Int)
  /-- the `SELECT` of `require_officer_or_owner` -/
  | selectAuth (appId : Int)
  /-- `SELECT applicant_id FROM users` -/
  | selectUser (id : Int)
  /-- the application `SELECT` of `terminal_accept_replay` -/
  | selectFundedToken (appId : Int)
  /-- the `SELECT` of `require_kyc_passed` -/
  | selectKyc (appId : Int)
  /-- the `SELECT` of `accept_offer` -/
  | selectBoarding (appId : Int)
  /-- `SELECT … FROM loans WHERE app_id = … ORDER BY id LIMIT 1` -/
  | selectLoan (appId : Int)
  /-- the loan `INSERT` of `board_to_servicing` -/
  | insertLoan (appId : Int) (name : Text) (principal apr noteRate : Double) (termMonths : Int)
  /-- `INSERT INTO balances … ON CONFLICT (loan_id) DO NOTHING` -/
  | insertBalance (loanId : Int) (balance : Double)
  /-- `UPDATE applications SET status = 'funded', continuation_token_expires_at = NULL` -/
  | fund (appId : Int)
  /-- the statement of `_persist_event` -/
  | persistEvent (appId : Int) (outcome : Outcome)
  /-- the offer `SELECT` of `create_offer` -/
  | selectOfferOf (appId : Int)
  /-- the `INSERT` of `create_offer` -/
  | insertOffer (appId : Int) (decisionEventId : Option Int)
  /-- the `INSERT` of `run_cip_check` -/
  | insertKyc (applicantId : Option Int)
  /-- the inertness probe of `abandon_application` -/
  | probe (appId : Int)
  /-- `psycopg2.connect` -/
  | connect (i : ι)
  /-- `DELETE FROM applications WHERE id = …` -/
  | deleteApplication (i : ι) (appId : Int)
  /-- `SELECT 1 FROM applications WHERE applicant_id = … LIMIT 1` -/
  | otherApplication (i : ι) (applicantId : Int)
  /-- `DELETE FROM kyc_checks WHERE applicant_id = …` -/
  | deleteKyc (i : ι) (applicantId : Int)
  /-- `DELETE FROM applicants WHERE id = …` -/
  | deleteApplicant (i : ι) (applicantId : Int)
  | commit (i : ι)
  | rollback (i : ι)

namespace Stmt

/-- The type of a statement's answer. -/
abbrev Res {ι : Type} : Stmt ι → Type
  | drawToken => Text
  | readConfig => Config
  | now => Int
  | insertApplication _ _ _ _ _ => Int
  | selectAuth _ => Option AuthView
  | selectUser _ => Option (Option Int)
  | selectFundedToken _ => Option (Option Text)
  | selectKyc _ => Option KycView
  | selectBoarding _ => Option BoardingView
  | selectLoan _ => Option LoanRow
  | insertLoan _ _ _ _ _ _ => Except DbError Int
  | insertBalance _ _ => Except DbError Unit
  | fund _ => Unit
  | persistEvent _ _ => Except DbError Int
  | selectOfferOf _ => Option OfferRow
  | insertOffer _ _ => Except DbError Int
  | insertKyc _ => Except DbError Int
  | probe _ => Option Inertness
  | connect _ => Unit
  | deleteApplication _ _ => Except DbError Unit
  | otherApplication _ _ => Except DbError Bool
  | deleteKyc _ _ => Except DbError Unit
  | deleteApplicant _ _ => Except DbError Unit
  | commit _ => Except DbError Unit
  | rollback _ => Unit

end Stmt

inductive Env (ι : Type)
  | tick (t : Int)
  | rotate (c : Config)
  | link (userId : Int) (applicantId : Option Int)
  | service (loanId : Int) (balance : Double)
  | report (appId : Int) (kyc : Option KycView) (chain : Origination.Boarding)
  | drop (i : ι)

/-- The tokens `secrets.token_urlsafe(32)` returns, in order: 43 characters each, no two the same. -/
structure Supply where
  token : ℕ → Text
  nonempty : ∀ n, token n ≠ []
  distinct : Function.Injective token

variable {ι : Type}

namespace World

/-! ## Submitting -/

def insertApplication (w : World ι) (name : Text) (amount : Double) (termMonths : Int)
    (token : Text) (expiresAt : Int) : Int × World ι :=
  let applicants := (w.applicants.insertNext (fun id => ⟨id, name⟩) fun _ => rfl).2
  (w.applications.next, { w with
    applicants := applicants
    applications := (w.applications.insertNext (fun id =>
      ⟨id, some w.applicants.next, amount, termMonths, submitted, some token, some expiresAt⟩)
      fun _ => rfl).2 })

/-! ## Reading -/

def authView (w : World ι) (appId : Int) : Option AuthView :=
  (w.application appId).map fun a => ⟨a.applicantId, a.continuationToken, a.expiresAt⟩

def fundedToken (w : World ι) (appId : Int) : Option (Option Text) :=
  ((w.application appId).filter (·.status = funded)).map ApplicationRow.continuationToken

def boardingView (w : World ι) (appId : Int) : Option BoardingView :=
  (w.application appId).map fun a =>
    ⟨(a.applicantId.bind w.applicant).map ApplicantRow.name, a.amount, a.termMonths,
      { w.chain appId with outcome := w.decisions appId }⟩

def inertness (w : World ι) (appId : Int) : Option Inertness :=
  (w.application appId).map fun a =>
    ⟨a.applicantId, if (w.decisions appId).isSome then 1 else 0,
      (w.offers.rows.filter (·.appId = some appId)).length,
      (w.loans.rows.filter (·.appId = some appId)).length⟩

/-! ## Boarding -/

def insertLoan (w : World ι) (appId : Int) (name : Text) (principal apr noteRate : Double)
    (termMonths : Int) : Except DbError Int × World ι :=
  match w.loans.insertNext (fun id => ⟨id, some appId, name, principal, apr, noteRate, termMonths⟩)
    fun _ => rfl with
  | (none, t) => (.error .uniqueViolation, { w with loans := t })
  | (some l, t) => (.ok l.id, { w with loans := t })

def insertBalance (w : World ι) (loanId : Int) (balance : Double) : Except DbError Unit × World ι :=
  if w.loans.rows.any (·.id = loanId) then
    match w.balances.insert? ⟨loanId, balance⟩ with
    | none => (.ok (), w)
    | some t => (.ok (), { w with balances := t })
  else (.error .foreignKeyViolation, w)

/-- The `UPDATE` on one row. -/
def fundRow (appId : Int) (a : ApplicationRow) : ApplicationRow :=
  if a.id = appId then { a with status := funded, expiresAt := none } else a

theorem fundRow_id (appId : Int) (a : ApplicationRow) : (fundRow appId a).id = a.id := by
  unfold fundRow
  split <;> rfl

def fund (w : World ι) (appId : Int) : World ι :=
  { w with
    applications := w.applications.update (fundRow appId) (fundRow_id appId) fun _ _ h => h }

/-! ## Deciding and offering -/

def persistEvent (w : World ι) (appId : Int) (outcome : Outcome) :
    Option (Except DbError Int × World ι) :=
  if w.Deleting appId then none
  else if w.application appId = none then
    some (.error .foreignKeyViolation, { w with events := w.events.skip })
  else some (.ok w.events.next, { w with
    events := (w.events.insertNext (fun id => ⟨id, appId⟩) fun _ => rfl).2
    decisions := Function.update w.decisions appId (some outcome) })

def insertOffer (w : World ι) (appId : Int) (decisionEventId : Option Int) :
    Option (Except DbError Int × World ι) :=
  if w.Deleting appId then none
  else if w.application appId = none ∨
      ∃ e, decisionEventId = some e ∧ w.events.rows.any (·.id = e) = false then
    some (.error .foreignKeyViolation, { w with offers := w.offers.skip })
  else
    match w.offers.insertNext (fun id => ⟨id, some appId, decisionEventId⟩) fun _ => rfl with
    | (none, t) => some (.error .uniqueViolation, { w with offers := t })
    | (some o, t) => some (.ok o.id, { w with offers := t })

def insertKyc (w : World ι) (applicantId : Option Int) : Option (Except DbError Int × World ι) :=
  if ∃ p, applicantId = some p ∧ ∃ t ∈ w.transactions, p ∈ t.applicants then none
  else if ∃ p, applicantId = some p ∧ w.applicant p = none then
    some (.error .foreignKeyViolation, { w with kycChecks := w.kycChecks.skip })
  else some (.ok w.kycChecks.next, { w with
    kycChecks := (w.kycChecks.insertNext (fun id => ⟨id, applicantId⟩) fun _ => rfl).2 })

/-! ## The deleting transaction -/

section Sessions

variable [DecidableEq ι]

def transaction (w : World ι) (i : ι) : Option (Transaction ι) :=
  w.transactions.find? (·.session = i)

/-- The open transactions of the other sessions. -/
def others (w : World ι) (i : ι) : List (Transaction ι) :=
  w.transactions.filter (·.session ≠ i)

/-- The transaction of a session becomes `t`. -/
def setTransaction (w : World ι) (t : Transaction ι) : World ι :=
  { w with transactions := t :: w.others t.session }

def connect (w : World ι) (i : ι) : World ι := w.setTransaction ⟨i, [], [], []⟩

/-- The session's transaction ends without a trace. -/
def rollback (w : World ι) (i : ι) : World ι := { w with transactions := w.others i }

/-- The `DELETE` of an application and the check of the keys that refer to it. -/
def deleteApplication (w : World ι) (t : Transaction ι) (appId : Int) :
    Option (Except DbError Unit × World ι) :=
  if ∃ t' ∈ w.others t.session, appId ∈ t'.applications then none
  else if w.application appId = none then some (.ok (), w)
  else if w.Referenced appId then some (.error .foreignKeyViolation, w)
  else some (.ok (), w.setTransaction { t with applications := appId :: t.applications })

/-- Another application of the applicant, as the transaction sees them. -/
def otherApplication (w : World ι) (t : Transaction ι) (applicantId : Int) : Bool :=
  w.applications.rows.any fun a => a.applicantId = some applicantId ∧ a.id ∉ t.applications

def kycOf (w : World ι) (applicantId : Int) : List Int :=
  (w.kycChecks.rows.filter (·.applicantId = some applicantId)).map KycRow.id

def deleteKyc (w : World ι) (t : Transaction ι) (applicantId : Int) :
    Option (Except DbError Unit × World ι) :=
  if ∃ t' ∈ w.others t.session, ∃ k ∈ w.kycOf applicantId, k ∈ t'.kycChecks then none
  else some (.ok (), w.setTransaction { t with kycChecks := w.kycOf applicantId ++ t.kycChecks })

/-- The `DELETE` of an applicant; a row that refers to it, and that another transaction has deleted,
is waited for. -/
def deleteApplicant (w : World ι) (t : Transaction ι) (applicantId : Int) :
    Option (Except DbError Unit × World ι) :=
  if ∃ t' ∈ w.others t.session, applicantId ∈ t'.applicants ∨
      (∃ a ∈ w.applications.rows, a.applicantId = some applicantId ∧ a.id ∈ t'.applications) ∨
      ∃ k ∈ w.kycOf applicantId, k ∈ t'.kycChecks then none
  else if w.applicant applicantId = none then some (.ok (), w)
  else if w.otherApplication t applicantId = true ∨
      ∃ k ∈ w.kycOf applicantId, k ∉ t.kycChecks then
    some (.error .foreignKeyViolation, w)
  else some (.ok (), w.setTransaction { t with applicants := applicantId :: t.applicants })

/-- What a transaction has deleted is gone. -/
def apply (w : World ι) (t : Transaction ι) : World ι :=
  { w with
    applications := w.applications.delete fun a => a.id ∈ t.applications
    kycChecks := w.kycChecks.delete fun k => k.id ∈ t.kycChecks
    applicants := w.applicants.delete fun p => p.id ∈ t.applicants
    transactions := w.others t.session }

/-- A statement of a session's transaction, which a lost connection does not reach. -/
def within {α : Type} (w : World ι) (i : ι)
    (f : Transaction ι → Option (Except DbError α × World ι)) :
    Option (Except DbError α × World ι) :=
  match w.transaction i with
  | none => some (.error .connectionLost, w)
  | some t => f t

/-! ## The machine -/

variable (S : Supply)

def exec : (s : Stmt ι) → World ι → Option (s.Res × World ι)
  | .drawToken, w => some (S.token w.drawn, { w with drawn := w.drawn + 1 })
  | .readConfig, w => some (w.config, w)
  | .now, w => some (w.now, w)
  | .insertApplication name amount termMonths token expiresAt, w =>
    some (w.insertApplication name amount termMonths token expiresAt)
  | .selectAuth appId, w => some (w.authView appId, w)
  | .selectUser id, w => some (w.users id, w)
  | .selectFundedToken appId, w => some (w.fundedToken appId, w)
  | .selectKyc appId, w => some (w.kycView appId, w)
  | .selectBoarding appId, w => some (w.boardingView appId, w)
  | .selectLoan appId, w => some (w.loanOf appId, w)
  | .insertLoan appId name principal apr noteRate termMonths, w =>
    some (w.insertLoan appId name principal apr noteRate termMonths)
  | .insertBalance loanId balance, w => some (w.insertBalance loanId balance)
  | .fund appId, w => if w.Deleting appId then none else some ((), w.fund appId)
  | .persistEvent appId outcome, w => w.persistEvent appId outcome
  | .selectOfferOf appId, w => some (w.offerOf appId, w)
  | .insertOffer appId decisionEventId, w => w.insertOffer appId decisionEventId
  | .insertKyc applicantId, w => w.insertKyc applicantId
  | .probe appId, w => some (w.inertness appId, w)
  | .connect i, w => some ((), w.connect i)
  | .deleteApplication i appId, w => w.within i fun t => w.deleteApplication t appId
  | .otherApplication i applicantId, w =>
    w.within i fun t => some (.ok (w.otherApplication t applicantId), w)
  | .deleteKyc i applicantId, w => w.within i fun t => w.deleteKyc t applicantId
  | .deleteApplicant i applicantId, w => w.within i fun t => w.deleteApplicant t applicantId
  | .commit i, w => w.within i fun t => some (.ok (), w.apply t)
  | .rollback i, w => some ((), w.rollback i)

/-- Servicing's `UPDATE balances` on one row. -/
def serviceRow (loanId : Int) (balance : Double) (b : BalanceRow) : BalanceRow :=
  if b.loanId = loanId then { b with balance := balance } else b

theorem serviceRow_loanId (loanId : Int) (balance : Double) (b : BalanceRow) :
    (serviceRow loanId balance b).loanId = b.loanId := by
  unfold serviceRow
  split <;> rfl

theorem serviceRow_clash (loanId : Int) (balance : Double) (b b' : BalanceRow)
    (h : sameLoan (serviceRow loanId balance b) (serviceRow loanId balance b') = true) :
    sameLoan b b' = true := by
  unfold sameLoan Ledger.clashOn at h ⊢
  dsimp only at h ⊢
  rwa [serviceRow_loanId, serviceRow_loanId] at h

def env : Env ι → World ι → World ι
  | .tick t, w => { w with now := max w.now t }
  | .rotate c, w => if w.config.Rotates c then { w with config := c } else w
  | .link userId applicantId, w =>
    { w with users := Function.update w.users userId (some applicantId) }
  | .service loanId balance, w =>
    { w with balances := w.balances.update (serviceRow loanId balance) (serviceRow_clash _ _) }
  | .report appId kyc chain, w =>
    { w with
      kycView := Function.update w.kycView appId kyc
      chain := Function.update w.chain appId chain }
  | .drop i, w => w.rollback i

end Sessions

end World

/-- The statements of all sessions over the world. -/
abbrev intake (ι : Type) [DecidableEq ι] (S : Supply) : Machine where
  World := World ι
  Stmt := Stmt ι
  Res := Stmt.Res
  Env := Env ι
  exec := World.exec S
  env := World.env

end Meridian.Intake
