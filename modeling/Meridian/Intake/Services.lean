import Meridian.Interleave.Run
import Meridian.Intake.Statements

/-!
# The services' functions as programs

`intake.py`, `authz.py`, and the accept, abandon and board routes of origination-service as programs
over the statements of `Statements.lean`, with the one write each of decision-service's `decide`,
disclosure-service's `create_offer` and kyc-service's `run_cip_check` makes to these tables.

A `Task` is one call; `start` runs any family of calls from any world. A call is a session of its
own, and one that is never picked again has crashed. The guards of the boarding branch are those of
`Origination.boardingGuards`.
-/

namespace Meridian.Intake

open Python Interleave
open Origination (Outcome KycView kycPassed boardingGuards)

variable {ι : Type} [DecidableEq ι] {S : Supply}

abbrev P (ι : Type) [DecidableEq ι] (S : Supply) := Prog (intake ι S)

def sql (s : Stmt ι) : P ι S s.Res := Prog.issue (M := intake ι S) s

/-- Why a call does not go through. -/
inductive Refused
  /-- 404, `application not found` -/
  | applicationNotFound
  /-- 409, `application is not inert; refusing to abandon` -/
  | notInert
  /-- a refusal of `accept_offer` before it boards -/
  | boarding (r : Origination.Refused)
  /-- 409, `boarding conflict without a retrievable loan` -/
  | conflictWithoutRow
  /-- `RuntimeError`, `CONTINUATION_TOKEN_KEYS is not configured` -/
  | noTokenKey
  /-- a database call raised -/
  | db (e : DbError)
  deriving DecidableEq

/-! ## Submitting -/

/-- What `create_application` reads of a request. -/
structure ApplicationIn where
  name : Text
  amount : Double
  termMonths : Int

/-- `timedelta(days=…)`, in microseconds. -/
def days (n : Int) : Int := n * (24 * 60 * 60 * 1000000)

section Tokens

variable (hmac : Text → Text → Text)

/-- `create_application`: the id and the raw token. -/
def createApplication (b : ApplicationIn) : P ι S (Except Refused (Int × Text)) := do
  let raw ← sql .drawToken
  let config ← sql .readConfig
  match hashToken hmac config raw with
  | none => pure (.error .noTokenKey)
  | some token =>
    let now ← sql .now
    let id ← sql (.insertApplication b.name b.amount b.termMonths token (now + days config.ttlDays))
    pure (.ok (id, raw))

/-! ## Authorizing -/

/-- The headers of a request. -/
structure Caller where
  /-- `X-User-Role` -/
  role : Option Text
  /-- `X-User-Id` -/
  userId : Option Text
  /-- `X-Application-Token` -/
  token : Option Text

/-- `_is_officer`; a letter outside ASCII is lowered to none of these words' letters. -/
def isOfficer (role : Option Text) : Bool :=
  ["underwriter".toList, "admin".toList].contains ((strip (role.getD [])).map Char.toLower)

/-- `_as_int` -/
def asInt (value : Option Text) : Option Int := value.bind parseInt

/-- A text that is not empty. -/
def truthy (t : Option Text) : Option Text := t.filter (· ≠ [])

/-- The caller's `users.applicant_id` is the application's. -/
def ownedBy (userApplicant : Option (Option Int)) (applicantId : Option Int) : Bool :=
  userApplicant.join.isSome && applicantId == userApplicant.join

/-- The continuation token's part of `require_officer_or_owner`. -/
def requireToken (token : Option Text) (row : AuthView) : P ι S (Except Refused Unit) :=
  match truthy token, truthy row.continuationToken with
  | some raw, some stored =>
    match row.expiresAt with
    | none => pure (.error .applicationNotFound)
    | some t => do
      let now ← sql .now
      if expired (some t) now then pure (.error .applicationNotFound)
      else
        let config ← sql .readConfig
        pure (if verifyToken hmac config raw stored then .ok () else .error .applicationNotFound)
  | _, _ => pure (.error .applicationNotFound)

/-- `require_officer_or_owner` -/
def requireOfficerOrOwner (appId : Int) (c : Caller) : P ι S (Except Refused Unit) :=
  if isOfficer c.role then pure (.ok ())
  else
    match asInt c.userId with
    | none =>
      if truthy c.token = none then pure (.error .applicationNotFound)
      else do
        match ← sql (.selectAuth appId) with
        | none => pure (.error .applicationNotFound)
        | some row => requireToken hmac c.token row
    | some userId => do
      match ← sql (.selectAuth appId) with
      | none => pure (.error .applicationNotFound)
      | some row =>
        let user ← sql (.selectUser userId)
        if ownedBy user row.applicantId then pure (.ok ()) else requireToken hmac c.token row

/-- `terminal_accept_replay` -/
def terminalAcceptReplay (appId : Int) (token : Option Text) : P ι S (Option Int) :=
  match truthy token with
  | none => pure none
  | some raw => do
    match ← sql (.selectFundedToken appId) with
    | none => pure none
    | some token =>
      match truthy token with
      | none => pure none
      | some stored =>
        let config ← sql .readConfig
        if verifyToken hmac config raw stored then
          let loan ← sql (.selectLoan appId)
          pure (loan.map LoanRow.id)
        else pure none

end Tokens

/-! ## Boarding -/

/-- `board_to_servicing` -/
def boardToServicing (appId : Int) (name : Text) (principal apr : Double) (termMonths : Int)
    (noteRate : Option Double) : P ι S (Except DbError Int) := do
  match ← sql (.insertLoan appId name principal apr (noteRate.getD apr) termMonths) with
  | .error e => pure (.error e)
  | .ok loanId =>
    match ← sql (.insertBalance loanId principal) with
    | .error e => pure (.error e)
    | .ok () => pure (.ok loanId)

/-- `BoardIn` -/
structure BoardIn where
  appId : Int
  applicantName : Text
  principal : Double
  annualRatePct : Double
  termMonths : Int

/-- `board` -/
def board (b : BoardIn) : P ι S (Except Refused Int) := do
  match ← boardToServicing b.appId b.applicantName b.principal b.annualRatePct b.termMonths none with
  | .error e => pure (.error (.db e))
  | .ok loanId => pure (.ok loanId)

/-- The two writes every path of `accept_offer` ends with, and the answer. -/
def reconcile (appId loanId : Int) (principal : Double) : P ι S (Except Refused Int) := do
  match ← sql (.insertBalance loanId principal) with
  | .error e => pure (.error (.db e))
  | .ok () =>
    sql (.fund appId)
    pure (.ok loanId)

/-- The branch without a loan. -/
def boardOffer (appId : Int) (r : BoardingView) (apr : Double) : P ι S (Except Refused Int) :=
  match boardingGuards r.chain apr with
  | .error refused => pure (.error (.boarding refused))
  | .ok noteRate => do
    match ← boardToServicing appId ((truthy r.name).getD "Borrower".toList) r.amount apr r.termMonths
      (some noteRate) with
    | .ok loanId => reconcile appId loanId r.amount
    | .error .uniqueViolation =>
      match ← sql (.selectLoan appId) with
      | some won => reconcile appId won.id won.principal
      | none => pure (.error .conflictWithoutRow)
    | .error e => pure (.error (.db e))

/-- `accept_offer` once the caller is authorized. -/
def acceptAuthorized (appId : Int) : P ι S (Except Refused Int) := do
  let view ← sql (.selectKyc appId)
  if kycPassed view = false then pure (.error (.boarding .kycNotPassed))
  else
    match ← sql (.selectBoarding appId) with
    | none => pure (.error .applicationNotFound)
    | some r =>
      if r.chain.outcome ≠ some .approve then pure (.error (.boarding .notApproved))
      else
        match r.chain.apr with
        | none => pure (.error (.boarding .noOffer))
        | some apr =>
          match ← sql (.selectLoan appId) with
          | some existing => reconcile appId existing.id existing.principal
          | none => boardOffer appId r apr

/-- `accept_offer` -/
def acceptOffer (hmac : Text → Text → Text) (appId : Int) (c : Caller) :
    P ι S (Except Refused Int) := do
  match ← requireOfficerOrOwner hmac appId c with
  | .ok () => acceptAuthorized appId
  | .error refused =>
    match ← terminalAcceptReplay hmac appId c.token with
    | some loanId => pure (.ok loanId)
    | none => pure (.error refused)

/-! ## Abandoning -/

/-- The statements of the deleting transaction, before its commit. -/
def deleteRows (i : ι) (appId : Int) (applicantId : Option Int) : P ι S (Except DbError Unit) := do
  match ← sql (.deleteApplication i appId) with
  | .error e => pure (.error e)
  | .ok () =>
    match applicantId with
    | none => pure (.ok ())
    | some p =>
      match ← sql (.otherApplication i p) with
      | .error e => pure (.error e)
      | .ok true => pure (.ok ())
      | .ok false =>
        match ← sql (.deleteKyc i p) with
        | .error e => pure (.error e)
        | .ok () => sql (.deleteApplicant i p)

/-- The end of `db.transaction` when the block raised. -/
def giveUp (i : ι) (e : DbError) : P ι S (Except Refused Unit) := do
  sql (.rollback i)
  pure (.error (if e = .foreignKeyViolation then .notInert else .db e))

/-- `abandon_application` -/
def abandonApplication (i : ι) (appId : Int) : P ι S (Except Refused Unit) := do
  match ← sql (.probe appId) with
  | none => pure (.error .applicationNotFound)
  | some r =>
    if r.decisions ≠ 0 ∨ r.offers ≠ 0 ∨ r.loans ≠ 0 then pure (.error .notInert)
    else do
      sql (.connect i)
      match ← deleteRows i appId r.applicantId with
      | .error e => giveUp i e
      | .ok () =>
        match ← sql (.commit i) with
        | .error e => giveUp i e
        | .ok () => pure (.ok ())

/-! ## The other writers -/

/-- The write of `decide`. -/
def decide (appId : Int) (outcome : Outcome) : P ι S (Except Refused Int) := do
  match ← sql (.persistEvent appId outcome) with
  | .error e => pure (.error (.db e))
  | .ok id => pure (.ok id)

/-- `create_offer`, which `make_offer` calls with the event it read. -/
def createOffer (appId : Int) (decisionEventId : Option Int) : P ι S (Except Refused Int) := do
  match ← sql (.selectOfferOf appId) with
  | some existing => pure (.ok existing.id)
  | none =>
    match ← sql (.insertOffer appId decisionEventId) with
    | .ok id => pure (.ok id)
    | .error .uniqueViolation =>
      match ← sql (.selectOfferOf appId) with
      | some won => pure (.ok won.id)
      | none => pure (.error .conflictWithoutRow)
    | .error e => pure (.error (.db e))

/-- The write of `run_cip_check`. -/
def cipCheck (applicantId : Option Int) : P ι S (Except Refused Int) := do
  match ← sql (.insertKyc applicantId) with
  | .error e => pure (.error (.db e))
  | .ok id => pure (.ok id)

/-! ## Tasks -/

/-- One call. -/
inductive Task
  | submit (b : ApplicationIn)
  /-- a route that starts with `require_officer_or_owner` -/
  | request (appId : Int) (c : Caller)
  | accept (appId : Int) (c : Caller)
  | board (b : BoardIn)
  | abandon (appId : Int)
  | decide (appId : Int) (outcome : Outcome)
  | createOffer (appId : Int) (decisionEventId : Option Int)
  | cipCheck (applicantId : Option Int)

/-- What a call returns or raises. -/
inductive Answer
  | submitted (r : Except Refused (Int × Text))
  | authorized (r : Except Refused Unit)
  | accepted (r : Except Refused Int)
  | abandoned (r : Except Refused Unit)
  | wrote (r : Except Refused Int)

/-- The program of a call. -/
def Task.prog (hmac : Text → Text → Text) (i : ι) : Task → P ι S Answer
  | submit b => do pure (.submitted (← createApplication hmac b))
  | request appId c => do pure (.authorized (← requireOfficerOrOwner hmac appId c))
  | accept appId c => do pure (.accepted (← acceptOffer hmac appId c))
  | board b => do pure (.wrote (← Intake.board b))
  | abandon appId => do pure (.abandoned (← abandonApplication i appId))
  | decide appId outcome => do pure (.wrote (← Intake.decide appId outcome))
  | createOffer appId e => do pure (.wrote (← Intake.createOffer appId e))
  | cipCheck applicantId => do pure (.wrote (← Intake.cipCheck applicantId))

/-- Any family of calls, started in a world. -/
def start (S : Supply) (hmac : Text → Text → Text) (tasks : ι → Task) (w : World ι) :
    Interleave.Config (intake ι S) ι Answer :=
  ⟨w, fun i => (tasks i).prog hmac i⟩

/-! ## An application to run them on -/

/-- Nothing is known of an application. -/
def noChain : Origination.Boarding where
  amount := none
  termMonths := none
  apr := none
  outcome := none
  disclosureStatus := none
  disclosureDeliveredAt := none
  disclosureSnapshot := none
  disclosureHasDocument := false
  offerDecisionEventId := none
  disclosureDecisionEventId := none
  disclosureDecisionOutcome := none

/-- A database without rows. -/
def World.initial (config : Config) : World ι where
  now := 0
  config := config
  drawn := 0
  users := fun _ => none
  applicants := .empty 1
  applications := .empty 1
  kycChecks := .empty 1
  decisions := fun _ => none
  events := .empty 1
  offers := .empty 1
  loans := .empty 1
  balances := .empty
  transactions := []
  kycView := fun _ => none
  chain := fun _ => noChain

/-- The offer's disclosure is delivered. -/
def deliveredChain : Origination.Boarding :=
  { noChain with
    apr := some (.ofRat 13.760)
    disclosureStatus := some .delivered
    disclosureDeliveredAt := some 0
    disclosureSnapshot := some ⟨100000, "7.99".toList, 12, "0.03".toList⟩
    disclosureHasDocument := true
    offerDecisionEventId := some 1
    disclosureDecisionEventId := some 1
    disclosureDecisionOutcome := some .approve }

/-- The identity check has passed. -/
def passedKyc : KycView := ⟨false, none, some ⟨1, 1, true, true, true, true⟩⟩

def sampleSupply : Supply where
  token n := List.replicate (n + 1) 'A'
  nonempty n := by simp
  distinct := by
    intro m n h
    simpa using congrArg List.length h

/-- The digest of the first token under the key `pepper`, and a text of its own for every other. -/
def sampleHmac (secret raw : Text) : Text :=
  if secret = "pepper".toList ∧ raw = "A".toList then
    "b6d0b9287a486141d642a58d00458d10af4c3093a506ec0371ec75a6acd8783e".toList
  else 'x' :: raw

theorem sampleHmac_collisionFree : CollisionFree sampleHmac := by
  have hfirst : ∀ {raw : Text},
      "b6d0b9287a486141d642a58d00458d10af4c3093a506ec0371ec75a6acd8783e".toList ≠ 'x' :: raw := by
    intro raw h
    cases h
  intro secret secret' raw raw' h
  unfold sampleHmac at h
  split_ifs at h with hs hs'
  · exact hs.2.trans hs'.2.symm
  · exact absurd h hfirst
  · exact absurd h.symm hfirst
  · exact (List.cons.inj h).2

def sampleConfig : Config := ⟨"v1:pepper".toList, "service".toList, "production".toList, 7⟩

/-- An application for 1000 over twelve months. -/
def sampleApplication : ApplicationIn := ⟨"Ann".toList, .ofRat 1000, 12⟩

def officer : Caller := ⟨some "underwriter".toList, none, none⟩

inductive Call
  | first
  | second
  | third
  | fourth
  deriving DecidableEq

/-- The id an acceptance answered. -/
def boardedLoan (p : P ι S Answer) : Option Int :=
  match p with
  | .ret (.accepted (.ok loanId)) => some loanId
  | _ => none

theorem eq_ret_of_boardedLoan {p : P ι S Answer} {loanId : Int} (h : boardedLoan p = some loanId) :
    p = .ret (.accepted (.ok loanId)) := by
  unfold boardedLoan at h
  split at h
  · cases h
    rfl
  · cases h

end Meridian.Intake
