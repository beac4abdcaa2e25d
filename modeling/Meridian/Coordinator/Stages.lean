import Meridian.Disclosure.Record
import Meridian.Python.Format
import Meridian.Python.Value
import Meridian.Workflow.Graph

/-!
# The stages of the disclosure pipeline

`LangGraphDisclosureCoordinator` as a graph over its `DisclosureState`. A node returns the keys it
writes, which are merged into the state key by key; `State` is both the state and such an update.

What comes from outside is an `Outside`: what `gather` and the services return, what the model
replies to each call of the maker and of the checker, and whether a brief is grounded. A call of any
of them may raise. `invoke` runs the graph as `_build` declares it, under LangGraph's own limit.
-/

namespace Meridian.Coordinator

open Python Disclosure Workflow

/-! ## The state -/

/-- `BlockReason`; the verdict of a passed gate clears the reason to `""`. -/
inductive BlockReason
  | cleared
  | renderMismatch
  | numberWrong
  | provenanceIncomplete
  | notApproved
  deriving DecidableEq

/-- What a block says beyond its reason. -/
inductive Detail
  /-- `no decision event` -/
  | noDecisionEvent
  /-- `outcome={outcome}` -/
  | outcome (v : Option Value)
  /-- `missing={fields}` -/
  | missing (fields : List Figure)
  /-- `fields={fields}` -/
  | fields (fields : List Figure)
  /-- `disclosure_id={id} missing={missing}` -/
  | chain (disclosureId : Value) (missing : List Text)

/-- The checker's brief. -/
structure Narration where
  summary : Text
  officerAction : Text

/-- `DisclosureState`: a key that is not there is `none`. -/
structure State where
  applicationId : Option Value := none
  outcome : Option Value := none
  decisionEventId : Option Value := none
  principal : Option Value := none
  annualRate : Option Value := none
  termMonths : Option Value := none
  offerId : Option Value := none
  figures : Option (Box Text) := none
  document : Option Value := none
  narration : Option Narration := none
  narrationDegraded : Option Bool := none
  disclosure : Option Value := none
  provenance : Option Value := none
  attempts : Option ℕ := none
  checksPassed : Option ℕ := none
  blocked : Option Bool := none
  reason : Option BlockReason := none
  detail : Option Detail := none

namespace State

/-- `{**s, **u}` -/
def merge (s u : State) : State where
  applicationId := u.applicationId <|> s.applicationId
  outcome := u.outcome <|> s.outcome
  decisionEventId := u.decisionEventId <|> s.decisionEventId
  principal := u.principal <|> s.principal
  annualRate := u.annualRate <|> s.annualRate
  termMonths := u.termMonths <|> s.termMonths
  offerId := u.offerId <|> s.offerId
  figures := u.figures <|> s.figures
  document := u.document <|> s.document
  narration := u.narration <|> s.narration
  narrationDegraded := u.narrationDegraded <|> s.narrationDegraded
  disclosure := u.disclosure <|> s.disclosure
  provenance := u.provenance <|> s.provenance
  attempts := u.attempts <|> s.attempts
  checksPassed := u.checksPassed <|> s.checksPassed
  blocked := u.blocked <|> s.blocked
  reason := u.reason <|> s.reason
  detail := u.detail <|> s.detail

/-- `state.get("blocked")` as a condition. -/
def isBlocked (s : State) : Bool := s.blocked.getD false

end State

/-- `_blocked` -/
def blocked (reason : BlockReason) (detail : Detail) : State :=
  { blocked := some true, reason := some reason, detail := some detail }

/-! ## Outside -/

/-- What ends a run without an answer. -/
inductive Raised
  | misread (m : Misread)
  /-- an exception of `gather`, of a service or of a model call -/
  | outside (cause : Text)
  /-- `GraphRecursionError` -/
  | recursionLimit
  deriving DecidableEq

structure OfferRequest where
  applicationId : Value
  principal : Value
  annualRate : Value
  termMonths : Value
  decisionEventId : Value

structure MakerRequest where
  figures : Box Text
  termMonths : Value
  noteRatePct : Value

structure CheckerRequest where
  applicationId : Value
  termMonths : Value
  noteRatePct : Value
  checksPassed : ℕ

structure PersistRequest where
  offerId : Value
  decisionEventId : Value
  principal : Value
  annualRate : Value
  termMonths : Value
  document : Value

structure Outside where
  gather : Value → Except Text State
  computeOffer : OfferRequest → Except Text Value
  /-- The reply to a call of the maker, by the number of calls before it. -/
  maker : ℕ → MakerRequest → Except Text Value
  /-- The checker's brief; nothing where the client served its fallback. -/
  checker : CheckerRequest → Except Text (Option Narration)
  /-- `_narration_is_grounded` -/
  grounded : Text → Value → Value → Bool
  persistDisclosure : PersistRequest → Except Text Value
  readProvenance : Value → Except Text Value
  /-- `str` of a list or a dictionary. -/
  containerText : Value → Text

def fromOutside {α : Type} : Except Text α → Except Raised α
  | .ok a => .ok a
  | .error cause => .error (.outside cause)

def reading {α : Type} : Except Misread α → Except Raised α
  | .ok a => .ok a
  | .error m => .error (.misread m)

/-- `state[key]` -/
def need {α : Type} : Option α → Except Raised α
  | some a => .ok a
  | none => .error (.misread .keyError)

/-! ## Figures as text -/

/-- `FIGURE_FIELDS` -/
def figureFields : List Figure :=
  [.apr, .financeCharge, .amountFinanced, .totalOfPayments, .monthlyPayment]

/-- The key of a figure. -/
def figureKey : Figure → Text
  | .apr => "apr".toList
  | .financeCharge => "finance_charge".toList
  | .amountFinanced => "amount_financed".toList
  | .totalOfPayments => "total_of_payments".toList
  | .monthlyPayment => "monthly_payment".toList

/-- `FIGURE_PLACES.get(field, _DEFAULT_PLACES)` -/
def figurePlaces : Figure → ℕ
  | .apr => 3
  | _ => 2

/-- A figure of a box. -/
def figure {α : Type} (b : Box α) : Figure → α
  | .apr => b.apr
  | .financeCharge => b.financeCharge
  | .amountFinanced => b.amountFinanced
  | .totalOfPayments => b.totalOfPayments
  | .monthlyPayment => b.monthlyPayment

/-- A box from its figures, read in the order of `FIGURE_FIELDS`. -/
def boxOf {ε α : Type} (f : Figure → Except ε α) : Except ε (Box α) := do
  let apr ← f .apr
  let financeCharge ← f .financeCharge
  let amountFinanced ← f .amountFinanced
  let totalOfPayments ← f .totalOfPayments
  let monthlyPayment ← f .monthlyPayment
  pure ⟨apr, financeCharge, monthlyPayment, amountFinanced, totalOfPayments⟩

/-- `_as_text` -/
def asText (containerText : Value → Text) (places : ℕ) : Value → Option Text
  | .none => none
  | .str t => some t
  | .float x => some (x.fixed places)
  | .int n => some (Item.intText n)
  | .bool b => some (if b then "True".toList else "False".toList)
  | v => some (containerText v)

/-! ## The nodes -/

inductive Node
  | route
  | compute
  | assemble
  | verify
  | narrate
  | persist
  deriving DecidableEq

/-- `MAX_ASSEMBLE_ATTEMPTS` -/
def maxAssembleAttempts : ℕ := 2

/-- `PIPELINE_OUTCOMES` has the one outcome. -/
def pipelineOutcome (v : Option Value) : Bool := (v.getD .none).isStr "approve".toList

/-- `_route` -/
def route (w : Outside) (s : State) : Except Raised State := do
  let applicationId ← need s.applicationId
  let context ← fromOutside (w.gather applicationId)
  if (context.decisionEventId.getD .none).truthy = false then
    pure (context.merge (blocked .provenanceIncomplete .noDecisionEvent))
  else if pipelineOutcome context.outcome = false then
    pure (context.merge (blocked .notApproved (.outcome context.outcome)))
  else pure (context.merge { attempts := some 0, blocked := some false })

/-- The texts of a computed offer's figures. -/
def figureTexts (w : Outside) (disclosure : Value) : Except Misread (Box (Option Text)) :=
  boxOf fun f => do
    let v ← disclosure.get (figureKey f)
    pure (asText w.containerText (figurePlaces f) v)

/-- The figures of a computed offer: under `disclosure`, or the offer's own. -/
def disclosureOf (offer : Value) : Except Misread Value :=
  match offer with
  | .dict members => .ok ((members.lookup "disclosure".toList).getD offer)
  | _ => .error .attributeError

/-- `_compute` -/
def compute (w : Outside) (s : State) : Except Raised State := do
  let applicationId ← need s.applicationId
  let principal ← need s.principal
  let annualRate ← need s.annualRate
  let termMonths ← need s.termMonths
  let offer ← fromOutside (w.computeOffer
    ⟨applicationId, principal, annualRate, termMonths, s.decisionEventId.getD .none⟩)
  let disclosure ← reading (disclosureOf offer)
  let texts ← reading (figureTexts w disclosure)
  match figureFields.filter fun f => (figure texts f).isNone with
  | f :: missing => pure (blocked .numberWrong (.missing (f :: missing)))
  | [] =>
    let authorizing ← reading (offer.get "decision_event_id".toList)
    let offerId ← reading (offer.get "offer_id".toList)
    pure
      { figures := some (texts.map (·.getD []))
        offerId := some offerId
        decisionEventId := some
          (match authorizing with
          | .none => s.decisionEventId.getD .none
          | v => v) }

/-- `_assemble` -/
def assemble (w : Outside) (calls : ℕ) (s : State) : Except Raised State := do
  let figures ← need s.figures
  let termMonths ← need s.termMonths
  let annualRate ← need s.annualRate
  let document ← fromOutside (w.maker calls ⟨figures, termMonths, annualRate⟩)
  pure { document := some document, attempts := some (s.attempts.getD 0 + 1) }

/-- The figures of a document. -/
def renderedFigures (document : Value) : Except Misread Value := do
  let figures ← (document.orElse (.dict [])).get "figures".toList
  pure (figures.orElse (.dict []))

/-- A figure of a document. -/
def rendered (document : Value) (f : Figure) : Except Misread Value := do
  let figures ← renderedFigures document
  figures.get (figureKey f)

/-- The fields of a document that are not spelled as expected, as far as they can be read. -/
def mismatched (document : Value) (expected : Box Text) : List Figure → Except Misread (List Figure)
  | [] => .ok []
  | f :: rest => do
    let v ← rendered document f
    let names ← mismatched document expected rest
    pure (if v.isStr (figure expected f) then names else f :: names)

/-- `_verify` -/
def verify (s : State) : Except Raised State := do
  let figures ← need s.figures
  match ← reading (mismatched (s.document.getD .none) figures figureFields) with
  | f :: rest => pure (blocked .renderMismatch (.fields (f :: rest)))
  | [] =>
    pure { blocked := some false, reason := some .cleared, checksPassed := some figureFields.length }

/-- `NARRATION_UNAVAILABLE` -/
def narrationUnavailable : Narration where
  summary := ("Narration unavailable for this disclosure. The figures were computed " ++
    "deterministically and matched the rendered document, and the record was written; " ++
    "only the officer brief is missing. Read the document before sending.").toList
  officerAction := "hold_for_compliance".toList

/-- The narration that is served of a reply. -/
def brief (w : Outside) (termMonths annualRate : Value) : Option Narration → State
  | none => { narration := some narrationUnavailable, narrationDegraded := some true }
  | some narration =>
    if w.grounded narration.summary termMonths annualRate then
      { narration := some narration, narrationDegraded := some false }
    else { narration := some narrationUnavailable, narrationDegraded := some true }

/-- `_narrate` -/
def narrate (w : Outside) (s : State) : Except Raised State := do
  let applicationId ← need s.applicationId
  let termMonths ← need s.termMonths
  let annualRate ← need s.annualRate
  let checksPassed ← need s.checksPassed
  let reply ← fromOutside (w.checker ⟨applicationId, termMonths, annualRate, checksPassed⟩)
  pure (brief w termMonths annualRate reply)

/-- `",".join(v)` -/
def joined : Value → Except Misread (List Text)
  | .list items => items.mapM fun
    | .str t => .ok t
    | _ => .error .typeError
  | .dict members => .ok (members.map Prod.fst)
  | .str t => .ok (t.map fun c => [c])
  | _ => .error .typeError

/-- `_persist` -/
def persist (w : Outside) (s : State) : Except Raised State := do
  let offerId ← need s.offerId
  let decisionEventId ← need s.decisionEventId
  let principal ← need s.principal
  let annualRate ← need s.annualRate
  let termMonths ← need s.termMonths
  let record ← fromOutside (w.persistDisclosure
    ⟨offerId, decisionEventId, principal, annualRate, termMonths, s.document.getD .none⟩)
  let disclosureId ← reading (record.item "disclosure_id".toList)
  let chain ← fromOutside (w.readProvenance disclosureId)
  let complete ← reading (chain.get "chain_complete".toList)
  let written : State := { disclosure := some record, provenance := some chain }
  if complete.truthy then pure written
  else
    let edges ← reading (chain.get "missing_edges".toList)
    let missing ← reading (joined (edges.orElse (.list [.str "unknown".toList])))
    pure (written.merge (blocked .provenanceIncomplete (.chain disclosureId missing)))

/-! ## The graph -/

/-- The number of calls of the maker among some visits. -/
def makerCalls (past : List Node) : ℕ := past.count .assemble

def node (w : Outside) (past : List Node) (s : State) : Node → Except Raised State
  | .route => route w s
  | .compute => compute w s
  | .assemble => assemble w (makerCalls past) s
  | .verify => verify s
  | .narrate => narrate w s
  | .persist => persist w s

/-- The edges `_build` declares, with `_after_route`, `_after_compute` and `_after_verify`. -/
def next (n : Node) (s : State) : Option Node :=
  match n with
  | .route => if s.isBlocked then none else some .compute
  | .compute => if s.isBlocked then none else some .assemble
  | .assemble => some .verify
  | .verify =>
    if s.isBlocked = false then some .narrate
    else if s.reason = some .renderMismatch ∧ s.attempts.getD 0 < maxAssembleAttempts then
      some .assemble
    else none
  | .narrate => some .persist
  | .persist => none

def graph (w : Outside) : Graph Node State Raised where
  visit past n s := (node w (past.map Prod.fst) s n).map s.merge
  next := next

/-- LangGraph's default `recursion_limit`. -/
def recursionLimit : ℕ := 25

/-- `self._graph.invoke` -/
def invoke (w : Outside) (applicationId : Value) : Result Node State Raised :=
  (graph w).run recursionLimit [] .route
    { applicationId := some applicationId, attempts := some 0 }

/-! ## The answer -/

/-- The reason an answer gives: a retry that was used up is reported as such. -/
inductive AnswerReason
  | retriesExhausted
  | reason (r : Option BlockReason)
  deriving DecidableEq

inductive Answer
  | blocked (reason : AnswerReason) (detail : Option Detail) (attempts : ℕ)
      (disclosure provenance : Option Value)
  | ok (document : Option Value) (narration : Option Narration) (narrationDegraded : Bool)
      (disclosure provenance : Option Value) (attempts : ℕ)

/-- What `run` makes of the final state. -/
def answer (s : State) : Answer :=
  if s.isBlocked then
    .blocked (if s.reason = some .renderMismatch then .retriesExhausted else .reason s.reason) s.detail
      (s.attempts.getD 0) s.disclosure s.provenance
  else
    .ok s.document s.narration (s.narrationDegraded.getD false) s.disclosure s.provenance
      (s.attempts.getD 0)

/-- `run` -/
def run (w : Outside) (applicationId : Value) : Except Raised Answer :=
  match (invoke w applicationId).outcome with
  | none => .error .recursionLimit
  | some (.ok s) => .ok (answer s)
  | some (.error e) => .error e

end Meridian.Coordinator
