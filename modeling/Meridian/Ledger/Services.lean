import Meridian.Interleave.Run
import Meridian.Ledger.Statements
import Meridian.Python.Json

/-!
# The services' functions as programs

The functions of payment-service, servicing-service and origination-service that write the money
tables, as programs over the statements of `Statements.lean`:

* `claimOrBranch` (`claim_or_branch`, the same text in both services), `PaymentService.charge`,
  `applyViaServicing` and `Servicing.charge`;
* `applyPayment` and its route handler `applyRoute`, `adjustBalance`, `waiveFee`, `assessLateFee`;
* `boardToServicing`, and `acceptOffer` from the boarding on.

A `Task` is one call of one of them; `start` runs any family of tasks from any world. What the
logging lines read, and the request id they carry, is left out.
-/

namespace Meridian.Ledger

open Python Interleave

abbrev P := Prog ledger

def sql (s : Stmt) : P s.Res := Prog.issue (M := ledger) s

/-! ## What identifies a payment -/

/-- `_amount_minor`: integer minor units of the decimal the caller sent, half up. -/
def amountMinor (amount : F64) : Except Signal Int :=
  match Decimal.ofText amount.repr with
  | .error e => .error e
  | .ok d =>
    match d.scaleb 2 with
    | .error e => .error e
    | .ok s =>
      match s.quantizeUnit with
      | .error e => .error e
      | .ok q => .ok q.toInt

/-- The configuration a call reads: `sha256` is `hashlib.sha256(text.encode("utf-8")).hexdigest()`,
the others are the text of `PAYMENT_IDEMPOTENCY_TTL_HOURS` in each service's environment. -/
structure Deployment where
  sha256 : Text → Text
  paymentTtl : Text
  servicingTtl : Text

/-- `payment_idempotency_ttl_hours`. -/
def paymentIdempotencyTtlHours (raw : Text) : Int :=
  match parseInt raw with
  | some hours => if 0 < hours then hours else 24
  | none => 24

/-- `request_fingerprint`: a missing or empty `pan` has no instrument. -/
def requestFingerprint (d : Deployment) (loanId amountMinor : Int) (method : Text)
    (pan : Option Text) : Text :=
  let instrument := match pan with
    | some (c :: t) => Item.text (d.sha256 (c :: t))
    | _ => Item.null
  d.sha256 (dumps [.int loanId, .int amountMinor, .text method, instrument])

/-! ## The claim -/

/-- What `claim_or_branch` reports back. -/
inductive Verdict
  | claimed
  | replay
  | fingerprintMismatch
  | inFlight
  deriving DecidableEq

/-- What a call raises. -/
inductive Raised
  | valueError
  | typeError
  | signal (s : Signal)
  | db (e : DbError)
  | conflict
  deriving DecidableEq

/-- The answer of `claim_or_branch`: with the payment's id, or the row that holds the key. -/
inductive Claim
  | claimed (id : Int)
  | replay (existing : KeyRow)
  | fingerprintMismatch (existing : KeyRow)
  | inFlight (existing : Option KeyRow)
  | raised (e : DbError)
  deriving DecidableEq

/-- 2b: a live key, or an expired one on an intent still in flight. -/
def settle (a : Intent) (existing : KeyRow) : Claim :=
  if existing.fingerprint ≠ some a.fingerprint then .fingerprintMismatch existing
  else if existing.status.terminal = false then .inFlight (some existing)
  else .replay existing

/-- `_read_by_key(key) or existing`, and 2b. -/
def reread (a : Intent) (existing : KeyRow) : P Claim := do
  let again ← sql (.readByKey a.key)
  pure (settle a (again.getD existing))

/-- 2a: an expired key on a finished intent is retired and claimed. -/
def branch (a : Intent) (existing : KeyRow) : P Claim :=
  if existing.expired && existing.status.terminal then do
    match ← sql (.retire a.key) with
    | [] => reread a existing
    | _ :: _ =>
      match ← sql (.claim a) with
      | .error e => pure (.raised e)
      | .ok (some id) => pure (.claimed id)
      | .ok none => reread a existing
  else pure (settle a existing)

/-- `claim_or_branch`. -/
def claimOrBranch (a : Intent) : P Claim := do
  match ← sql (.claim a) with
  | .error e => pure (.raised e)
  | .ok (some id) => pure (.claimed id)
  | .ok none =>
    match ← sql (.readByKey a.key) with
    | some existing => branch a existing
    | none =>
      -- the holder retired its key in between: one bounded re-claim
      match ← sql (.claim a) with
      | .error e => pure (.raised e)
      | .ok (some id) => pure (.claimed id)
      | .ok none =>
        match ← sql (.readByKey a.key) with
        | some existing => branch a existing
        | none => pure (.inFlight none)

/-! ## Servicing's balance functions -/

/-- `get_balance`. -/
def getBalance (loanId : Int) : P ℚ := do
  let rows ← sql (.selectBalance loanId)
  pure (rows.getD 0)

/-- The reasons of `PaymentNotApplicable`. -/
inductive NotApplicable
  | notApplicable
  | appliedToAnotherLoan
  deriving DecidableEq

/-- `apply_payment`: the balance after the call, and whether this call moved it. -/
def applyPayment (loanId paymentId : Int) : P (Except NotApplicable (ℚ × Bool)) := do
  match ← sql (.apply loanId paymentId) with
  | some row => pure (.ok (row.balance, true))
  | none =>
    match ← sql (.alreadyApplied paymentId) with
    | none => pure (.error .notApplicable)
    | some prior =>
      if prior.loanId ≠ loanId then pure (.error .appliedToAnotherLoan)
      else do
        let current ← getBalance loanId
        pure (.ok (current, false))

/-- `adjust_balance`: the new balance, or `BalanceChanged` with the current one. -/
def adjustBalance (loanId : Int) (new expected : ℚ) : P (Except ℚ ℚ) := do
  match ← sql (.adjust new loanId expected) with
  | some balance => pure (.ok balance)
  | none => do
    let current ← getBalance loanId
    pure (.error current)

/-- `waive_fee`: the new `past_due`. -/
def waiveFee (loanId : Int) (amount : ℚ) : P (Option ℚ) := do
  match ← sql (.waive amount loanId) with
  | some pastDue => pure pastDue
  | none => pure (some (-amount))

/-- `LATE_FEE_FLAT`. -/
def lateFeeFlat : ℚ := 35

/-- `assess_late_fee`; `none` is the `TypeError` of adding to a NULL. -/
def assessLateFee (loanId : Int) : P (Option ℚ) := do
  let rows ← sql (.selectPastDue loanId)
  match rows.getD (some 0) with
  | none => pure none
  | some pastDue => do
    sql (.setPastDue (pastDue + lateFeeFlat) loanId)
    pure (some (pastDue + lateFeeFlat))

/-! ## Charging -/

/-- The arguments of `charge` that reach the payments row. -/
structure ChargeIn where
  loanId : Int
  pan : Option Text
  amount : F64
  method : Text
  key : Option Text
  deriving DecidableEq

/-- The `status` a reply carries: that of a payments row, or the verdict's own name. -/
inductive ReplyStatus
  | row (s : Status)
  | verdict (v : Verdict)
  deriving DecidableEq

/-- What payment-service's `charge` returns. -/
structure Charged where
  paymentId : Option Int
  loanId : Int
  status : ReplyStatus
  appliedAmount : F64
  idempotency : Verdict
  deriving DecidableEq

/-- What servicing's `charge` returns. -/
structure Serviced where
  loanId : Int
  amount : F64
  balance : Option ℚ
  paymentId : Option Int
  idempotency : Verdict
  status : Option Status
  deriving DecidableEq

/-- `float(existing["amount"] or 0.0)` of a replayed row, 0.0 unless its status is `captured`. -/
def replayedAmount (existing : KeyRow) : F64 :=
  if existing.status = .captured ∧ existing.amount.mant ≠ 0 then existing.amount else .zero

/-- The parameters a charge claims its key with. -/
def chargeIntent (d : Deployment) (ttl : Text) (c : ChargeIn) (key : Text) : Except Signal Intent :=
  match amountMinor c.amount with
  | .error e => .error e
  | .ok minor => .ok
    { loanId := c.loanId
      pan := c.pan
      amount := c.amount
      amountMinor := minor
      method := c.method
      key := key
      ttlHours := paymentIdempotencyTtlHours ttl
      fingerprint := requestFingerprint d c.loanId minor c.method c.pan }

namespace PaymentService

/-- `_apply_via_servicing`: whether servicing confirmed the apply. -/
def applyViaServicing (loanId paymentId : Int) : P Bool := do
  let x ← sql (.post loanId paymentId)
  let outcome ← sql (.await x)
  pure outcome.ok

/-- `charge` of a claimed payment: finalize, apply, and finalize again if the apply failed. -/
def capture (c : ChargeIn) (id : Int) : P Charged := do
  sql (.finalize .captured id)
  let applied ← applyViaServicing c.loanId id
  if applied then pure ⟨some id, c.loanId, .row .captured, c.amount, .claimed⟩
  else do
    sql (.finalize .capturedUnapplied id)
    pure ⟨some id, c.loanId, .row .capturedUnapplied, .zero, .claimed⟩

/-- `charge` of a call that did not claim. -/
def declined (c : ChargeIn) : Claim → Except Raised Charged
  | .replay e => .ok ⟨some e.id, c.loanId, .row e.status, replayedAmount e, .replay⟩
  | .fingerprintMismatch _ =>
    .ok ⟨none, c.loanId, .verdict .fingerprintMismatch, .zero, .fingerprintMismatch⟩
  | .inFlight _ => .ok ⟨none, c.loanId, .verdict .inFlight, .zero, .inFlight⟩
  | .claimed _ => .error .typeError
  | .raised e => .error (.db e)

/-- `charge`. -/
def charge (d : Deployment) (c : ChargeIn) : P (Except Raised Charged) :=
  match c.key with
  | none | some [] => pure (.error .valueError)
  | some key =>
    match chargeIntent d d.paymentTtl c key with
    | .error e => pure (.error (.signal e))
    | .ok a => do
      match ← claimOrBranch a with
      | .claimed id => do
        let reply ← capture c id
        pure (.ok reply)
      | other => pure (declined c other)

end PaymentService

namespace Servicing

/-- `charge` of a claimed payment: finalize, apply, and finalize again if the apply refused. -/
def capture (c : ChargeIn) (id : Int) : P Serviced := do
  sql (.finalize .captured id)
  match ← applyPayment c.loanId id with
  | .ok (balance, _) =>
    pure ⟨c.loanId, c.amount, some balance, some id, .claimed, some .captured⟩
  | .error _ => do
    sql (.finalize .capturedUnapplied id)
    pure ⟨c.loanId, .zero, none, some id, .claimed, some .capturedUnapplied⟩

/-- `charge` of a call that did not claim. -/
def declined (c : ChargeIn) : Claim → Except Raised Serviced
  | .replay e => .ok ⟨c.loanId, replayedAmount e, none, some e.id, .replay, none⟩
  | .fingerprintMismatch _ => .ok ⟨c.loanId, .zero, none, none, .fingerprintMismatch, none⟩
  | .inFlight _ => .ok ⟨c.loanId, .zero, none, none, .inFlight, none⟩
  | .claimed _ => .error .typeError
  | .raised e => .error (.db e)

/-- `charge`. -/
def charge (d : Deployment) (c : ChargeIn) : P (Except Raised Serviced) :=
  match c.key with
  | none | some [] => pure (.error .valueError)
  | some key =>
    match chargeIntent d d.servicingTtl c key with
    | .error e => pure (.error (.signal e))
    | .ok a => do
      match ← claimOrBranch a with
      | .claimed id => do
        let reply ← capture c id
        pure (.ok reply)
      | other => pure (declined c other)

/-- The handler of `POST /accounts/{loan_id}/apply-payment` on one request: 200, or 422 when the
payment is not applicable. -/
def applyRoute (x : Int) : P Nat := do
  let (loanId, paymentId) ← sql (.recv x)
  match ← applyPayment loanId paymentId with
  | .ok _ => do
    sql (.respond x 200)
    pure 200
  | .error _ => do
    sql (.respond x 422)
    pure 422

end Servicing

/-! ## Boarding -/

/-- `board_to_servicing`: the loan and its opening balance, in two statements. -/
def boardToServicing (appId : Option Int) (principal : ℚ) : P (Except DbError Int) := do
  match ← sql (.insertLoan appId principal) with
  | .error e => pure (.error e)
  | .ok loanId =>
    match ← sql (.insertBalance loanId principal) with
    | .error e => pure (.error e)
    | .ok () => pure (.ok loanId)

/-- The end of `accept_offer`: the balance is inserted again from the boarded loan's principal. -/
def healBalance (loanId : Int) (principal : ℚ) : P (Except Raised Int) := do
  match ← sql (.insertBalance loanId principal) with
  | .error e => pure (.error (.db e))
  | .ok () => pure (.ok loanId)

/-- `accept_offer` of an approved application: `guards` is what the guards of the boarding branch
say, the amount to board or a refusal (409). -/
def acceptOffer (appId : Int) (guards : Option ℚ) : P (Except Raised Int) := do
  match ← sql (.selectLoan appId) with
  | some (loanId, principal) => healBalance loanId principal
  | none =>
    match guards with
    | none => pure (.error .conflict)
    | some amount =>
      match ← boardToServicing (some appId) amount with
      | .ok loanId => healBalance loanId amount
      | .error .uniqueViolation =>
        -- a concurrent acceptance boarded first: serve its loan
        match ← sql (.selectLoan appId) with
        | some (loanId, principal) => healBalance loanId principal
        | none => pure (.error .conflict)
      | .error e => pure (.error (.db e))

/-! ## Tasks -/

/-- One call. -/
inductive Task
  | claimOrBranch (a : Intent)
  | charge (c : ChargeIn)
  | serviceCharge (c : ChargeIn)
  | applyRoute (x : Int)
  | applyPayment (loanId paymentId : Int)
  | adjustBalance (loanId : Int) (new expected : ℚ)
  | waiveFee (loanId : Int) (amount : ℚ)
  | assessLateFee (loanId : Int)
  | board (appId : Option Int) (principal : ℚ)
  | acceptOffer (appId : Int) (guards : Option ℚ)
  deriving DecidableEq

/-- What a call returns or raises. -/
inductive Answer
  | claim (c : Claim)
  | charged (r : Except Raised Charged)
  | serviced (r : Except Raised Serviced)
  | responded (code : Nat)
  | applied (r : Except NotApplicable (ℚ × Bool))
  | adjusted (r : Except ℚ ℚ)
  | waived (pastDue : Option ℚ)
  | assessed (pastDue : Option ℚ)
  | boarded (r : Except DbError Int)
  | accepted (r : Except Raised Int)
  deriving DecidableEq

/-- The program of a call. -/
def Task.prog (d : Deployment) : Task → P Answer
  | claimOrBranch a => do pure (.claim (← Ledger.claimOrBranch a))
  | charge c => do pure (.charged (← PaymentService.charge d c))
  | serviceCharge c => do pure (.serviced (← Servicing.charge d c))
  | applyRoute x => do pure (.responded (← Servicing.applyRoute x))
  | applyPayment loanId paymentId => do pure (.applied (← Ledger.applyPayment loanId paymentId))
  | adjustBalance loanId new expected => do
    pure (.adjusted (← Ledger.adjustBalance loanId new expected))
  | waiveFee loanId amount => do pure (.waived (← Ledger.waiveFee loanId amount))
  | assessLateFee loanId => do pure (.assessed (← Ledger.assessLateFee loanId))
  | board appId principal => do pure (.boarded (← boardToServicing appId principal))
  | acceptOffer appId guards => do pure (.accepted (← Ledger.acceptOffer appId guards))

/-- Any family of calls, started in a world. -/
def start {ι : Type} (d : Deployment) (tasks : ι → Task) (w : World) : Config ledger ι Answer :=
  ⟨w, fun i => (tasks i).prog d⟩

/-! ## A sample deployment and charge -/

/-- 12.5 -/
def sampleAmount : F64 := ⟨false, 7036874417766400, -49, by decide⟩

/-- The digest of `[1,1250,"card",null]`, the only text the sample hashes. -/
def sampleDeployment : Deployment where
  sha256 t :=
    if t = dumps [.int 1, .int 1250, .text ['c', 'a', 'r', 'd'], .null] then
      (Nat.digits 16
        0x8d6a5bf757f7c4c61a9c68d7e5b21873c945d9cc2ea17bb5abd65178ad35f872).reverse.map Item.hexDigit
    else []
  paymentTtl := []
  servicingTtl := []

/-- 12.5 by card on loan 1, under the key `k`. -/
def sampleCharge : ChargeIn := ⟨1, none, sampleAmount, ['c', 'a', 'r', 'd'], some ['k']⟩

/-- The calls of a sample run. -/
inductive Caller
  | first
  | second
  | third
  deriving DecidableEq

end Meridian.Ledger
