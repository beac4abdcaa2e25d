import Meridian.Python.Float
import Meridian.Relational.Table

/-!
# The money tables

`loans`, `balances`, `payments` and `payment_applications` as `001_schema.sql` declares them, with
the columns the charge, apply, correction and boarding paths read or write, and the HTTP exchanges
between payment-service and servicing. Each table's unique constraints are part of its type:

* `loans`: `uq_loans_app`, one loan per `app_id` when there is one;
* `balances`: the primary key `loan_id`;
* `payments`: `payments_idempotency_key_uniq`, one row per key when there is one;
* `payment_applications`: `UNIQUE (payment_id)`.

Money that the schema keeps in `DOUBLE PRECISION` is read as an exact rational in `loans` and
`balances`; `payments.amount` stays the binary64 number it is. Time is in microseconds.
-/

namespace Meridian.Ledger

open Python Relational

/-- `payments.status`; `other` is any text this code does not name. -/
inductive Status
  | processing
  | submitted
  | captured
  | capturedUnapplied
  | failed
  | settled
  | returned
  | other (t : Text)
  deriving DecidableEq

namespace Status

/-- `_TERMINAL_STATUSES`. -/
def terminal : Status → Bool
  | captured | capturedUnapplied | failed | settled | returned => true
  | _ => false

/-- The statuses `_RETIRE_SQL` names. -/
def retirable : Status → Bool
  | captured | failed | settled | returned => true
  | _ => false

/-- The statuses `_APPLY_SQL` names. -/
def credits : Status → Bool
  | captured | settled => true
  | _ => false

end Status

structure Loan where
  id : Int
  appId : Option Int
  principal : ℚ
  deriving DecidableEq

structure Balance where
  loanId : Int
  balance : ℚ
  pastDue : Option ℚ
  deriving DecidableEq

structure Payment where
  id : Int
  loanId : Option Int
  pan : Option Text
  amount : F64
  amountMinor : Option Int
  method : Option Text
  status : Status
  key : Option Text
  expiresAt : Option Int
  fingerprint : Option Text
  deriving DecidableEq

structure Application where
  loanId : Int
  paymentId : Int
  amountMinor : Int
  deriving DecidableEq

/-- A column that is unique where it is not NULL. -/
def clashOn {α β : Type} [DecidableEq β] (col : α → Option β) (r r' : α) : Bool :=
  (col r).isSome && col r == col r'

def sameApp : Loan → Loan → Bool := clashOn Loan.appId
def sameLoan : Balance → Balance → Bool := clashOn fun b => some b.loanId
def sameKey : Payment → Payment → Bool := clashOn Payment.key
def samePayment : Application → Application → Bool := clashOn fun a => some a.paymentId

theorem clashOn_iff {α β : Type} [DecidableEq β] {col : α → Option β} {r r' : α} :
    clashOn col r r' = true ↔ ∃ x, col r = some x ∧ col r' = some x := by
  unfold clashOn
  cases hr : col r with
  | none => simp
  | some x =>
    simp only [Option.isSome_some, Bool.true_and, beq_iff_eq, Option.some.injEq]
    constructor
    · exact fun h => ⟨x, rfl, h.symm⟩
    · rintro ⟨y, rfl, hy⟩
      exact hy.symm

theorem clashOn_comm {α β : Type} [DecidableEq β] (col : α → Option β) (r r' : α) :
    clashOn col r r' = clashOn col r' r := by
  rw [Bool.eq_iff_iff, clashOn_iff, clashOn_iff]
  constructor <;> rintro ⟨x, h, h'⟩ <;> exact ⟨x, h', h⟩

/-! ## HTTP exchanges -/

/-- A request on its way, taken by the server, or lost. -/
inductive Leg
  | inFlight
  | taken
  | lost
  deriving DecidableEq

/-- No reply yet, one on its way with its status code, or one that arrived or was lost. -/
inductive Reply
  | none
  | inFlight (code : Nat)
  | gone
  deriving DecidableEq

/-- The reply is on its way. -/
def Reply.onItsWay : Reply → Bool
  | inFlight _ => true
  | _ => false

/-- What `httpx.post` gives its caller: a response's status code, or an exception. -/
inductive Outcome
  | status (code : Nat)
  | exception
  deriving DecidableEq

/-- `200 <= resp.status_code < 300`. -/
def Outcome.ok : Outcome → Bool
  | status code => 200 ≤ code && code < 300
  | exception => false

/-- One `POST /accounts/{loan_id}/apply-payment` and what has become of it. -/
structure Exchange where
  id : Int
  loanId : Int
  paymentId : Int
  request : Leg
  reply : Reply
  outcome : Option Outcome
  deriving DecidableEq

/-- The database, the network and the clock. -/
structure World where
  now : Int
  loans : Serial Loan Loan.id sameApp
  balances : Table Balance sameLoan
  payments : Serial Payment Payment.id sameKey
  applications : Table Application samePayment
  exchanges : Serial Exchange Exchange.id fun _ _ => false

namespace World

/-- The database as `001_schema.sql` leaves it, and nothing on the network. -/
def fresh : World := ⟨0, .empty 1, .empty, .empty 1, .empty, .empty 1⟩

/-- The balances row of a loan. -/
def balanceRow (w : World) (loanId : Int) : Option Balance :=
  w.balances.rows.find? fun b => b.loanId = loanId

/-- A payment by its primary key. -/
def payment (w : World) (id : Int) : Option Payment := w.payments.rows.find? fun p => p.id = id

/-- The row holding a key. -/
def holder (w : World) (key : Text) : Option Payment :=
  w.payments.rows.find? fun p => p.key = some key

/-- A payment's application row. -/
def application (w : World) (paymentId : Int) : Option Application :=
  w.applications.rows.find? fun a => a.paymentId = paymentId

/-- A payment_applications row for the payment exists. -/
def Applied (w : World) (paymentId : Int) : Prop :=
  ∃ a ∈ w.applications.rows, a.paymentId = paymentId

instance (w : World) (paymentId : Int) : Decidable (w.Applied paymentId) :=
  inferInstanceAs (Decidable (∃ a ∈ w.applications.rows, a.paymentId = paymentId))

/-- `idempotency_expires_at <= now()`; NULL is not true. -/
def expired (w : World) (p : Payment) : Bool := p.expiresAt.any (· ≤ w.now)

end World

end Meridian.Ledger
