import Meridian.Interleave.Program
import Meridian.Ledger.Schema

/-!
# The statements and the network

Every SQL statement of the charge, apply, correction and boarding paths as one step on the world,
together with the steps of an HTTP call: the client posts and awaits, the server takes the request
and responds. `db.query` runs each statement in its own autocommitted transaction, so one step is
one commit. `ledger` collects them into a `Machine`; its environment is the clock and the network,
which may delay, lose or refuse a request and lose its reply.
-/

namespace Meridian.Ledger

open Python Relational Interleave

/-- What a database call raises. -/
inductive DbError
  | dataError
  | foreignKeyViolation
  | uniqueViolation
  deriving DecidableEq

/-- The parameters of `_CLAIM_SQL`. -/
structure Intent where
  loanId : Int
  pan : Option Text
  amount : F64
  amountMinor : Int
  method : Text
  key : Text
  ttlHours : Int
  fingerprint : Text
  deriving DecidableEq

/-- The columns `_READ_BY_KEY_SQL` selects. -/
structure KeyRow where
  id : Int
  loanId : Option Int
  amount : F64
  amountMinor : Option Int
  method : Option Text
  status : Status
  fingerprint : Option Text
  expired : Bool
  deriving DecidableEq

/-- The columns `_APPLY_SQL` returns. -/
structure AppliedRow where
  loanId : Int
  balance : ℚ
  amountMinor : Int
  deriving DecidableEq

inductive Stmt
  /-- `_CLAIM_SQL` -/
  | claim (a : Intent)
  /-- `_READ_BY_KEY_SQL` -/
  | readByKey (key : Text)
  /-- `_RETIRE_SQL` -/
  | retire (key : Text)
  /-- `_FINALIZE_SQL` -/
  | finalize (status : Status) (id : Int)
  /-- `_APPLY_SQL` -/
  | apply (loanId paymentId : Int)
  /-- `_ALREADY_APPLIED_SQL` -/
  | alreadyApplied (paymentId : Int)
  /-- `get_balance` -/
  | selectBalance (loanId : Int)
  /-- the `SELECT` of `assess_late_fee` -/
  | selectPastDue (loanId : Int)
  /-- the `UPDATE` of `adjust_balance` -/
  | adjust (new : ℚ) (loanId : Int) (expected : ℚ)
  /-- the `UPDATE` of `waive_fee` -/
  | waive (amount : ℚ) (loanId : Int)
  /-- the `UPDATE` of `assess_late_fee` -/
  | setPastDue (new : ℚ) (loanId : Int)
  /-- send `POST /accounts/{loan_id}/apply-payment` -/
  | post (loanId paymentId : Int)
  /-- wait for the outcome of an exchange -/
  | await (x : Int)
  /-- take the request of an exchange -/
  | recv (x : Int)
  /-- answer an exchange -/
  | respond (x : Int) (code : Nat)
  /-- the loan `INSERT` of `board_to_servicing` -/
  | insertLoan (appId : Option Int) (principal : ℚ)
  /-- the loan `SELECT` of `accept_offer` -/
  | selectLoan (appId : Int)
  /-- the balance `INSERT` of `board_to_servicing` and of `accept_offer`'s heal -/
  | insertBalance (loanId : Int) (balance : ℚ)

namespace Stmt

/-- The type of a statement's answer. -/
abbrev Res : Stmt → Type
  | claim _ => Except DbError (Option Int)
  | readByKey _ => Option KeyRow
  | retire _ => List Int
  | finalize _ _ => Unit
  | apply _ _ => Option AppliedRow
  | alreadyApplied _ => Option Application
  | selectBalance _ => Option ℚ
  | selectPastDue _ => Option (Option ℚ)
  | adjust _ _ _ => Option ℚ
  | waive _ _ => Option (Option ℚ)
  | setPastDue _ _ => Unit
  | post _ _ => Int
  | await _ => Outcome
  | recv _ => Int × Int
  | respond _ _ => Unit
  | insertLoan _ _ => Except DbError Int
  | selectLoan _ => Option (Int × ℚ)
  | insertBalance _ _ => Except DbError Unit

end Stmt

/-- A statement with its answer, as a log holds it. -/
abbrev Answered := (s : Stmt) × s.Res

/-! ## Claiming, reading and retiring a key -/

namespace Intent

/-- The parameters fit their columns: `loan_id` is an INTEGER, `amount_minor` a BIGINT, and no text
holds a NUL character. -/
def storable (a : Intent) : Bool :=
  -2 ^ 31 ≤ a.loanId && a.loanId < 2 ^ 31 && -2 ^ 63 ≤ a.amountMinor && a.amountMinor < 2 ^ 63 &&
    [a.pan.getD [], a.method, a.key].all fun t => !t.contains (Char.ofNat 0)

/-- The row `_CLAIM_SQL` inserts at time `now`. -/
def row (a : Intent) (now id : Int) : Payment where
  id := id
  loanId := some a.loanId
  pan := a.pan
  amount := a.amount
  amountMinor := some a.amountMinor
  method := some a.method
  status := .processing
  key := some a.key
  expiresAt := some (now + a.ttlHours * 3600000000)
  fingerprint := some a.fingerprint

@[simp] theorem row_id (a : Intent) (now id : Int) : (a.row now id).id = id := rfl

end Intent

namespace World

def loan (w : World) (id : Int) : Option Loan := w.loans.rows.find? fun l => l.id = id

/-- `_CLAIM_SQL`: the key's holder wins over a missing loan, which is a foreign key violation. -/
def claim (w : World) (a : Intent) : Except DbError (Option Int) × World :=
  if a.storable = false then (.error .dataError, w)
  else
    match w.payments.insertNext (a.row w.now) fun _ => rfl with
    | (none, t) => (.ok none, { w with payments := t })
    | (some p, t) =>
      if (w.loan a.loanId).isSome then (.ok (some p.id), { w with payments := t })
      else (.error .foreignKeyViolation, { w with payments := w.payments.skip })

def keyRow (w : World) (p : Payment) : KeyRow where
  id := p.id
  loanId := p.loanId
  amount := p.amount
  amountMinor := p.amountMinor
  method := p.method
  status := p.status
  fingerprint := p.fingerprint
  expired := w.expired p

def readByKey (w : World) (key : Text) : Option KeyRow := (w.holder key).map w.keyRow

/-- The rows `_RETIRE_SQL` matches. -/
def retires (w : World) (key : Text) (p : Payment) : Bool :=
  p.key = some key && w.expired p && p.status.retirable &&
    (p.status ≠ .captured || decide (w.Applied p.id))

def retireRow (w : World) (key : Text) (p : Payment) : Payment :=
  if w.retires key p then { p with key := none } else p

@[simp] theorem retireRow_id (w : World) (key : Text) (p : Payment) :
    (w.retireRow key p).id = p.id := by unfold retireRow; split <;> rfl

theorem retireRow_key {w : World} {key k : Text} {p : Payment}
    (h : (w.retireRow key p).key = some k) : p.key = some k := by
  unfold retireRow at h
  split at h
  · cases h
  · exact h

def retire (w : World) (key : Text) : List Int × World :=
  ((w.payments.rows.filter (w.retires key)).map Payment.id,
    { w with
      payments := w.payments.update (w.retireRow key) (w.retireRow_id key) fun p q h => by
        obtain ⟨k, hp, hq⟩ := clashOn_iff.mp h
        exact clashOn_iff.mpr ⟨k, retireRow_key hp, retireRow_key hq⟩ })

def finalizeRow (status : Status) (id : Int) (p : Payment) : Payment :=
  if p.id = id then { p with status } else p

@[simp] theorem finalizeRow_id (s : Status) (id : Int) (p : Payment) :
    (finalizeRow s id p).id = p.id := by unfold finalizeRow; split <;> rfl

@[simp] theorem finalizeRow_key (s : Status) (id : Int) (p : Payment) :
    (finalizeRow s id p).key = p.key := by unfold finalizeRow; split <;> rfl

def finalize (w : World) (status : Status) (id : Int) : World :=
  { w with
    payments := w.payments.update (finalizeRow status id) (finalizeRow_id status id)
      fun p q h => by simpa [sameKey, clashOn] using h }

/-! ## Balances -/

/-- Apply `f` to the balances row of a loan. -/
def onLoan (loanId : Int) (f : Balance → Balance) (b : Balance) : Balance :=
  if b.loanId = loanId then f b else b

theorem onLoan_loanId {f : Balance → Balance} (hf : ∀ b, (f b).loanId = b.loanId) (loanId : Int)
    (b : Balance) : (onLoan loanId f b).loanId = b.loanId := by
  unfold onLoan
  split
  · exact hf b
  · rfl

/-- An `UPDATE balances … WHERE loan_id = …` that leaves the primary key alone. -/
def updateBalance (w : World) (loanId : Int) (f : Balance → Balance)
    (hf : ∀ b, (f b).loanId = b.loanId) : World :=
  { w with
    balances := w.balances.update (onLoan loanId f)
      fun b b' h => by simpa [sameLoan, clashOn, onLoan_loanId hf] using h }

/-- The payment `_APPLY_SQL` credits: the loan's balances row and the amount to take off. -/
def eligible (w : World) (loanId paymentId : Int) : Option (Balance × Int) :=
  match w.payment paymentId, w.balanceRow loanId with
  | some p, some b =>
    match p.amountMinor with
    | some m => if p.loanId = some loanId ∧ p.status.credits then some (b, m) else none
    | none => none
  | _, _ => none

/-- `amount_minor / 100.0`, exactly. -/
def major (m : Int) : ℚ := m / 100

/-- `_APPLY_SQL`: the application row and the balance movement, or neither. -/
def apply (w : World) (loanId paymentId : Int) : Option AppliedRow × World :=
  match w.eligible loanId paymentId with
  | none => (none, w)
  | some (b, m) =>
    match w.applications.insert? ⟨loanId, paymentId, m⟩ with
    | none => (none, w)
    | some t => (some ⟨loanId, b.balance - major m, m⟩,
        { w.updateBalance loanId (fun b => { b with balance := b.balance - major m }) fun _ => rfl
          with applications := t })

/-- The compare-and-set of `adjust_balance`. -/
def adjust (w : World) (new : ℚ) (loanId : Int) (expected : ℚ) : Option ℚ × World :=
  match w.balanceRow loanId with
  | none => (none, w)
  | some b =>
    if b.balance = expected then
      (some new, w.updateBalance loanId (fun b => { b with balance := new }) fun _ => rfl)
    else (none, w)

def waive (w : World) (amount : ℚ) (loanId : Int) : Option (Option ℚ) × World :=
  ((w.balanceRow loanId).map fun b => b.pastDue.map (· - amount),
    w.updateBalance loanId (fun b => { b with pastDue := b.pastDue.map (· - amount) }) fun _ => rfl)

def setPastDue (w : World) (new : ℚ) (loanId : Int) : World :=
  w.updateBalance loanId (fun b => { b with pastDue := some new }) fun _ => rfl

/-! ## Boarding -/

def insertLoan (w : World) (appId : Option Int) (principal : ℚ) : Except DbError Int × World :=
  match w.loans.insertNext (fun id => ⟨id, appId, principal⟩) fun _ => rfl with
  | (none, t) => (.error .uniqueViolation, { w with loans := t })
  | (some l, t) => (.ok l.id, { w with loans := t })

def selectLoan (w : World) (appId : Int) : Option (Int × ℚ) :=
  (w.loans.rows.find? fun l => l.appId = some appId).map fun l => (l.id, l.principal)

/-- `INSERT INTO balances … ON CONFLICT (loan_id) DO NOTHING`; `past_due` defaults to 0. -/
def insertBalance (w : World) (loanId : Int) (balance : ℚ) : Except DbError Unit × World :=
  match w.balances.insert? ⟨loanId, balance, some 0⟩ with
  | none => (.ok (), w)
  | some t =>
    if (w.loan loanId).isSome then (.ok (), { w with balances := t })
    else (.error .foreignKeyViolation, w)

/-! ## HTTP -/

/-- Apply `f` to one exchange. -/
def onExchange (x : Int) (f : Exchange → Exchange) (e : Exchange) : Exchange :=
  if e.id = x then f e else e

theorem onExchange_id {f : Exchange → Exchange} (hf : ∀ e, (f e).id = e.id) (x : Int)
    (e : Exchange) : (onExchange x f e).id = e.id := by
  unfold onExchange
  split
  · exact hf e
  · rfl

/-- A step on one exchange. -/
def updateExchange (w : World) (x : Int) (f : Exchange → Exchange) (hf : ∀ e, (f e).id = e.id) :
    World :=
  { w with
    exchanges := w.exchanges.update (onExchange x f) (onExchange_id hf x) (by simp) }

def exchange (w : World) (x : Int) : Option Exchange := w.exchanges.rows.find? fun e => e.id = x

def post (w : World) (loanId paymentId : Int) : Int × World :=
  (w.exchanges.next, { w with exchanges :=
    (w.exchanges.insertNext (fun id => ⟨id, loanId, paymentId, .inFlight, .none, none⟩)
      fun _ => rfl).2 })

/-- The server takes a request that is on its way. -/
def recv (w : World) (x : Int) : Option ((Int × Int) × World) :=
  match w.exchange x with
  | some e =>
    if e.request = .inFlight then
      some ((e.loanId, e.paymentId),
        w.updateExchange x (fun e => { e with request := .taken }) fun _ => rfl)
    else none
  | none => none

def respond (w : World) (x : Int) (code : Nat) : World :=
  w.updateExchange x (fun e => { e with reply := .inFlight code }) fun _ => rfl

end World

/-! ## The machine -/

/-- Moves of the clock and the network. -/
inductive Env
  /-- time passes -/
  | tick (d : Nat)
  /-- the client's call ends without servicing's answer: timeout, connection error, or a status
  code that does not come from the handler and is none of the 2xx -/
  | giveUp (x : Int) (o : Outcome) (h : o.ok = false)
  /-- a request is lost -/
  | loseRequest (x : Int)
  /-- a reply is lost -/
  | loseReply (x : Int)
  /-- a reply arrives; a client that gave up no longer listens -/
  | deliver (x : Int)

namespace World

def env : Env → World → World
  | .tick d, w => { w with now := w.now + d }
  | .giveUp x o _, w => w.updateExchange x (fun e => { e with outcome := e.outcome.or (some o) })
      fun _ => rfl
  | .loseRequest x, w => w.updateExchange x
      (fun e => { e with request := if e.request = .inFlight then .lost else e.request })
      fun _ => rfl
  | .loseReply x, w => w.updateExchange x
      (fun e => { e with reply := if e.reply = .none then .none else .gone }) fun _ => rfl
  | .deliver x, w => w.updateExchange x
      (fun e => match e.reply with
        | .inFlight code =>
          { e with reply := .gone, outcome := e.outcome.or (some (.status code)) }
        | _ => e)
      fun e => by cases e.reply <;> rfl

/-- One statement, executed; `none` while it waits. -/
def exec : (s : Stmt) → World → Option (s.Res × World)
  | .claim a, w => some (w.claim a)
  | .readByKey key, w => some (w.readByKey key, w)
  | .retire key, w => some (w.retire key)
  | .finalize status id, w => some ((), w.finalize status id)
  | .apply loanId paymentId, w => some (w.apply loanId paymentId)
  | .alreadyApplied paymentId, w => some (w.application paymentId, w)
  | .selectBalance loanId, w => some ((w.balanceRow loanId).map Balance.balance, w)
  | .selectPastDue loanId, w => some ((w.balanceRow loanId).map Balance.pastDue, w)
  | .adjust new loanId expected, w => some (w.adjust new loanId expected)
  | .waive amount loanId, w => some (w.waive amount loanId)
  | .setPastDue new loanId, w => some ((), w.setPastDue new loanId)
  | .post loanId paymentId, w => some (w.post loanId paymentId)
  | .await x, w => ((w.exchange x).bind Exchange.outcome).map fun o => (o, w)
  | .recv x, w => w.recv x
  | .respond x code, w => some ((), w.respond x code)
  | .insertLoan appId principal, w => some (w.insertLoan appId principal)
  | .selectLoan appId, w => some (w.selectLoan appId, w)
  | .insertBalance loanId balance, w => some (w.insertBalance loanId balance)

end World

/-- The statements over the world. -/
abbrev ledger : Machine where
  World := World
  Stmt := Stmt
  Res := Stmt.Res
  Env := Env
  exec := World.exec
  env := World.env

end Meridian.Ledger
