import Meridian.Decisioning.Scoring
import Meridian.Interleave.Run
import Meridian.Ledger.Schema
import Meridian.Python.Json

/-!
# Concurrent calls of `decide`

`decide` as a program over its statements: the advisory lock, the lookup, the bureau and the one
statement that records the event and moves the pointer of `decisions`. Every caller is a session of
its own. A session that crashes executes nothing any more, and the lock it held is free at once.

The environment crashes sessions, sets what the bureau answers next, and makes the next `INSERT`s
fail, either without an effect or after their commit.
-/

namespace Meridian.Decisioning

open Python Relational Interleave Ledger

/-- What a database call raises. -/
inductive DbError
  | uniqueViolation
  /-- any other exception -/
  | other
  deriving DecidableEq

/-- A row; its `jsonb` columns hold what is JSON. -/
structure EventRow where
  id : Int
  event : Event
  isJson : event.isJson = true

/-- `uq_decision_events_request` -/
def sameRequest : EventRow → EventRow → Bool :=
  clashOn fun r => r.event.requestId.map fun rid => (r.event.appId, rid)

/-- How an `INSERT` fails. -/
inductive Fault
  | none
  /-- without an effect -/
  | refused
  /-- after its commit -/
  | answerLost
  deriving DecidableEq

variable {ι : Type}

/-- The database, the sessions, and what the bureau answers. -/
structure World (ι : Type) where
  /-- who holds an advisory lock -/
  held : Int → Option ι
  crashed : ι → Bool
  /-- the score the bureau answers; `none` when its call fails -/
  bureau : Option Value
  fault : Fault
  decisions : Int → Option Band
  events : Serial EventRow EventRow.id sameRequest

inductive Op
  /-- `pg_advisory_xact_lock` -/
  | lock (key : Int)
  /-- the end of the transaction that holds it -/
  | unlock (key : Int)
  /-- the `SELECT` of `_find_event_by_request` -/
  | findEvent (appId : Int) (requestId : Text)
  /-- the request of `_pull_credit` to the bureau -/
  | getScore (ssn : Text)
  /-- the statement of `_persist_event` -/
  | persistEvent (e : Event)

/-- The type of a statement's answer. -/
abbrev Op.Res : Op → Type
  | lock _ => Unit
  | unlock _ => Unit
  | findEvent _ _ => Option Event
  | getScore _ => Option Value
  | persistEvent _ => Except DbError Unit

/-- A statement of a session. -/
structure Stmt (ι : Type) where
  session : ι
  op : Op

inductive Env (ι : Type)
  | crash (i : ι)
  | answer (score : Option Value)
  | fail (f : Fault)

namespace World

def findEvent (w : World ι) (appId : Int) (requestId : Text) : Option Event :=
  (w.events.rows.find? fun r =>
    r.event.appId = appId ∧ r.event.requestId = some requestId).map EventRow.event

def persistEvent (w : World ι) (e : Event) : Except DbError Unit × World ι :=
  if w.fault = .refused then (.error .other, w)
  else if h : e.isJson = true then
    match w.events.insertNext (fun id => ⟨id, e, h⟩) fun _ => rfl with
    | (none, t) => (.error .uniqueViolation, { w with events := t })
    | (some _, t) =>
      (if w.fault = .answerLost then .error .other else .ok (), { w with
        events := t
        decisions := Function.update w.decisions e.appId (some e.outcome) })
  else (.error .other, w)

section Sessions

variable [DecidableEq ι]

def unlock (w : World ι) (i : ι) (key : Int) : World ι :=
  { w with held := fun k => if k = key ∧ w.held k = some i then none else w.held k }

/-- The session executes nothing any more, and its connections are closed. -/
def crash (w : World ι) (i : ι) : World ι :=
  { w with
    crashed := fun j => if j = i then true else w.crashed j
    held := fun k => if w.held k = some i then none else w.held k }

def execOp (i : ι) : (op : Op) → World ι → Option (op.Res × World ι)
  | .lock key, w =>
    if (w.held key).isSome then none
    else some ((), { w with held := fun k => if k = key then some i else w.held k })
  | .unlock key, w => some ((), w.unlock i key)
  | .findEvent appId requestId, w => some (w.findEvent appId requestId, w)
  | .getScore _, w => some (w.bureau, w)
  | .persistEvent e, w => some (w.persistEvent e)

def exec (s : Stmt ι) (w : World ι) : Option (s.op.Res × World ι) :=
  if w.crashed s.session then none else execOp s.session s.op w

def env : Env ι → World ι → World ι
  | .crash i, w => w.crash i
  | .answer score, w => { w with bureau := score }
  | .fail f, w => { w with fault := f }

end Sessions

end World

variable [DecidableEq ι]

/-- The statements of all sessions over the world. -/
abbrev decisioning (ι : Type) [DecidableEq ι] : Machine where
  World := World ι
  Stmt := Stmt ι
  Res s := s.op.Res
  Env := Env ι
  exec := World.exec
  env := World.env

abbrev P (ι : Type) [DecidableEq ι] := Prog (decisioning ι)

def sql (i : ι) (op : Op) : P ι op.Res := Prog.issue (M := decisioning ι) ⟨i, op⟩

/-! ## The functions -/

/-- What a worker of the service is configured with. -/
structure Config where
  /-- `EXPERIAN_KEY` is set -/
  experianKey : Bool
  /-- `synthetic_credit_enabled()` -/
  syntheticCredit : Bool
  /-- `fingerprint_pepper()` -/
  pepper : Option Text

/-- What the code takes from its libraries and from the vendor: `blake2b` is the first eight bytes
of the digest as a signed integer, `hmac` the keyed SHA-256 in hexadecimal. -/
structure Deployment where
  blake2b : Text → Int
  hmac : Text → Text → Text
  vendor : Vendor

/-- One call, and the worker that serves it. -/
structure Call where
  application : Application
  config : Config

/-- `_ssn_fingerprint` -/
def ssnFingerprint (D : Deployment) (c : Config) (ssn : Text) : Option Text :=
  match c.pepper with
  | none => none
  | some pepper => if ssn = [] then none else some (D.hmac pepper ssn)

/-- `_synthetic_score` -/
def syntheticScore (ssn : Text) : Value :=
  match ssn.getLast? with
  | none => .int 612
  | some c => .int (if c ∈ "02468".toList then 680 else 612)

/-- `_pull_credit` -/
def pullCredit (i : ι) (c : Config) (ssn : Text) : P ι (Except Refused (Value × CreditSource)) :=
  if c.experianKey = false then
    pure (if c.syntheticCredit then .ok (syntheticScore ssn, .synthetic) else .error .creditPull)
  else do
    match ← sql i (.getScore ssn) with
    | some score => pure (.ok (score, .bureau))
    | none =>
      pure (if c.syntheticCredit then .ok (syntheticScore ssn, .syntheticAfterBureauFailure)
        else .error .creditPull)

/-- `_persist_event`: nothing on a fresh insert, or the event that already has the request id. -/
def persistEvent (i : ι) (e : Event) : P ι (Except Refused (Option Event)) := do
  match ← sql i (.persistEvent e) with
  | .ok () => pure (.ok none)
  | .error .uniqueViolation =>
    match e.requestId with
    | none => pure (.error .record)
    | some rid =>
      match ← sql i (.findEvent e.appId rid) with
      | some existing => pure (.ok (some existing))
      | none => pure (.error .record)
  | .error .other => pure (.error .record)

/-- The answer from an event that was already recorded. -/
def replay (D : Deployment) (call : Call) (existing : Event) : Except Refused Answer :=
  let a := call.application
  if inputsConflict existing.inputs a.financials (ssnFingerprint D call.config a.ssn) then
    .error .inputMismatch
  else .ok (resultFromEvent existing)

/-- `_run_decision` -/
def runDecision (D : Deployment) (i : ι) (call : Call) (key : Option Text) :
    P ι (Except Refused Answer) := do
  let a := call.application
  match ← pullCredit i call.config a.ssn with
  | .error r => pure (.error r)
  | .ok (score, source) =>
    match decideOn D.vendor a (ssnFingerprint D call.config a.ssn) score source key with
    | .error r => pure (.error r)
    | .ok (event, answer) =>
      match ← persistEvent i event with
      | .error r => pure (.error r)
      | .ok (some raced) => pure (replay D call raced)
      | .ok none => pure (.ok answer)

/-- The key of the advisory lock, `decision:{app_id}:{request_id}`. -/
def lockKey (D : Deployment) (appId : Int) (requestId : Text) : Int :=
  D.blake2b ("decision:".toList ++ Item.intText appId ++ ':' :: requestId)

/-- `decide`: a request id serializes on an advisory lock, which every exit of the block releases. -/
def decide (D : Deployment) (i : ι) (call : Call) : P ι (Except Refused Answer) :=
  match call.application.key with
  | none => runDecision D i call none
  | some rid => do
    let appId := call.application.appId
    sql i (.lock (lockKey D appId rid))
    match ← sql i (.findEvent appId rid) with
    | some existing => do
      sql i (.unlock (lockKey D appId rid))
      pure (replay D call existing)
    | none => do
      let answer ← runDecision D i call (some rid)
      sql i (.unlock (lockKey D appId rid))
      pure answer

/-- Any family of calls, started in a world. -/
def start (D : Deployment) (calls : ι → Call) (w : World ι) :
    Interleave.Config (decisioning ι) ι (Except Refused Answer) :=
  ⟨w, fun i => decide D i (calls i)⟩

end Meridian.Decisioning
