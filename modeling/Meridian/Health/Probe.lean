import Meridian.Interleave.Clock
import Meridian.Interleave.Lock
import Meridian.Python.Text

/-!
# Readiness probes

`config.py` of every service has `database_reachable`, and the gateway's has `redis_reachable` of the
same shape: the last result is kept for five seconds, and only one thread at a time connects. The
unauthenticated `/health` asks for them, and so do the routes that need the schema.

* `Process` is the clock, the lock, the cached triple, and what a connection attempt that ends now
  finds. `Stmt` has a statement for every access of the globals and for both ends of an attempt.
* `Probed` is what the two functions differ in: `database` and `redis`.
* `reachable` is the function itself.

Out of scope: what an attempt asks of the database and its timeouts, of which the model has the
answer, and the resets of the cache, which only tests call.
-/

namespace Meridian.Health

open Interleave Python Prog

/-- `(ok, error)` -/
structure Outcome where
  ok : Bool
  error : Option Text
  deriving DecidableEq

/-- `(dsn, monotonic_at, result)` -/
structure ProbeState where
  target : Option Text
  monotonicAt : ℚ
  result : Outcome
  deriving DecidableEq

structure Process where
  /-- `time.monotonic()` -/
  clock : ℚ
  /-- `_probe_lock` -/
  locked : Bool
  /-- `_probe_state` -/
  state : ProbeState
  /-- what a connection attempt that ends now finds: its answer, or the name of its exception -/
  answer : Outcome

inductive Stmt
  | now
  | read
  | acquire
  | release
  /-- a connection attempt begins -/
  | connect
  /-- and ends -/
  | finish
  | store (x : ProbeState)

abbrev Stmt.Res : Stmt → Type
  | now => ℚ
  | read => ProbeState
  | finish => Outcome
  | acquire | release | connect | store _ => Unit

/-- Time passes, and what is probed comes and goes. -/
inductive Env
  | elapse (d : {d : ℚ // 0 ≤ d})
  | answer (x : Outcome)

def Process.exec : (s : Stmt) → Process → Option (s.Res × Process)
  | .now, w => some (w.clock, w)
  | .read, w => some (w.state, w)
  | .acquire, w => if w.locked then none else some ((), { w with locked := true })
  | .release, w => some ((), { w with locked := false })
  | .connect, w => some ((), w)
  | .finish, w => some (w.answer, w)
  | .store x, w => some ((), { w with state := x })

def Process.move : Env → Process → Process
  | .elapse d, w => { w with clock := w.clock + d }
  | .answer x, w => { w with answer := x }

abbrev process : Machine where
  World := Process
  Stmt := Stmt
  Res := Stmt.Res
  Env := Env
  exec := Process.exec
  env := Process.move

def issue (s : Stmt) : Prog process s.Res := Prog.issue (M := process) s

/-- What is probed. -/
structure Probed where
  /-- the configured address -/
  target : Text
  /-- how long a result is kept -/
  ttlSeconds : {t : ℚ // 0 < t}
  /-- the error when no address is configured; `none` where an empty one is tried -/
  notSet : Option Text

/-- `DATABASE_URL` -/
def database (databaseUrl : Text) : Probed :=
  ⟨databaseUrl, ⟨5, by norm_num⟩, some "DATABASE_URL not set".toList⟩

/-- `REDIS_URL` -/
def redis (redisUrl : Text) : Probed := ⟨redisUrl, ⟨5, by norm_num⟩, none⟩

namespace Probed

variable (P : Probed)

/-- `_run_database_probe`, `_run_redis_probe` -/
def runProbe : Prog process Outcome :=
  match P.target, P.notSet with
  | [], some error => pure ⟨false, some error⟩
  | _, _ => do
    let _ ← issue .connect
    issue .finish

/-- The locked part where the result is not reused. -/
def probe : Prog process Outcome := do
  let result ← P.runProbe
  let now ← issue .now
  let _ ← issue (.store ⟨some P.target, now, result⟩)
  let _ ← issue .release
  pure result

/-- The function from the lock on. -/
def locked : Prog process Outcome := do
  let _ ← issue .acquire
  let x ← issue .read
  if x.target = some P.target then
    let now ← issue .now
    if now - x.monotonicAt < P.ttlSeconds then
      let _ ← issue .release
      pure x.result
    else P.probe
  else P.probe

/-- `database_reachable`, `redis_reachable` -/
def reachable : Prog process Outcome := do
  let x ← issue .read
  if x.target = some P.target then
    let now ← issue .now
    if now - x.monotonicAt < P.ttlSeconds then pure x.result else P.locked
  else P.locked

/-- A process that has not probed yet, and whoever asks. -/
def start (ι : Type) (clock : ℚ) (answer : Outcome) : Config process ι Outcome :=
  ⟨⟨clock, false, ⟨none, 0, ⟨false, none⟩⟩, answer⟩, fun _ => P.reachable⟩

end Probed

/-- A connection attempt. -/
def connects {ι : Type} : Entry process ι → Bool
  | .call _ .connect _ _ _ => true
  | _ => false

end Meridian.Health
