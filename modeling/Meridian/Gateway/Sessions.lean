import Mathlib.Algebra.Order.Ring.Rat
import Meridian.Interleave.Run
import Meridian.Python.Json
import Meridian.Python.Value

/-!
# The stores of the gateway

`auth.py` of the gateway keeps two families of keys in Redis: `session:<token>` for a login, and
`resume:<sid>` for the continuation token of an application whose applicant has no other credential.
Both are set with a time to live.

* `World` is the clock, the two families, the random ids drawn so far, what Redis does with the next
  command, whom `authenticate` recognises, and what a downstream service answers to a request that
  arrives now. The environment moves the clock and the last three.
* `Stmt` has a statement for every command, and one for a request sent downstream.
* `live` reads a key: it is gone when its time to live has passed.
-/

namespace Meridian.Gateway

open Interleave Python

/-- What a login session holds, as `authenticate` returns it. -/
structure User where
  id : Int
  username : Text
  role : Text
  name : Option Text
  deriving DecidableEq

/-- What a resume session holds: `{"app_id": …, "token": …}`. -/
structure Resume where
  appId : Value
  token : Value

/-- A value with the time it is gone. -/
structure Kept (α : Type) where
  value : α
  expiresAt : ℚ

/-- `GET` of a key with a time to live. -/
def live {α : Type} (x : Option (Kept α)) (now : ℚ) : Option α :=
  (x.filter fun k => now < k.expiresAt).map Kept.value

/-- What Redis does with a command: it answers, it is not reached, or its answer is lost. -/
inductive Redis
  | up
  | down
  | replyLost
  deriving DecidableEq

/-- A request as it is sent to a service. -/
structure Forwarded where
  method : Text
  url : Text
  headers : List (Text × Text)
  query : Text
  body : Text
  deriving DecidableEq

/-- What comes back: a status with a body, or an exception of the client library. -/
inductive Reply
  | answered (status : ℕ) (json : Option Value) (text : Text)
  | failed

/-- `config.py`, the addresses, the texts of the ids `uuid4` draws and those of containers. -/
structure Settings where
  sessionTtl : ℚ
  resumeTtl : ℚ
  internalServiceToken : Text
  originationUrl : Text
  servicingUrl : Text
  kycUrl : Text
  decisionUrl : Text
  disclosureUrl : Text
  paymentUrl : Text
  /-- `uuid.uuid4().hex` of the `n`-th draw -/
  uuid : ℕ → Text
  uuid_inj : Function.Injective uuid
  /-- `str` of a list or a dictionary -/
  containerText : Value → Text

structure World where
  clock : ℚ
  sessions : Text → Option (Kept User)
  resumes : Text → Option (Kept Resume)
  /-- how many ids were drawn -/
  drawn : ℕ
  redis : Redis
  /-- the cached answer of `redis_reachable` -/
  probe : Bool
  /-- what `authenticate` gives for a user name and a password; `none` when it raises -/
  accounts : Text → Text → Option (Option User)
  downstream : Forwarded → Reply

/-- `redis.RedisError` -/
inductive RedisError
  | unreachable
  deriving DecidableEq

inductive Stmt
  /-- `authenticate` -/
  | authenticate (username password : Text)
  /-- `get_session` -/
  | getSession (token : Text)
  /-- `redis_reachable` -/
  | redisReachable
  /-- `create_session` -/
  | createSession (user : User)
  /-- `delete_session` -/
  | deleteSession (token : Text)
  /-- `resolve_resume` -/
  | resolveResume (sid : Text)
  /-- `create_resume_session` -/
  | createResumeSession (appId token : Value)
  /-- `clear_resume` -/
  | clearResume (sid : Text)
  /-- `client.request` -/
  | send (q : Forwarded)

abbrev Stmt.Res : Stmt → Type
  | authenticate _ _ => Option (Option User)
  | getSession _ => Except RedisError (Option User)
  | redisReachable => Bool
  | createSession _ => Except RedisError Text
  | deleteSession _ => Except RedisError Unit
  | resolveResume _ => Except RedisError (Option Resume)
  | createResumeSession _ _ => Except RedisError Text
  | clearResume _ => Except RedisError Unit
  | send _ => Reply

namespace World

variable (S : Settings) (w : World)

/-- A command that reads answers only when Redis does. -/
def reading {α : Type} (a : α) : Except RedisError α :=
  if w.redis = .up then .ok a else .error .unreachable

/-- A command that writes takes effect unless Redis is not reached, and its answer may be lost. -/
def writing {α : Type} (a : α) (w' : World) : Except RedisError α × World :=
  match w.redis with
  | .up => (.ok a, w')
  | .down => (.error .unreachable, w)
  | .replyLost => (.error .unreachable, w')

def withSession (token : Text) (x : Option (Kept User)) : World :=
  { w with sessions := fun t => if t = token then x else w.sessions t }

def withResume (sid : Text) (x : Option (Kept Resume)) : World :=
  { w with resumes := fun t => if t = sid then x else w.resumes t }

/-- One more id is drawn, before anything is sent to Redis. -/
def draw : World := { w with drawn := w.drawn + 1 }

def exec : (s : Stmt) → World → Option (s.Res × World)
  | .authenticate username password, w => some (w.accounts username password, w)
  | .getSession token, w => some (w.reading (live (w.sessions token) w.clock), w)
  | .redisReachable, w => some (w.probe, w)
  | .createSession user, w =>
    let token := S.uuid w.drawn
    some (w.draw.writing token (w.draw.withSession token (some ⟨user, w.clock + S.sessionTtl⟩)))
  | .deleteSession token, w => some (w.writing () (w.withSession token none))
  | .resolveResume sid, w => some (w.reading (live (w.resumes sid) w.clock), w)
  | .createResumeSession appId token, w =>
    let sid := S.uuid w.drawn
    some (w.draw.writing sid
      (w.draw.withResume sid (some ⟨⟨appId, token⟩, w.clock + S.resumeTtl⟩)))
  | .clearResume sid, w => some (w.writing () (w.withResume sid none))
  | .send q, w => some (w.downstream q, w)

/-- Nothing is kept and nothing was drawn. -/
def empty (clock : ℚ) (redis : Redis) (probe : Bool) (accounts : Text → Text → Option (Option User))
    (downstream : Forwarded → Reply) : World :=
  ⟨clock, fun _ => none, fun _ => none, 0, redis, probe, accounts, downstream⟩

end World

/-- Time passes, Redis comes and goes, accounts change, and the services answer as they will. -/
inductive Env
  | elapse (d : {d : ℚ // 0 ≤ d})
  | redis (r : Redis)
  | probe (b : Bool)
  | accounts (f : Text → Text → Option (Option User))
  | downstream (f : Forwarded → Reply)

def World.move : Env → World → World
  | .elapse d, w => { w with clock := w.clock + d }
  | .redis r, w => { w with redis := r }
  | .probe b, w => { w with probe := b }
  | .accounts f, w => { w with accounts := f }
  | .downstream f, w => { w with downstream := f }

abbrev gateway (S : Settings) : Machine where
  World := World
  Stmt := Stmt
  Res := Stmt.Res
  Env := Env
  exec := World.exec S
  env := World.move

abbrev P (S : Settings) := Prog (gateway S)

def issue {S : Settings} (s : Stmt) : P S s.Res := Prog.issue (M := gateway S) s

end Meridian.Gateway
