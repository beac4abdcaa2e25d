import Mathlib.Algebra.Order.Ring.Rat
import Mathlib.Tactic.Linarith
import Mathlib.Tactic.NormNum
import Meridian.Interleave.Run
import Meridian.Python.Value

/-!
# The circuit breaker of the downstream services

`clients.py` of origination-service. A call to a downstream asks the breaker of its base URL, sends one
request, and reports how it ended. The two visits to the breaker hold the lock, everything between them
interleaves with the other calls of the process, and time passes.

* `withBreaker`, `post`, `postRaw`, `get` are the functions. `Wire` is what a request would be answered
  at the moment it is sent; the environment moves it.
* `reports base tr` are the reports of a downstream in a history, newest first, and `probing base tr`
  says that a call was admitted since the last of them.
* `Recorded` is the invariant: what the breaker of a downstream holds, said by the history alone.
* `answers_by_history`: when exactly a call is admitted.

Out of scope: the log lines, the timeout of a request beyond the error it ends in, the messages of
`httpx`'s own errors, and of a response anything but its status and its decoded body. The clock is a
rational.
-/

namespace Meridian.Clients

open Interleave Python

/-- `_BREAKER_FAILURE_THRESHOLD` -/
def failureThreshold : ℕ := 5

/-- `_BREAKER_COOLDOWN_SECONDS` -/
def cooldownSeconds : ℚ := 30

/-- `b["state"]`: `closed`, `open`, `half_open`. -/
inductive Circuit
  | closed
  | opened
  | halfOpen
  deriving DecidableEq

/-- One entry of `_breaker_state`. -/
structure Breaker where
  state : Circuit
  failures : ℕ
  openedAt : ℚ

/-- The default `_breaker_for` puts in. -/
def fresh : Breaker := ⟨.closed, 0, 0⟩

/-- `CircuitOpenError`, with its message. -/
structure CircuitOpenError where
  message : Text
  deriving DecidableEq

/-- The locked body of `_breaker_before_call`. -/
def Breaker.beforeCall (b : Breaker) (baseUrl : Text) (now : ℚ) :
    Except CircuitOpenError Unit × Breaker :=
  match b.state with
  | .closed => (.ok (), b)
  | .halfOpen => (.error ⟨"circuit half-open probe in progress for ".toList ++ baseUrl⟩, b)
  | .opened =>
    if now - b.openedAt < cooldownSeconds then
      (.error ⟨"circuit open for ".toList ++ baseUrl⟩, b)
    else (.ok (), { b with state := .halfOpen })

/-- The locked body of `_breaker_after_call`. -/
def Breaker.afterCall (b : Breaker) (ok : Bool) (now : ℚ) : Breaker :=
  if ok then { b with state := .closed, failures := 0 }
  else if b.state = .halfOpen then { b with state := .opened, openedAt := now }
  else if failureThreshold ≤ b.failures + 1 then ⟨.opened, b.failures + 1, now⟩
  else { b with failures := b.failures + 1 }

/-! ## Requests and their ends -/

/-- What `httpx.post` and `httpx.get` are given. -/
structure Request where
  method : Text
  url : Text
  json : Option Value
  headers : List (Text × Text)

/-- A response: its status, and what `resp.json()` decodes its body to, if it decodes. -/
structure Response where
  statusCode : ℕ
  json : Option Value

/-- `resp.is_success` -/
def Response.isSuccess (r : Response) : Bool := 200 ≤ r.statusCode && r.statusCode ≤ 299

/-- How a request ends: in a response, in an `httpx.HTTPError` (a timeout, no connection), or in any
other exception. -/
inductive Reply
  | response (r : Response)
  | httpError
  | otherError

/-- What a call of `clients.py` raises. -/
inductive Failure
  | circuitOpen (e : CircuitOpenError)
  | status (r : Response)
  | httpError
  | otherError
  | undecodable

/-- The clock of the process, `_breaker_state`, and what a request would be answered now. -/
structure World where
  clock : ℚ
  breakers : Text → Breaker
  wire : Request → Reply

inductive Stmt
  /-- `_breaker_before_call` -/
  | beforeCall (baseUrl : Text)
  /-- `_breaker_after_call` -/
  | afterCall (baseUrl : Text) (ok : Bool)
  /-- `httpx.post`, `httpx.get` -/
  | send (q : Request)

abbrev Stmt.Res : Stmt → Type
  | beforeCall _ => Except CircuitOpenError Unit
  | afterCall _ _ => Unit
  | send _ => Reply

def World.withBreaker (w : World) (baseUrl : Text) (b : Breaker) : World :=
  { w with breakers := fun u => if u = baseUrl then b else w.breakers u }

def World.exec : (s : Stmt) → World → Option (s.Res × World)
  | .beforeCall u, w =>
    let r := (w.breakers u).beforeCall u w.clock
    some (r.1, w.withBreaker u r.2)
  | .afterCall u ok, w => some ((), w.withBreaker u ((w.breakers u).afterCall ok w.clock))
  | .send q, w => some (w.wire q, w)

/-- The clock does not go back, and the downstreams answer as they will. -/
inductive Env
  | elapse (d : {d : ℚ // 0 ≤ d})
  | rewire (wire : Request → Reply)

def World.move : Env → World → World
  | .elapse d, w => { w with clock := w.clock + d }
  | .rewire f, w => { w with wire := f }

abbrev process : Machine where
  World := World
  Stmt := Stmt
  Res := Stmt.Res
  Env := Env
  exec := World.exec
  env := World.move

/-! ## The functions -/

/-- How `make_request()` ends; an `httpx.HTTPStatusError` carries its response. -/
inductive Made
  | returned (r : Response)
  | statusError (r : Response)
  | httpError
  | otherError

/-- `_with_breaker` -/
def withBreaker (baseUrl : Text) (makeRequest : Prog process Made) :
    Prog process (Except Failure Response) := do
  match ← Prog.issue (M := process) (.beforeCall baseUrl) with
  | .error e => pure (.error (.circuitOpen e))
  | .ok () =>
    match ← makeRequest with
    | .statusError r =>
      let () ← Prog.issue (M := process) (.afterCall baseUrl (r.statusCode < 500))
      pure (.error (.status r))
    | .httpError =>
      let () ← Prog.issue (M := process) (.afterCall baseUrl false)
      pure (.error .httpError)
    | .otherError => pure (.error .otherError)
    | .returned r =>
      let () ← Prog.issue (M := process) (.afterCall baseUrl (r.statusCode < 500))
      pure (.ok r)

/-- `_internal_headers` -/
def internalHeaders (internalServiceToken : Text) : List (Text × Text) :=
  if internalServiceToken = [] then []
  else [("X-Internal-Service".toList, internalServiceToken)]

/-- Send one request and take what comes back as it is. -/
def sent (q : Request) : Prog process Made := do
  match ← Prog.issue (M := process) (.send q) with
  | .response r => pure (.returned r)
  | .httpError => pure .httpError
  | .otherError => pure .otherError

/-- `resp.raise_for_status()` -/
def raiseForStatus : Made → Made
  | .returned r => if r.isSuccess then .returned r else .statusError r
  | m => m

/-- What a call returns: the raw response, or the decoded body. -/
inductive Answer
  | raw (r : Response)
  | body (v : Value)

/-- `resp.json()` -/
def Response.decode (r : Response) : Except Failure Answer :=
  match r.json with
  | some v => .ok (.body v)
  | none => .error .undecodable

/-- `post` -/
def post (token baseUrl path : Text) (payload : Value) : Prog process (Except Failure Answer) := do
  let r ← withBreaker baseUrl do
    let m ← sent ⟨"POST".toList, baseUrl ++ path, some payload, internalHeaders token⟩
    pure (raiseForStatus m)
  pure (r.bind Response.decode)

/-- `post_raw` -/
def postRaw (token baseUrl path : Text) (payload : Value) :
    Prog process (Except Failure Answer) := do
  let r ← withBreaker baseUrl
    (sent ⟨"POST".toList, baseUrl ++ path, some payload, internalHeaders token⟩)
  pure (r.map .raw)

/-- `get` -/
def get (token baseUrl path : Text) : Prog process (Except Failure Answer) := do
  let r ← withBreaker baseUrl (sent ⟨"GET".toList, baseUrl ++ path, none, internalHeaders token⟩)
  pure (r.map .raw)

/-- One call of the process. -/
inductive Call
  | post (baseUrl path : Text) (payload : Value)
  | postRaw (baseUrl path : Text) (payload : Value)
  | get (baseUrl path : Text)

def Call.baseUrl : Call → Text
  | .post u _ _ | .postRaw u _ _ | .get u _ => u

def Call.prog (token : Text) : Call → Prog process (Except Failure Answer)
  | .post u p v => Clients.post token u p v
  | .postRaw u p v => Clients.postRaw token u p v
  | .get u p => Clients.get token u p

/-- The process with its calls, no downstream having been called. -/
def start {ι : Type} (token : Text) (calls : ι → Call) (clock : ℚ) (wire : Request → Reply) :
    Config process ι (Except Failure Answer) :=
  ⟨⟨clock, fun _ => fresh, wire⟩, fun i => (calls i).prog token⟩

/-! ## What the history says of a downstream -/

section History

variable {ι : Type}

/-- The report a step makes on the downstream, with the time of it. -/
def report (u : Text) : Entry process ι → Option (Bool × ℚ)
  | .call _ (.afterCall v ok) _ w _ => if v = u then some (ok, w.clock) else none
  | _ => none

/-- The step admits a call to the downstream. -/
def admits (u : Text) : Entry process ι → Bool
  | .call _ (.beforeCall v) (.ok ()) _ _ => v = u
  | _ => false

/-- The reports on a downstream, newest first. -/
def reports (u : Text) (tr : List (Entry process ι)) : List (Bool × ℚ) := tr.filterMap (report u)

/-- How many failures were reported since the last success. -/
def failing (u : Text) (tr : List (Entry process ι)) : ℕ :=
  ((reports u tr).takeWhile fun x => !x.1).length

/-- A call to the downstream was admitted since the last report on it. -/
def probing (u : Text) : List (Entry process ι) → Bool
  | [] => false
  | e :: tr => (report u e).isNone && (admits u e || probing u tr)

/-- The last report is at least the cooldown old. -/
def Cooled (u : Text) (tr : List (Entry process ι)) (now : ℚ) : Prop :=
  ∃ x ∈ (reports u tr).head?, cooldownSeconds ≤ now - x.2

/-- A call to the downstream goes through: it has not failed five times since its last success, or
the last report is 30 seconds old and nobody was admitted since. -/
def Passes (u : Text) (tr : List (Entry process ι)) (now : ℚ) : Prop :=
  failing u tr < failureThreshold ∨ (probing u tr = false ∧ Cooled u tr now)

/-- What is answered is what the history says. -/
def ByHistory (tr : List (Entry process ι)) : Entry process ι → Prop
  | .call _ (.beforeCall u) r w _ => r = .ok () ↔ Passes u tr w.clock
  | _ => True

/-- **What the breaker of a downstream holds.** Below the threshold it is closed and counts; from the
threshold on it is half-open while somebody is out, and otherwise open since the last report. -/
structure Recorded (u : Text) (tr : List (Entry process ι)) (b : Breaker) : Prop where
  closed : failing u tr < failureThreshold → b.state = .closed ∧ b.failures = failing u tr
  tripped : failureThreshold ≤ failing u tr → failureThreshold ≤ b.failures ∧
    b.state = (if probing u tr then .halfOpen else .opened) ∧
    ∃ x ∈ (reports u tr).head?, x.2 = b.openedAt

end History

section Steps

variable {ι : Type} {u : Text} {tr : List (Entry process ι)} {b : Breaker}

theorem reports_reported (i : ι) (ok : Bool) (w w' : World) :
    reports u (.call i (.afterCall u ok) () w w' :: tr) = (ok, w.clock) :: reports u tr := by
  simp [reports, report]

theorem failing_succeeded (i : ι) (w w' : World) :
    failing u (.call i (.afterCall u true) () w w' :: tr) = 0 := by
  simp [failing, reports_reported]

theorem failing_failed (i : ι) (w w' : World) :
    failing u (.call i (.afterCall u false) () w w' :: tr) = failing u tr + 1 := by
  simp [failing, reports_reported]

/-- A step that reports nothing on the downstream leaves its reports as they are. -/
theorem reports_silent {e : Entry process ι} (he : report u e = none) :
    reports u (e :: tr) = reports u tr := by
  simp [reports, he]

theorem failing_silent {e : Entry process ι} (he : report u e = none) :
    failing u (e :: tr) = failing u tr := by
  rw [failing, failing, reports_silent he]

theorem probing_silent {e : Entry process ι} (he : report u e = none) :
    probing u (e :: tr) = (admits u e || probing u tr) := by
  simp [probing, he]

theorem admits_ne {v : Text} (h : v ≠ u) (r : Except CircuitOpenError Unit) {i : ι} {w w' : World} :
    admits u (.call i (.beforeCall v) r w w') = false := by
  rcases r with e | ⟨⟩
  · rfl
  · exact decide_eq_false h

/-- A report, whatever the breaker was doing. -/
theorem Recorded.reported (h : Recorded u tr b) (i : ι) (ok : Bool) (w w' : World) :
    Recorded u (.call i (.afterCall u ok) () w w' :: tr) (b.afterCall ok w.clock) := by
  have hprobing : probing u (.call i (.afterCall u ok) () w w' :: tr) = false := by
    simp [probing, report]
  cases ok with
  | true =>
    have hzero : failing u (.call i (.afterCall u true) () w w' :: tr) = 0 := failing_succeeded i w w'
    refine ⟨fun _ => ⟨rfl, hzero.symm⟩, fun hhigh => ?_⟩
    rw [hzero] at hhigh
    exact absurd hhigh (by simp [failureThreshold])
  | false =>
    have hlast : ∃ x ∈ (reports u (.call i (.afterCall u false) () w w' :: tr)).head?,
        x.2 = w.clock := by
      rw [reports_reported]
      exact ⟨_, rfl, rfl⟩
    refine ⟨fun hlow => ?_, fun hhigh => ?_⟩
    · rw [failing_failed] at hlow ⊢
      obtain ⟨hstate, hcount⟩ := h.closed (by omega)
      simp [Breaker.afterCall, hstate, hcount, not_le.mpr hlow]
    · rw [failing_failed] at hhigh
      rw [hprobing]
      rcases lt_or_ge (failing u tr) failureThreshold with hlow | hmany
      · obtain ⟨hstate, hcount⟩ := h.closed hlow
        simpa [Breaker.afterCall, hstate, hcount, hhigh] using hlast
      · obtain ⟨hcount, -, -⟩ := h.tripped hmany
        by_cases hhalf : b.state = .halfOpen
        · simpa [Breaker.afterCall, hhalf, hcount] using hlast
        · have hmore : failureThreshold ≤ b.failures + 1 := by omega
          simpa [Breaker.afterCall, hhalf, hmore] using hlast

/-- A call that asks is answered by the history, and the record follows. -/
theorem Recorded.asked (h : Recorded u tr b) (i : ι) (w w' : World) :
    ((b.beforeCall u w.clock).1 = .ok () ↔ Passes u tr w.clock) ∧
    Recorded u (.call i (.beforeCall u) (b.beforeCall u w.clock).1 w w' :: tr)
      (b.beforeCall u w.clock).2 := by
  have hfailing (r) : failing u (.call i (.beforeCall u) r w w' :: tr) = failing u tr :=
    failing_silent rfl
  have hreports (r) : reports u (.call i (.beforeCall u) r w w' :: tr) = reports u tr :=
    reports_silent rfl
  rcases lt_or_ge (failing u tr) failureThreshold with hlow | hhigh
  · obtain ⟨hstate, hcount⟩ := h.closed hlow
    have hask : b.beforeCall u w.clock = (.ok (), b) := by simp [Breaker.beforeCall, hstate]
    rw [hask]
    refine ⟨iff_of_true rfl (.inl hlow), fun _ => ?_, fun hhigh => ?_⟩
    · rw [hfailing]
      exact ⟨hstate, hcount⟩
    · rw [hfailing] at hhigh
      omega
  · obtain ⟨hcount, hstate, x, hx, hopened⟩ := h.tripped hhigh
    have hnot (r) : ¬ failing u (.call i (.beforeCall u) r w w' :: tr) < failureThreshold := by
      rw [hfailing]
      exact not_lt.mpr hhigh
    by_cases hprobing : probing u tr = true
    · rw [if_pos hprobing] at hstate
      have hask : b.beforeCall u w.clock =
          (.error ⟨"circuit half-open probe in progress for ".toList ++ u⟩, b) := by
        simp [Breaker.beforeCall, hstate]
      rw [hask]
      refine ⟨iff_of_false (by simp) ?_, fun hlow => absurd hlow (hnot _), fun _ => ?_⟩
      · rintro (hlow | ⟨hidle, -⟩)
        · omega
        · simp [hprobing] at hidle
      · rw [hreports, probing_silent rfl, hprobing, Bool.or_true]
        exact ⟨hcount, hstate, x, hx, hopened⟩
    · rw [if_neg hprobing] at hstate
      by_cases hcool : w.clock - b.openedAt < cooldownSeconds
      · have hask : b.beforeCall u w.clock = (.error ⟨"circuit open for ".toList ++ u⟩, b) := by
          simp [Breaker.beforeCall, hstate, hcool]
        rw [hask]
        refine ⟨iff_of_false (by simp) ?_, fun hlow => absurd hlow (hnot _), fun _ => ?_⟩
        · rintro (hlow | ⟨-, y, hy, hold⟩)
          · omega
          · obtain rfl : x = y := Option.some.inj (hx.symm.trans hy)
            rw [hopened] at hold
            exact absurd hcool (not_lt.mpr hold)
        · rw [hreports, probing_silent rfl]
          exact ⟨hcount, by simp [admits, hprobing, hstate], x, hx, hopened⟩
      · have hask : b.beforeCall u w.clock = (.ok (), { b with state := .halfOpen }) := by
          simp [Breaker.beforeCall, hstate, hcool]
        rw [hask]
        refine ⟨iff_of_true rfl (.inr ⟨by simpa using hprobing, x, hx, ?_⟩),
          fun hlow => absurd hlow (hnot _), fun _ => ?_⟩
        · rw [hopened]
          exact not_lt.mp hcool
        · rw [hreports, probing_silent rfl]
          exact ⟨hcount, by simp [admits], x, hx, hopened⟩

/-- Any other step says nothing of the downstream. -/
theorem Recorded.silent (h : Recorded u tr b) {e : Entry process ι} (hreport : report u e = none)
    (hadmits : admits u e = false) : Recorded u (e :: tr) b := by
  constructor
  · rw [failing_silent hreport]
    exact h.closed
  · rw [failing_silent hreport, probing_silent hreport, hadmits, Bool.false_or,
      reports_silent hreport]
    exact h.tripped

end Steps

/-! ## Runs -/

section Runs

variable {ι : Type} [DecidableEq ι] {token : Text} {calls : ι → Call} {clock : ℚ}
  {wire : Request → Reply} {tr : List (Entry process ι)}
  {c : Config process ι (Except Failure Answer)}

@[simp] theorem withBreaker_self (w : World) (u : Text) (b : Breaker) :
    (w.withBreaker u b).breakers u = b := if_pos rfl

theorem withBreaker_ne (w : World) {u v : Text} (h : u ≠ v) (b : Breaker) :
    (w.withBreaker v b).breakers u = w.breakers u := if_neg h

/-- Every downstream's breaker is what the history says, and every answer was. -/
theorem recorded_run (h : Run (start token calls clock wire) tr c) :
    (∀ u, Recorded u tr (c.world.breakers u)) ∧ Along ByHistory tr := by
  refine Run.invariant (φ := fun _ _ _ => True) (Q := fun _ _ _ => True)
    (C := fun _ _ => True) (I := fun tr w => (∀ u, Recorded u tr (w.breakers u)) ∧ Along ByHistory tr)
    (fun _ => obeys_true _) ⟨fun u => ⟨fun _ => ⟨rfl, rfl⟩, fun hhigh => ?_⟩, trivial⟩ ?_ ?_ h
    (along_true tr)
  · exact absurd hhigh (by simp [failing, reports, failureThreshold])
  · rintro tr c i (v | ⟨v, ok⟩ | q) r w - ⟨hI, hall⟩ - hx -
    · obtain ⟨rfl, rfl⟩ := Prod.mk.inj (Option.some.inj hx)
      refine ⟨fun u => ?_, ((hI v).asked i c.world c.world).1, hall⟩
      by_cases huv : u = v
      · subst huv
        rw [withBreaker_self]
        exact ((hI u).asked i c.world _).2
      · rw [withBreaker_ne _ huv]
        exact (hI u).silent rfl (admits_ne (Ne.symm huv) _)
    · obtain ⟨rfl, rfl⟩ := Prod.mk.inj (Option.some.inj hx)
      refine ⟨fun u => ?_, trivial, hall⟩
      by_cases huv : u = v
      · subst huv
        rw [withBreaker_self]
        exact (hI u).reported i ok c.world _
      · rw [withBreaker_ne _ huv]
        exact (hI u).silent (if_neg (Ne.symm huv)) rfl
    · obtain ⟨rfl, rfl⟩ := Prod.mk.inj (Option.some.inj hx)
      exact ⟨fun u => (hI u).silent rfl rfl, trivial, hall⟩
  · rintro tr c (d | f) - ⟨hI, hall⟩ -
    · exact ⟨fun u => (hI u).silent rfl rfl, trivial, hall⟩
    · exact ⟨fun u => (hI u).silent rfl rfl, trivial, hall⟩

/-- **A call is let through exactly when the history says so**: the downstream has not failed five
times since its last success, or its last report is 30 seconds old and no call was let through since. -/
theorem answers_by_history (h : Run (start token calls clock wire) tr c) : Along ByHistory tr :=
  (recorded_run h).2

end Runs

/-! ## A downstream that is down -/

/-- The kyc-service. -/
def kycUrl : Text := "http://kyc-service:8000".toList

/-- Eight reads of one downstream. -/
def reads : Fin 8 → Call := fun _ => .get kycUrl "/health".toList

/-- Nobody answers. -/
def down : Config process (Fin 8) (Except Failure Answer) :=
  start "secret".toList reads 100 fun _ => .httpError

/-- A call from its question to its report. -/
def wholeCall (i : Fin 8) : List (Pick process (Fin 8)) := [.call i, .call i, .call i]

/-- Half a minute. -/
def halfMinute : Pick process (Fin 8) := .env (.elapse ⟨30, by norm_num⟩)

/-- Five calls fail one after the other, and the sixth is let through half a minute later. -/
def tripping : List (Pick process (Fin 8)) :=
  ((List.finRange 8).take 5).flatMap wholeCall ++ [halfMinute, .call 5]

theorem answers_by_history_down : ∃ tr c, Run down tr c ∧ Along ByHistory tr ∧
    failing kycUrl tr = 5 ∧ probing kycUrl tr = true := by
  obtain ⟨tr, c, hrun, hfive, hprobing⟩ := exists_run tripping down
    (fun x => failing kycUrl x.1 = 5 ∧ probing kycUrl x.1 = true) (by decide +kernel)
  exact ⟨tr, c, hrun, answers_by_history hrun, hfive, hprobing⟩

end Meridian.Clients
