import Meridian.Gateway.Sessions

/-!
# The routes of the gateway

`main.py` of the gateway: every route resolves the login session of its caller and forwards the
request. The `/los` route also keeps the continuation token of an application away from the browser.

* `forwardedHeaders` is what goes downstream of a request's headers.
* `los` is the borrower-facing route, in the order of the source: the refusal of a submit while Redis
  is away, the resume cookie, the forwarded request, and then a submit's or an accept's epilogue.
* `Call.prog` is one request to any of the routes, `start` a gateway with any family of them.

Out of scope: `/health`, the CORS middleware, the log lines, the pause between two tries of
`_create_resume_session_with_retry`, and the attributes of the resume cookie.
-/

namespace Meridian.Gateway

open Interleave Python

variable {S : Settings}

/-! ## Requests -/

/-- A request as it comes in, `path` being what follows the route's prefix. -/
structure Incoming where
  method : Text
  path : Text
  headers : List (Text × Text)
  cookies : List (Text × Text)
  query : Text
  body : Text

/-- `k.lower()`; the names it is compared with are ASCII. -/
def lower (t : Text) : Text := t.map Char.toLower

/-- `Header(None)`: the first header of the name, in any case. -/
def header (name : Text) (headers : List (Text × Text)) : Option Text :=
  (headers.find? fun h => lower h.1 = lower name).map Prod.snd

/-- `d[key] = value` on a dictionary. -/
def setKey {α : Type} (d : List (Text × α)) (key : Text) (value : α) : List (Text × α) :=
  if d.any (fun e => e.1 = key) then d.map fun e => if e.1 = key then (key, value) else e
  else d ++ [(key, value)]

/-- `bearer_token` -/
def bearerToken : Option Text → Option Text
  | none | some [] => none
  | some authorization =>
    if lower (authorization.take 7) = "bearer ".toList then some (strip (authorization.drop 7))
    else some (strip authorization)

/-- The names of the headers a client cannot send through. -/
def stripped : List Text :=
  ["host", "content-length", "authorization", "x-user-id", "x-user-role", "x-internal-service",
    "x-application-token"].map String.toList

def xUserId : Text := "X-User-Id".toList
def xUserRole : Text := "X-User-Role".toList
def xInternalService : Text := "X-Internal-Service".toList
def xApplicationToken : Text := "X-Application-Token".toList

/-- The client's headers that are passed on. -/
def passedOn (headers : List (Text × Text)) : List (Text × Text) :=
  (headers.filter fun h => lower h.1 ∉ stripped).foldl (fun d h => setKey d h.1 h.2) []

/-- The headers of the request downstream. -/
def forwardedHeaders (headers : List (Text × Text)) (user : Option User)
    (injectToken : Option Text) : List (Text × Text) :=
  let d := passedOn headers
  let d := match user with
    | some u => setKey (setKey d xUserId (Item.intText u.id)) xUserRole u.role
    | none => d
  match injectToken with
  | some t => setKey d xApplicationToken t
  | none => d

/-! ## Answers -/

/-- What a route raises. -/
inductive Raised
  | redis
  /-- the client library, or a header it cannot send -/
  | http
  /-- `ValueError` of a body with a NaN or an infinity -/
  | json
  deriving DecidableEq

/-- A `JSONResponse`, with the resume cookie it sets and whether it clears it. -/
structure Response where
  status : ℕ
  content : Value
  setCookie : Option Text
  deletesCookie : Bool

def respond (status : ℕ) (content : Value) : Response := ⟨status, content, none, false⟩

/-- `JSONResponse(status_code=status, content=content)`; its `json.dumps` has `allow_nan=False`. -/
def jsonResponse (status : ℕ) (content : Value) : Except Raised Response :=
  if content.isJson then .ok (respond status content) else .error .json

def detail (t : String) : Value := .dict [("detail".toList, .str t.toList)]

/-- `_resume_unavailable` -/
def resumeUnavailable : Response :=
  respond 503 (detail "resume session store unavailable; please retry")

def notAuthenticated : Response := respond 401 (detail "not authenticated")

/-- The value the token header is given: a falsy one sends none, and only a string can be sent. -/
def tokenHeader : Option Value → Except Raised (Option Text)
  | none => .ok none
  | some v =>
    if v.truthy then
      match v with
      | .str t => .ok (some t)
      | _ => .error .http
    else .ok none

/-- `resp.json()`, or the text under `raw` where it does not decode. -/
def contentOf (json : Option Value) (text : Text) : Value :=
  json.getD (.dict [("raw".toList, .str text)])

/-- `_proxy_raw` -/
def proxyRaw (base path : Text) (q : Incoming) (user : Option User) (injectToken : Option Value) :
    P S (Except Raised (ℕ × Value)) :=
  match tokenHeader injectToken with
  | .error e => pure (.error e)
  | .ok token => do
    match ← issue (.send ⟨q.method, base ++ path, forwardedHeaders q.headers user token, q.query,
      q.body⟩) with
    | .answered status json text => pure (.ok (status, contentOf json text))
    | .failed => pure (.error .http)

/-- `_proxy` -/
def proxy (base path : Text) (q : Incoming) (user : Option User) :
    P S (Except Raised Response) := do
  match ← proxyRaw base path q user none with
  | .error e => pure (.error e)
  | .ok (status, content) => pure (jsonResponse status content)

/-- The token the caller presents. -/
def Incoming.bearer (q : Incoming) : Option Text := bearerToken (header "authorization".toList q.headers)

/-- `auth.get_session(auth.bearer_token(authorization))` -/
def sessionOf (q : Incoming) : P S (Except RedisError (Option User)) :=
  match q.bearer with
  | none | some [] => pure (.ok none)
  | some token => issue (.getSession token)

/-! ## The borrower-facing route -/

/-- `path.strip("/")` -/
def stripSlashes (t : Text) : Text :=
  ((t.dropWhile (· = '/')).reverse.dropWhile (· = '/')).reverse

def applications : Text := "applications".toList

/-- `t.isdigit()` -/
def allDigits (t : Text) : Bool := !t.isEmpty && t.all isDigit

/-- `_app_id_in_path` -/
def appIdInPath (path : Text) : Option Text :=
  match (stripSlashes path).splitOn '/' with
  | a :: id :: _ => if a = applications && allDigits id then some id else none
  | _ => none

/-- An officer's session. -/
def isOfficer (user : Option User) : Bool :=
  match user with
  | some u => ["underwriter".toList, "admin".toList].contains (lower (strip u.role))
  | none => false

/-- `method == "POST" and path.strip("/") == "applications"` -/
def submits (q : Incoming) : Bool := q.method = "POST".toList && stripSlashes q.path = applications

/-- `str(v)` where it is a number's digits: an integer's digits, or a string itself. Any other value's
text has a character that is no digit. -/
def idText : Value → Option Text
  | .int n => some (Item.intText n)
  | .str t => some t
  | _ => none

/-- The token the cookie's session gives to a request for this path. -/
def injected (sess : Option Resume) (path : Text) : Option Value :=
  match sess with
  | none => none
  | some s =>
    match appIdInPath path with
    | some id => if idText s.appId = some id then some s.token else none
    | none => if stripSlashes path = "offer".toList then some s.token else none

/-- The cookie's session; a refusal when Redis is away and the caller depends on it. -/
def resolveCookie (sid : Option Text) (officer : Bool) : P S (Except Response (Option Resume)) :=
  match sid with
  | none | some [] => pure (.ok none)
  | some sid => do
    match ← issue (.resolveResume sid) with
    | .ok sess => pure (.ok sess)
    | .error _ => pure (if officer then .ok none else .error resumeUnavailable)

def continuationToken : Text := "continuation_token".toList
def appIdKey : Text := "app_id".toList

/-- `content.get(key)` where the content is a dictionary. -/
def member (key : Text) : Value → Value
  | .dict members => (members.lookup key).getD .none
  | _ => .none

/-- The body that reaches the browser. -/
def withoutToken (content : Value) : Value :=
  if (member continuationToken content).truthy then
    match content with
    | .dict members => .dict (members.filter fun m => m.1 ≠ continuationToken)
    | v => v
  else content

/-- `_create_resume_session_with_retry` -/
def createResumeSessionWithRetry (appId token : Value) : ℕ → P S (Option Text)
  | 0 => pure none
  | attempts + 1 => do
    match ← issue (.createResumeSession appId token) with
    | .ok sid => pure (some sid)
    | .error _ => createResumeSessionWithRetry appId token attempts

/-- `str(v)` -/
def pathText (S : Settings) : Value → Text
  | .none => "None".toList
  | .bool b => if b then "True".toList else "False".toList
  | .int n => Item.intText n
  | .float x => x.repr
  | .str t => t
  | v => S.containerText v

/-- The request that takes an application back. -/
def abandonRequest (S : Settings) (appId : Value) : Forwarded :=
  ⟨"POST".toList,
    S.originationUrl ++ "/applications/".toList ++ pathText S appId ++ "/abandon".toList,
    [(xInternalService, S.internalServiceToken)], [], []⟩

/-- `_abandon_application` -/
def abandonApplication (appId : Value) : P S Unit :=
  if S.internalServiceToken = [] then pure ()
  else do
    let _ ← issue (.send (abandonRequest S appId))
    pure ()

/-- A submit's epilogue: the fresh token goes into a session of its own, or the application goes. -/
def settleSubmit (response : Response) (appId token : Value) : P S Response := do
  match ← createResumeSessionWithRetry appId token 3 with
  | some sid => pure { response with setCookie := some sid }
  | none =>
    abandonApplication appId
    pure resumeUnavailable

/-- `path.strip("/").endswith(f"applications/{app_id}/accept")` -/
def acceptsPath (path : Text) : Bool :=
  match appIdInPath path with
  | some id => (applications ++ '/' :: id ++ "/accept".toList).isSuffixOf (stripSlashes path)
  | none => false

/-- An accept's epilogue. -/
def settleAccept (response : Response) (sid : Option Text) : P S Response :=
  match sid with
  | none | some [] => pure response
  | some sid => do
    let _ ← issue (.clearResume sid)
    pure { response with deletesCookie := true }

/-- `is_submit` -/
def isSubmit (q : Incoming) (officer : Bool) (status : ℕ) (content : Value) : Bool :=
  submits q && status = 200 && !officer && (member continuationToken content).truthy &&
    !(member appIdKey content matches .none)

/-- `is_accept` -/
def isAccept (q : Incoming) (status : ℕ) : Bool :=
  q.method = "POST".toList && acceptsPath q.path && status = 200

/-- What follows the response to the browser. -/
def epilogue (q : Incoming) (officer : Bool) (sid : Option Text) (status : ℕ) (content : Value)
    (response : Response) : P S Response :=
  if isSubmit q officer status content then
    settleSubmit response (member appIdKey content) (member continuationToken content)
  else if isAccept q status then settleAccept response sid
  else pure response

/-- What follows the answer of origination. -/
def settle (q : Incoming) (officer : Bool) (sid : Option Text) (status : ℕ) (content : Value) :
    P S (Except Raised Response) :=
  match jsonResponse status (withoutToken content) with
  | .error e => pure (.error e)
  | .ok response => do
    let response ← epilogue q officer sid status content response
    pure (.ok response)

/-- `request.cookies.get(RESUME_COOKIE)` -/
def Incoming.resumeCookie (q : Incoming) : Option Text := q.cookies.lookup "meridian_resume".toList

/-- The route from the resume cookie on. -/
def losFrom (q : Incoming) (user : Option User) : P S (Except Raised Response) := do
  match ← resolveCookie q.resumeCookie (isOfficer user) with
  | .error refused => pure (.ok refused)
  | .ok sess =>
    match ← proxyRaw S.originationUrl ('/' :: q.path) q user (injected sess q.path) with
    | .error e => pure (.error e)
    | .ok (status, content) => settle q (isOfficer user) q.resumeCookie status content

/-- `los` -/
def los (q : Incoming) : P S (Except Raised Response) := do
  match ← sessionOf q with
  | .error _ => pure (.error .redis)
  | .ok user =>
    if submits q && !isOfficer user then
      let reachable ← issue .redisReachable
      if reachable then losFrom q user else pure (.ok resumeUnavailable)
    else losFrom q user

/-! ## The other routes -/

/-- `kyc`, `decision`, `disclosure`: a session is forwarded if there is one. -/
def openRoute (base : Text) (q : Incoming) : P S (Except Raised Response) := do
  match ← sessionOf q with
  | .error _ => pure (.error .redis)
  | .ok user => proxy base ('/' :: q.path) q user

/-- `lss`, `payments`, `payments_subpath`: `_require_user` first. -/
def guarded (base path : Text) (q : Incoming) : P S (Except Raised Response) := do
  match ← sessionOf q with
  | .error _ => pure (.error .redis)
  | .ok none => pure (.ok notAuthenticated)
  | .ok (some user) => proxy base path q (some user)

/-- The session's dictionary. -/
def User.json (u : User) : Value :=
  .dict [("id".toList, .int u.id), ("username".toList, .str u.username), ("role".toList, .str u.role),
    ("name".toList, (u.name.map Value.str).getD .none)]

/-- `login` -/
def login (username password : Text) : P S (Except Raised Response) := do
  match ← issue (.authenticate username password) with
  | none => pure (.ok (respond 503 (detail "auth backend unavailable")))
  | some none => pure (.ok (respond 401 (detail "invalid username or password")))
  | some (some user) =>
    match ← issue (.createSession user) with
    | .error _ => pure (.error .redis)
    | .ok token =>
      pure (.ok (respond 200 (.dict [("token".toList, .str token), ("user".toList, user.json)])))

/-- `logout` -/
def logout (q : Incoming) : P S (Except Raised Response) :=
  match q.bearer with
  | none | some [] => pure (.ok (respond 200 (.dict [("ok".toList, .bool true)])))
  | some token => do
    match ← issue (.deleteSession token) with
    | .error _ => pure (.error .redis)
    | .ok () => pure (.ok (respond 200 (.dict [("ok".toList, .bool true)])))

/-- `me` -/
def me (q : Incoming) : P S (Except Raised Response) := do
  match ← sessionOf q with
  | .error _ => pure (.error .redis)
  | .ok none => pure (.ok notAuthenticated)
  | .ok (some user) => pure (.ok (respond 200 user.json))

/-- One request to the gateway. -/
inductive Call
  | login (username password : Text)
  | logout (q : Incoming)
  | me (q : Incoming)
  | los (q : Incoming)
  | lss (q : Incoming)
  | kyc (q : Incoming)
  | decision (q : Incoming)
  | disclosure (q : Incoming)
  | payments (q : Incoming)
  | paymentsSubpath (q : Incoming)

/-- The request that is forwarded, if any is. -/
def Call.incoming : Call → Option Incoming
  | .login _ _ => none
  | .logout q | .me q | .los q | .lss q | .kyc q | .decision q | .disclosure q | .payments q
  | .paymentsSubpath q => some q

def Call.prog : Call → P S (Except Raised Response)
  | .login username password => Gateway.login username password
  | .logout q => Gateway.logout q
  | .me q => Gateway.me q
  | .los q => Gateway.los q
  | .lss q => guarded S.servicingUrl ('/' :: q.path) q
  | .kyc q => openRoute S.kycUrl q
  | .decision q => openRoute S.decisionUrl q
  | .disclosure q => openRoute S.disclosureUrl q
  | .payments q => guarded S.paymentUrl "/payments".toList q
  | .paymentsSubpath q => guarded S.paymentUrl ('/' :: q.path) q

/-- The gateway with its requests. -/
def start {ι : Type} (S : Settings) (calls : ι → Call) (w : World) :
    Config (gateway S) ι (Except Raised Response) :=
  ⟨w, fun i => (calls i).prog⟩

end Meridian.Gateway
