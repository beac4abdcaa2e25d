import Meridian.Gateway.Proxy

/-!
# What a request to the gateway does

Every statement a route issues, said against what the same route has issued before it.

* `header_userId`, `header_userRole`, `header_applicationToken`, `header_internalService`: what a
  service reads from the headers the gateway sends, whatever the client sent.
* `Disciplined` is the condition on every statement, `call_obeys` says that every route keeps it.
-/

namespace Meridian.Gateway

open Interleave Python

/-! ## Headers -/

section Headers

variable {headers d : List (Text × Text)} {user : Option User} {token : Option Text}
  {name key value : Text}

/-- None of the headers is one of those a client cannot send through. -/
def Harmless (d : List (Text × Text)) : Prop := ∀ e ∈ d, lower e.1 ∉ stripped

theorem mem_setKey {e : Text × Text} (h : e ∈ setKey d key value) : e = (key, value) ∨ e ∈ d := by
  unfold setKey at h
  split at h
  · obtain ⟨x, hx, rfl⟩ := List.mem_map.mp h
    split
    · exact .inl rfl
    · exact .inr hx
  · simpa [or_comm] using h

/-- A key the dictionary does not have goes to its end. -/
theorem setKey_of_not_mem (h : ∀ e ∈ d, e.1 ≠ key) : setKey d key value = d ++ [(key, value)] := by
  unfold setKey
  rw [if_neg]
  simp only [List.any_eq_true, decide_eq_true_eq, not_exists, not_and]
  exact h

theorem passedOn_harmless (headers : List (Text × Text)) : Harmless (passedOn headers) := by
  have hkept : ∀ (l d : List (Text × Text)), Harmless l → Harmless d →
      Harmless (l.foldl (fun d h => setKey d h.1 h.2) d) := by
    intro l
    induction l with
    | nil => exact fun _ _ hd => hd
    | cons x l ih =>
      intro d hl hd
      refine ih _ (fun e he => hl e (List.mem_cons_of_mem x he)) fun e he => ?_
      rcases mem_setKey he with rfl | he
      · exact hl x List.mem_cons_self
      · exact hd e he
  refine hkept _ [] (fun e he => ?_) fun e he => absurd he List.not_mem_nil
  simpa using (List.mem_filter.mp he).2

theorem header_append : header name (d ++ [(key, value)]) =
    (header name d).or (if lower key = lower name then some value else none) := by
  unfold header
  rw [List.find?_append]
  cases d.find? fun h => lower h.1 = lower name with
  | some x => rfl
  | none => by_cases h : lower key = lower name <;> simp [h]

theorem header_harmless (h : Harmless d) (hname : lower name ∈ stripped) : header name d = none := by
  unfold header
  rw [List.find?_eq_none.mpr]
  · rfl
  · intro e he hsame
    exact h e he (of_decide_eq_true hsame ▸ hname)

theorem xUserId_ne_xUserRole : xUserId ≠ xUserRole := by decide
theorem xUserId_ne_xApplicationToken : xUserId ≠ xApplicationToken := by decide
theorem xUserRole_ne_xApplicationToken : xUserRole ≠ xApplicationToken := by decide

/-- A header that is set by the gateway is not there before. -/
theorem Harmless.ne (h : Harmless d) (hkey : lower key ∈ stripped) : ∀ e ∈ d, e.1 ≠ key :=
  fun e he hsame => h e he (hsame ▸ hkey)

theorem forwardedHeaders_some (u : User) : forwardedHeaders headers (some u) none =
    passedOn headers ++ [(xUserId, Item.intText u.id)] ++ [(xUserRole, u.role)] := by
  have hp := passedOn_harmless headers
  have hid : setKey (passedOn headers) xUserId (Item.intText u.id) =
      passedOn headers ++ [(xUserId, Item.intText u.id)] :=
    setKey_of_not_mem (hp.ne (by decide))
  show setKey (setKey (passedOn headers) xUserId (Item.intText u.id)) xUserRole u.role = _
  rw [hid, setKey_of_not_mem]
  intro e he
  rcases List.mem_append.mp he with he | he
  · exact hp.ne (by decide) e he
  · rw [List.mem_singleton.mp he]
    exact xUserId_ne_xUserRole

theorem forwardedHeaders_token (t : Text) : forwardedHeaders headers user (some t) =
    forwardedHeaders headers user none ++ [(xApplicationToken, t)] := by
  have hp := passedOn_harmless headers
  have hset : setKey (forwardedHeaders headers user none) xApplicationToken t =
      forwardedHeaders headers user none ++ [(xApplicationToken, t)] := by
    refine setKey_of_not_mem fun e he => ?_
    cases user with
    | none => exact hp.ne (by decide) e he
    | some u =>
      rw [forwardedHeaders_some, List.append_assoc] at he
      rcases List.mem_append.mp he with he | he
      · exact hp.ne (by decide) e he
      · rcases List.mem_cons.mp he with rfl | he
        · exact xUserId_ne_xApplicationToken
        · rw [List.mem_singleton.mp he]
          exact xUserRole_ne_xApplicationToken
  exact hset

/-- **What a service reads of the headers is the gateway's word**: the client's headers do not matter. -/
theorem header_forwarded (hname : lower name ∈ stripped) :
    header name (forwardedHeaders headers user token) =
      ((user.bind fun u => if lower xUserId = lower name then some (Item.intText u.id) else none).or
        (user.bind fun u => if lower xUserRole = lower name then some u.role else none)).or
        (token.bind fun t => if lower xApplicationToken = lower name then some t else none) := by
  have hp : header name (passedOn headers) = none :=
    header_harmless (passedOn_harmless headers) hname
  have hbase : header name (forwardedHeaders headers user none) =
      (user.bind fun u => if lower xUserId = lower name then some (Item.intText u.id) else none).or
        (user.bind fun u => if lower xUserRole = lower name then some u.role else none) := by
    cases user with
    | none => exact hp
    | some u =>
      rw [forwardedHeaders_some, header_append, header_append, hp]
      rfl
  cases token with
  | none => rw [hbase, Option.bind_none, Option.or_none]
  | some t => rw [forwardedHeaders_token, header_append, hbase, Option.bind_some]

theorem header_userId : header xUserId (forwardedHeaders headers user token) =
    user.map fun u => Item.intText u.id := by
  rw [header_forwarded (by decide)]
  cases user <;> cases token <;> rfl

theorem header_userRole : header xUserRole (forwardedHeaders headers user token) =
    user.map User.role := by
  rw [header_forwarded (by decide)]
  cases user <;> cases token <;> rfl

theorem header_applicationToken : header xApplicationToken (forwardedHeaders headers user token) =
    token := by
  rw [header_forwarded (by decide)]
  cases user <;> cases token <;> rfl

theorem header_internalService : header xInternalService (forwardedHeaders headers user token) =
    none := by
  rw [header_forwarded (by decide)]
  cases user <;> cases token <;> rfl

end Headers

/-! ## Statements -/

section Statements

variable {S : Settings} {q : Incoming} {l l' : Log (gateway S)} {call : Call}

/-- The caller's login session was resolved to this user. -/
def UserOf (q : Incoming) (l : Log (gateway S)) (user : Option User) : Prop :=
  ∀ u, user = some u → ∃ token, q.bearer = some token ∧ ⟨.getSession token, .ok (some u)⟩ ∈ l

/-- What a route knows of its caller: nobody where no token was presented, else what the session was
resolved to. -/
def CallerOf (q : Incoming) (l : Log (gateway S)) (user : Option User) : Prop :=
  q.bearer.getD [] = [] ∧ user = none ∨
    ∃ token, q.bearer = some token ∧ ⟨.getSession token, .ok user⟩ ∈ l

/-- The caller's resume cookie was resolved to this session. -/
def ResumeOf (q : Incoming) (l : Log (gateway S)) (sess : Option Resume) : Prop :=
  ∀ s, sess = some s → ∃ sid, q.resumeCookie = some sid ∧ ⟨.resolveResume sid, .ok (some s)⟩ ∈ l

/-- The resume cookie's session gives this token to the request. -/
def TokenOf (q : Incoming) (l : Log (gateway S)) (token : Option Text) : Prop :=
  ∀ t, token = some t → ∃ sess, ResumeOf q l sess ∧ injected sess q.path = some (.str t)

/-- The request was answered 200 with this content. -/
def AnsweredWith (q : Incoming) (url : Text) (l : Log (gateway S)) (status : ℕ) (content : Value) :
    Prop :=
  ∃ f json text, ⟨.send f, .answered status json text⟩ ∈ l ∧ f.method = q.method ∧ f.url = url ∧
    content = contentOf json text

/-- The caller's self-service submit was accepted with this content. -/
def Submitted (q : Incoming) (l : Log (gateway S)) (content : Value) : Prop :=
  submits q = true ∧ (∃ user, CallerOf q l user ∧ isOfficer user = false) ∧
    AnsweredWith q (S.originationUrl ++ '/' :: q.path) l 200 content

/-- The request is the caller's, with the caller's identity; a token goes to origination only. -/
def Forwards (call : Call) (q : Incoming) (l : Log (gateway S)) (f : Forwarded) : Prop :=
  ∃ url user token, f = ⟨q.method, url, forwardedHeaders q.headers user token, q.query, q.body⟩ ∧
    UserOf q l user ∧ TokenOf q l token ∧
    (token.isSome = true → call = .los q ∧ url = S.originationUrl ++ '/' :: q.path)

/-- The request takes back what the caller has submitted. -/
def Compensates (q : Incoming) (l : Log (gateway S)) (f : Forwarded) : Prop :=
  ∃ content, Submitted q l content ∧ f = abandonRequest S (member appIdKey content)

/-- What a route issues, after what it has issued. -/
def Disciplined (call : Call) (l : Log (gateway S)) : Stmt → Prop
  | .createSession user => ∃ name password, ⟨.authenticate name password, some (some user)⟩ ∈ l
  | .createResumeSession appId token => ∃ q content, call = .los q ∧ Submitted q l content ∧
      appId = member appIdKey content ∧ token = member continuationToken content
  | .send f => ∃ q, call.incoming = some q ∧ (Forwards call q l f ∨ call = .los q ∧ Compensates q l f)
  | _ => True

theorem UserOf.later {user : Option User} (h : UserOf q l user) (hs : l <:+ l') :
    UserOf q l' user := by
  intro u hu
  obtain ⟨token, hbearer, hin⟩ := h u hu
  exact ⟨token, hbearer, hs.subset hin⟩

theorem UserOf.none : UserOf q l none := fun u hu => by cases hu

theorem CallerOf.later {user : Option User} (h : CallerOf q l user) (hs : l <:+ l') :
    CallerOf q l' user := by
  rcases h with h | ⟨token, hbearer, hin⟩
  · exact .inl h
  · exact .inr ⟨token, hbearer, hs.subset hin⟩

theorem CallerOf.userOf {user : Option User} (h : CallerOf q l user) : UserOf q l user := by
  rintro u rfl
  rcases h with ⟨-, hnone⟩ | h
  · cases hnone
  · exact h

theorem ResumeOf.later {sess : Option Resume} (h : ResumeOf q l sess) (hs : l <:+ l') :
    ResumeOf q l' sess := by
  intro s hsess
  obtain ⟨sid, hcookie, hin⟩ := h s hsess
  exact ⟨sid, hcookie, hs.subset hin⟩

theorem ResumeOf.none : ResumeOf q l none := fun s hs => by cases hs

theorem TokenOf.none : TokenOf q l none := fun t ht => by cases ht

theorem AnsweredWith.later {url : Text} {status : ℕ} {content : Value}
    (h : AnsweredWith q url l status content) (hs : l <:+ l') :
    AnsweredWith q url l' status content := by
  obtain ⟨f, json, text, hin, hf⟩ := h
  exact ⟨f, json, text, hs.subset hin, hf⟩

theorem Submitted.later {content : Value} (h : Submitted q l content) (hs : l <:+ l') :
    Submitted q l' content := by
  obtain ⟨hq, ⟨user, hcaller, hofficer⟩, hanswered⟩ := h
  exact ⟨hq, ⟨user, hcaller.later hs, hofficer⟩, hanswered.later hs⟩

end Statements

/-! ## Routes -/

section Routes

variable {S : Settings} {q : Incoming} {call : Call}

theorem sessionOf_obeys (l : Log (gateway S)) : Prog.Obeys (Disciplined call)
    (fun l' r => l <:+ l' ∧ ∀ user, r = .ok user → CallerOf q l' user) l
    (sessionOf q : P S _) := by
  unfold sessionOf
  split
  · rename_i hbearer
    exact ⟨List.suffix_rfl, fun user h => by cases h; exact .inl ⟨by rw [hbearer]; rfl, rfl⟩⟩
  · rename_i hbearer
    exact ⟨List.suffix_rfl, fun user h => by cases h; exact .inl ⟨by rw [hbearer]; rfl, rfl⟩⟩
  · rename_i token _ hbearer
    refine ⟨trivial, fun r => ⟨List.suffix_cons .., ?_⟩⟩
    rintro user rfl
    exact .inr ⟨token, hbearer, List.mem_cons_self⟩

theorem resolveCookie_obeys (officer : Bool) (l : Log (gateway S)) : Prog.Obeys (Disciplined call)
    (fun l' r => l <:+ l' ∧ ∀ sess, r = .ok sess → ResumeOf q l' sess) l
    (resolveCookie q.resumeCookie officer : P S _) := by
  unfold resolveCookie
  split
  · exact ⟨List.suffix_rfl, fun sess h => by cases h; exact .none⟩
  · exact ⟨List.suffix_rfl, fun sess h => by cases h; exact .none⟩
  · rename_i sid _ hcookie
    refine ⟨trivial, fun r => ?_⟩
    rcases r with e | sess
    · refine ⟨List.suffix_cons .., fun sess h => ?_⟩
      cases officer
      · cases h
      · cases h
        exact .none
    · refine ⟨List.suffix_cons .., ?_⟩
      rintro sess' h s rfl
      cases h
      exact ⟨sid, hcookie, List.mem_cons_self⟩

theorem tokenHeader_ok {v : Option Value} {token : Option Text} (h : tokenHeader v = .ok token)
    {t : Text} (ht : token = some t) : v = some (.str t) := by
  subst ht
  unfold tokenHeader at h
  split at h
  · cases h
  · split at h
    · split at h
      · cases h
        rfl
      · cases h
    · cases h

theorem proxyRaw_obeys (hcall : call.incoming = some q) {user : Option User} {sess : Option Resume}
    {l : Log (gateway S)} (huser : UserOf q l user) (hsess : ResumeOf q l sess)
    {v : Option Value} (hv : ∀ t, v = some (.str t) → injected sess q.path = some (.str t))
    (base path : Text)
    (hurl : v.isSome = true → call = .los q ∧ base ++ path = S.originationUrl ++ '/' :: q.path) :
    Prog.Obeys (Disciplined call)
    (fun l' r => l <:+ l' ∧ ∀ status content, r = .ok (status, content) →
      AnsweredWith q (base ++ path) l' status content) l (proxyRaw base path q user v : P S _) := by
  unfold proxyRaw
  cases htoken : tokenHeader v with
  | error e => exact ⟨List.suffix_rfl, fun status content h => by cases h⟩
  | ok token =>
    have hsent : TokenOf q l token := fun t ht => ⟨sess, hsess, hv t (tokenHeader_ok htoken ht)⟩
    have hgoes : token.isSome = true →
        call = .los q ∧ base ++ path = S.originationUrl ++ '/' :: q.path := by
      intro h
      obtain ⟨t, rfl⟩ := Option.isSome_iff_exists.mp h
      exact hurl (by rw [tokenHeader_ok htoken rfl]; rfl)
    refine ⟨⟨q, hcall, .inl ⟨base ++ path, user, token, rfl, huser, hsent, hgoes⟩⟩, fun r => ?_⟩
    cases r with
    | answered status json text =>
      refine ⟨List.suffix_cons .., fun status' content h => ?_⟩
      cases h
      exact ⟨_, json, text, List.mem_cons_self, rfl, rfl, rfl⟩
    | failed => exact ⟨List.suffix_cons .., fun status content h => by cases h⟩

/-- What holds of every value returned is kept out of what is returned. -/
theorem proxy_obeys (hcall : call.incoming = some q) {user : Option User} {l : Log (gateway S)}
    (huser : UserOf q l user) (base path : Text) : Prog.Obeys (Disciplined call)
    (fun _ _ => True) l (proxy base path q user : P S _) := by
  refine (obeys_bind _ _).mpr ((proxyRaw_obeys hcall huser .none (fun t h => by cases h) base
    path (fun h => by cases h)).mono (fun _ _ h => h) fun l' r _ => ?_)
  rcases r with e | ⟨status, content⟩ <;> trivial

theorem createResumeSessionWithRetry_obeys {content : Value} (n : ℕ) {l : Log (gateway S)}
    (h : Submitted q l content) : Prog.Obeys (Disciplined (.los q)) (fun l' _ => l <:+ l') l
    (createResumeSessionWithRetry (member appIdKey content) (member continuationToken content) n :
      P S _) := by
  induction n generalizing l with
  | zero => exact List.suffix_rfl
  | succ n ih =>
    refine ⟨⟨q, content, rfl, h, rfl, rfl⟩, fun r => ?_⟩
    rcases r with e | sid
    · exact (ih (h.later (List.suffix_cons ..))).mono (fun _ _ h => h) fun l' _ hl =>
        (List.suffix_cons ..).trans hl
    · exact List.suffix_cons ..

theorem settleSubmit_obeys {content : Value} (response : Response) {l : Log (gateway S)}
    (h : Submitted q l content) : Prog.Obeys (Disciplined (.los q)) (fun _ _ => True) l
    (settleSubmit response (member appIdKey content) (member continuationToken content) :
      P S _) := by
  refine (obeys_bind _ _).mpr ((createResumeSessionWithRetry_obeys 3 h).mono (fun _ _ h => h)
    fun l' r hl => ?_)
  cases r with
  | some sid => trivial
  | none =>
    refine (obeys_bind _ _).mpr ?_
    unfold abandonApplication
    split
    · trivial
    · exact ⟨⟨q, rfl, .inr ⟨rfl, content, h.later hl, rfl⟩⟩, fun _ => trivial⟩

theorem settleAccept_obeys (response : Response) (sid : Option Text) (l : Log (gateway S)) :
    Prog.Obeys (Disciplined call) (fun _ _ => True) l (settleAccept response sid : P S _) := by
  unfold settleAccept
  split
  · trivial
  · trivial
  · exact ⟨trivial, fun _ => trivial⟩

theorem of_isSubmit {officer : Bool} {status : ℕ} {content : Value}
    (h : isSubmit q officer status content = true) :
    submits q = true ∧ status = 200 ∧ officer = false := by
  simp only [isSubmit, Bool.and_eq_true, decide_eq_true_eq, Bool.not_eq_true'] at h
  exact ⟨h.1.1.1.1, h.1.1.1.2, h.1.1.2⟩

theorem epilogue_obeys {user : Option User} (sid : Option Text) {status : ℕ} {content : Value}
    (response : Response) {l : Log (gateway S)} (hcaller : CallerOf q l user)
    (h : AnsweredWith q (S.originationUrl ++ '/' :: q.path) l status content) :
    Prog.Obeys (Disciplined (.los q)) (fun _ _ => True) l
      (epilogue q (isOfficer user) sid status content response : P S _) := by
  unfold epilogue
  by_cases hsubmit : isSubmit q (isOfficer user) status content = true
  · rw [if_pos hsubmit]
    obtain ⟨hq, rfl, hofficer⟩ := of_isSubmit hsubmit
    exact settleSubmit_obeys _ ⟨hq, ⟨user, hcaller, hofficer⟩, h⟩
  · rw [if_neg hsubmit]
    split
    · exact settleAccept_obeys _ _ _
    · trivial

theorem settle_obeys {user : Option User} (sid : Option Text) {status : ℕ} {content : Value}
    {l : Log (gateway S)} (hcaller : CallerOf q l user)
    (h : AnsweredWith q (S.originationUrl ++ '/' :: q.path) l status content) :
    Prog.Obeys (Disciplined (.los q)) (fun _ _ => True) l
      (settle q (isOfficer user) sid status content : P S _) := by
  unfold settle
  cases jsonResponse status (withoutToken content) with
  | error e => trivial
  | ok response => exact (obeys_bind _ _).mpr ((epilogue_obeys sid response hcaller h).mono
      (fun _ _ h => h) fun _ _ _ => trivial)

theorem losFrom_obeys {user : Option User} {l : Log (gateway S)} (hcaller : CallerOf q l user) :
    Prog.Obeys (Disciplined (.los q)) (fun _ _ => True) l (losFrom q user : P S _) := by
  refine (obeys_bind _ _).mpr ((resolveCookie_obeys (q := q) (isOfficer user) l).mono
    (fun _ _ h => h) fun l₁ r hr => ?_)
  rcases r with refused | sess
  · trivial
  · have hcaller₁ := hcaller.later hr.1
    refine (obeys_bind _ _).mpr ((proxyRaw_obeys rfl hcaller₁.userOf (hr.2 sess rfl)
      (fun t h => h) S.originationUrl ('/' :: q.path) (fun _ => ⟨rfl, rfl⟩)).mono
      (fun _ _ h => h) fun l₂ r hr => ?_)
    rcases r with e | ⟨status, content⟩
    · trivial
    · exact settle_obeys _ (hcaller₁.later hr.1) (hr.2 status content rfl)

theorem los_obeys : Prog.Obeys (Disciplined (.los q)) (fun _ _ => True) [] (los q : P S _) := by
  refine (obeys_bind _ _).mpr ((sessionOf_obeys (q := q) []).mono (fun _ _ h => h) fun l r hr => ?_)
  rcases r with e | user
  · trivial
  · have hcaller := hr.2 user rfl
    dsimp only
    split
    · refine ⟨trivial, fun reachable => ?_⟩
      cases reachable with
      | false => trivial
      | true => exact losFrom_obeys (hcaller.later (List.suffix_cons ..))
    · exact losFrom_obeys hcaller

theorem openRoute_obeys (hcall : call.incoming = some q) (base : Text) :
    Prog.Obeys (Disciplined call) (fun _ _ => True) [] (openRoute base q : P S _) := by
  refine (obeys_bind _ _).mpr ((sessionOf_obeys (q := q) []).mono (fun _ _ h => h) fun l r hr => ?_)
  rcases r with e | user
  · trivial
  · exact proxy_obeys hcall (hr.2 user rfl).userOf base _

theorem guarded_obeys (hcall : call.incoming = some q) (base path : Text) :
    Prog.Obeys (Disciplined call) (fun _ _ => True) [] (guarded base path q : P S _) := by
  refine (obeys_bind _ _).mpr ((sessionOf_obeys (q := q) []).mono (fun _ _ h => h) fun l r hr => ?_)
  rcases r with e | (_ | user)
  · trivial
  · trivial
  · exact proxy_obeys hcall (hr.2 (some user) rfl).userOf base path

/-- **Every route keeps to what it has learnt.** -/
theorem call_obeys (call : Call) : Prog.Obeys (Disciplined call) (fun _ _ => True) []
    (call.prog : P S _) := by
  cases call with
  | login name password =>
    refine ⟨trivial, fun r => ?_⟩
    rcases r with _ | _ | user
    · trivial
    · trivial
    · exact ⟨⟨name, password, List.mem_cons_self⟩, fun r => by rcases r with e | token <;> trivial⟩
  | logout q =>
    show Prog.Obeys _ _ _ (logout q)
    unfold logout
    split
    · trivial
    · trivial
    · exact ⟨trivial, fun r => by rcases r with e | ⟨⟩ <;> trivial⟩
  | me q =>
    refine (obeys_bind _ _).mpr ((sessionOf_obeys (q := q) []).mono (fun _ _ h => h) fun l r _ => ?_)
    rcases r with e | _ | user <;> trivial
  | los q => exact los_obeys
  | lss q => exact guarded_obeys rfl _ _
  | kyc q => exact openRoute_obeys rfl _
  | decision q => exact openRoute_obeys rfl _
  | disclosure q => exact openRoute_obeys rfl _
  | payments q => exact guarded_obeys rfl _ _
  | paymentsSubpath q => exact guarded_obeys rfl _ _

end Routes

end Meridian.Gateway
