import Meridian.Gateway.Discipline

/-!
# Where an identity and a token come from

A gateway that starts with empty stores, and any number of requests to any of its routes.

* `SignedIn`, `Stored`: a session, or a resume session, that some request of the history has put in,
  with the log that entitled it.
* `sessions_signed`, `resumes_stored`: the stores hold nothing else.
* `identity_from_login`: who a service is told the caller is.
* `token_from_submit`: which continuation token reaches origination, and for which application.
* `cleared_for_good`: a resume session that was cleared is not resolved again.
-/

namespace Meridian.Gateway

open Interleave Python

section Origins

variable {S : Settings} {ι : Type} [DecidableEq ι]

/-- Somebody logged in as the user, and the session of this token was made for it. -/
def SignedIn (S : Settings) (tr : List (Entry (gateway S) ι)) (token : Text) (k : Kept User) : Prop :=
  ∃ j r w w' t name password, .call j (.createSession k.value) r w w' :: t <:+ tr ∧
    ⟨.authenticate name password, some (some k.value)⟩ ∈ own j t ∧
    S.uuid w.drawn = token ∧ k.expiresAt = w.clock + S.sessionTtl

/-- A self-service submit was accepted with this application and this token, and the resume session was
made for them. -/
def Stored (S : Settings) (calls : ι → Call) (tr : List (Entry (gateway S) ι)) (sid : Text)
    (k : Kept Resume) : Prop :=
  ∃ j r w w' t q content,
    .call j (.createResumeSession k.value.appId k.value.token) r w w' :: t <:+ tr ∧
    calls j = .los q ∧ Submitted q (own j t) content ∧ k.value.appId = member appIdKey content ∧
    k.value.token = member continuationToken content ∧ S.uuid w.drawn = sid ∧
    k.expiresAt = w.clock + S.resumeTtl

variable {calls : ι → Call} {tr tr' : List (Entry (gateway S) ι)}

theorem SignedIn.later {token : Text} {k : Kept User} (h : SignedIn S tr' token k)
    (hs : tr' <:+ tr) : SignedIn S tr token k := by
  obtain ⟨j, r, w, w', t, name, password, hin, h⟩ := h
  exact ⟨j, r, w, w', t, name, password, hin.trans hs, h⟩

theorem Stored.later {sid : Text} {k : Kept Resume} (h : Stored S calls tr' sid k)
    (hs : tr' <:+ tr) : Stored S calls tr sid k := by
  obtain ⟨j, r, w, w', t, q, content, hin, h⟩ := h
  exact ⟨j, r, w, w', t, q, content, hin.trans hs, h⟩

/-! ## What a statement does to the stores -/

/-- What a statement may leave behind. -/
inductive Effect (S : Settings) (w : World) : Stmt → World → Prop
  | nothing (s : Stmt) : Effect S w s w
  | drawn (s : Stmt) : Effect S w s w.draw
  | signedIn (user : User) : Effect S w (.createSession user)
      (w.draw.withSession (S.uuid w.drawn) (some ⟨user, w.clock + S.sessionTtl⟩))
  | signedOut (token : Text) : Effect S w (.deleteSession token) (w.withSession token none)
  | stored (appId token : Value) : Effect S w (.createResumeSession appId token)
      (w.draw.withResume (S.uuid w.drawn) (some ⟨⟨appId, token⟩, w.clock + S.resumeTtl⟩))
  | cleared (sid : Text) : Effect S w (.clearResume sid) (w.withResume sid none)

theorem writing_effect {α : Type} {w w₁ w₂ : World} {a : α} {r : Except RedisError α}
    (h : w.writing a w₁ = (r, w₂)) : w₂ = w ∨ w₂ = w₁ := by
  unfold World.writing at h
  split at h
  · exact .inr (Prod.mk.inj h).2.symm
  · exact .inl (Prod.mk.inj h).2.symm
  · exact .inr (Prod.mk.inj h).2.symm

theorem exec_effect {s : Stmt} {w w' : World} {r : s.Res} (hx : w.exec S s = some (r, w')) :
    Effect S w s w' := by
  cases s with
  | authenticate name password | getSession t | redisReachable | resolveResume sid | send q =>
    cases hx
    exact .nothing _
  | createSession user =>
    rcases writing_effect (Option.some.inj hx) with rfl | rfl
    · exact .drawn _
    · exact .signedIn user
  | deleteSession t =>
    rcases writing_effect (Option.some.inj hx) with rfl | rfl
    · exact .nothing _
    · exact .signedOut t
  | createResumeSession appId t =>
    rcases writing_effect (Option.some.inj hx) with rfl | rfl
    · exact .drawn _
    · exact .stored appId t
  | clearResume sid =>
    rcases writing_effect (Option.some.inj hx) with rfl | rfl
    · exact .nothing _
    · exact .cleared sid

/-- A session is there because it was, or because it was made now. -/
theorem Effect.sessions {s : Stmt} {w w' : World} (h : Effect S w s w') {token : Text}
    {k : Kept User} (hk : w'.sessions token = some k) :
    w.sessions token = some k ∨ ∃ user, s = .createSession user ∧ S.uuid w.drawn = token ∧
      k = ⟨user, w.clock + S.sessionTtl⟩ := by
  cases h with
  | nothing | drawn | stored | cleared => exact .inl hk
  | signedIn user =>
    by_cases hsame : token = S.uuid w.drawn
    · exact .inr ⟨user, rfl, hsame.symm, (Option.some.inj ((if_pos hsame).symm.trans hk)).symm⟩
    · exact .inl ((if_neg hsame).symm.trans hk)
  | signedOut t =>
    by_cases hsame : token = t
    · cases (if_pos hsame).symm.trans hk
    · exact .inl ((if_neg hsame).symm.trans hk)

/-- A resume session is there because it was, or because it was made now. -/
theorem Effect.resumes {s : Stmt} {w w' : World} (h : Effect S w s w') {sid : Text}
    {k : Kept Resume} (hk : w'.resumes sid = some k) :
    w.resumes sid = some k ∨ ∃ appId token, s = .createResumeSession appId token ∧
      S.uuid w.drawn = sid ∧ k = ⟨⟨appId, token⟩, w.clock + S.resumeTtl⟩ := by
  cases h with
  | nothing | drawn | signedIn | signedOut => exact .inl hk
  | stored appId token =>
    by_cases hsame : sid = S.uuid w.drawn
    · exact .inr ⟨appId, token, rfl, hsame.symm,
        (Option.some.inj ((if_pos hsame).symm.trans hk)).symm⟩
    · exact .inl ((if_neg hsame).symm.trans hk)
  | cleared t =>
    by_cases hsame : sid = t
    · cases (if_pos hsame).symm.trans hk
    · exact .inl ((if_neg hsame).symm.trans hk)

theorem Effect.drawn_le {s : Stmt} {w w' : World} (h : Effect S w s w') : w.drawn ≤ w'.drawn := by
  cases h <;> first | exact le_rfl | exact Nat.le_succ _

end Origins

/-! ## Runs -/

section Runs

variable {S : Settings} {ι : Type} [DecidableEq ι] {calls : ι → Call} {clock : ℚ} {redis : Redis}
  {probe : Bool} {accounts : Text → Text → Option (Option User)} {downstream : Forwarded → Reply}
  {tr : List (Entry (gateway S) ι)} {c : Config (gateway S) ι (Except Raised Response)}

/-- The gateway with empty stores and its requests. -/
def opened (S : Settings) (calls : ι → Call) (clock : ℚ) (redis : Redis) (probe : Bool)
    (accounts : Text → Text → Option (Option User)) (downstream : Forwarded → Reply) :
    Config (gateway S) ι (Except Raised Response) :=
  start S calls (.empty clock redis probe accounts downstream)

/-- The stores hold what a login or a submit has put in. -/
structure Accounted (S : Settings) (calls : ι → Call) (tr : List (Entry (gateway S) ι)) (w : World) :
    Prop where
  sessions : ∀ token k, w.sessions token = some k → SignedIn S tr token k
  resumes : ∀ sid k, w.resumes sid = some k → Stored S calls tr sid k

theorem accounted_run (h : Run (opened S calls clock redis probe accounts downstream) tr c) :
    Accounted S calls tr c.world := by
  refine Run.invariant (φ := fun i => Disciplined (calls i)) (Q := fun _ _ _ => True)
    (C := fun _ _ => True) (I := fun tr w => Accounted S calls tr w) (fun i => call_obeys (calls i))
    ⟨fun _ _ hk => absurd hk (by simp [opened, start, World.empty]),
      fun _ _ hk => absurd hk (by simp [opened, start, World.empty])⟩ ?_ ?_ h (along_true tr)
  · intro tr c i s r w _ hI hφ hx _
    have heffect := exec_effect hx
    refine ⟨fun token k hk => ?_, fun sid k hk => ?_⟩
    · rcases heffect.sessions hk with hold | ⟨user, rfl, htoken, rfl⟩
      · exact (hI.sessions token k hold).later (List.suffix_cons ..)
      · obtain ⟨name, password, hin⟩ := hφ
        exact ⟨i, r, c.world, w, tr, name, password, List.suffix_rfl, hin, htoken, rfl⟩
    · rcases heffect.resumes hk with hold | ⟨appId, token, rfl, hsid, rfl⟩
      · exact (hI.resumes sid k hold).later (List.suffix_cons ..)
      · obtain ⟨q, content, hcall, hsubmitted, happ, htoken⟩ := hφ
        exact ⟨i, r, c.world, w, tr, q, content, List.suffix_rfl, hcall, hsubmitted, happ, htoken,
          hsid, rfl⟩
  · intro tr c e _ hI _
    have hsame : (World.move e c.world).sessions = c.world.sessions ∧
        (World.move e c.world).resumes = c.world.resumes := by
      cases e <;> exact ⟨rfl, rfl⟩
    refine ⟨fun token k hk => ?_, fun sid k hk => ?_⟩
    · exact (hI.sessions token k (hsame.1 ▸ hk)).later (List.suffix_cons ..)
    · exact (hI.resumes sid k (hsame.2 ▸ hk)).later (List.suffix_cons ..)

theorem live_some {α : Type} {x : Option (Kept α)} {now : ℚ} {a : α} (h : live x now = some a) :
    ∃ k, x = some k ∧ k.value = a ∧ now < k.expiresAt := by
  cases x with
  | none => cases h
  | some k =>
    by_cases hnow : now < k.expiresAt
    · exact ⟨k, rfl, by simpa [live, Option.filter, hnow] using h, hnow⟩
    · simp [live, Option.filter, hnow] at h

theorem reading_ok {α : Type} {w : World} {a b : α} (h : w.reading a = .ok b) : a = b := by
  unfold World.reading at h
  split at h
  · exact Except.ok.inj h
  · cases h

/-- The caller presented the token of a session that somebody's login made less than its time to live
before. -/
def LoggedIn (S : Settings) (tr : List (Entry (gateway S) ι)) (i : ι) (q : Incoming) (user : User) :
    Prop :=
  ∃ token w w' t k, q.bearer = some token ∧
    .call i (.getSession token) (.ok (some user)) w w' :: t <:+ tr ∧
    SignedIn S t token k ∧ k.value = user ∧ w.clock < k.expiresAt

theorem loggedIn (h : Run (opened S calls clock redis probe accounts downstream) tr c) {i : ι}
    {q : Incoming} {user : User} {token : Text} (hbearer : q.bearer = some token)
    (hin : ⟨.getSession token, .ok (some user)⟩ ∈ own i tr) : LoggedIn S tr i q user := by
  obtain ⟨w, w', t, hs⟩ := exists_of_mem_own hin
  obtain ⟨c₁, c₂, hrun, hstep⟩ := h.entry hs
  have hread := reading_ok (Prod.mk.inj (Option.some.inj (h.exec hs))).1
  obtain ⟨k, hk, hvalue, hlive⟩ := live_some hread
  have hworld : w = c₁.world := hstep.pre_eq
  exact ⟨token, w, w', t, k, hbearer, hs, (accounted_run hrun).sessions token k (hworld ▸ hk),
    hvalue, hlive⟩

/-- **Who the caller is, is said by the gateway alone.** A request that goes downstream takes back the
caller's own submit, or it carries no internal identity, and the user it names is one whose login
session the caller presented in time. -/
theorem identity_from_login (h : Run (opened S calls clock redis probe accounts downstream) tr c)
    {i : ι} {f : Forwarded} {r : Reply} {w w' : World} {t : List (Entry (gateway S) ι)}
    (hs : .call i (.send f) r w w' :: t <:+ tr) :
    (∃ q, calls i = .los q ∧ Compensates q (own i t) f) ∨
    header xInternalService f.headers = none ∧ ∃ q user, (calls i).incoming = some q ∧
      header xUserId f.headers = user.map (fun u => Item.intText u.id) ∧
      header xUserRole f.headers = user.map User.role ∧
      ∀ u, user = some u → LoggedIn S t i q u := by
  obtain ⟨q, hcall, hsent⟩ := Run.issued (fun i => call_obeys (calls i)) h hs
  obtain ⟨c₁, -, hrun, -⟩ := h.entry hs
  rcases hsent with ⟨url, user, token, rfl, huser, -⟩ | ⟨hlos, hback⟩
  · refine .inr ⟨header_internalService, q, user, hcall, header_userId, header_userRole, ?_⟩
    intro u hu
    obtain ⟨bearer, hbearer, hin⟩ := huser u hu
    exact loggedIn hrun hbearer hin
  · exact .inl ⟨q, hlos, hback⟩

/-- The request is about the application: it names it, or it is an offer, which is bound to one in its
body. -/
def InScope (path : Text) (appId : Value) : Prop :=
  (∃ id, appIdInPath path = some id ∧ idText appId = some id) ∨
    appIdInPath path = none ∧ stripSlashes path = "offer".toList

theorem inScope_of_injected {s : Resume} {path : Text} {v : Value}
    (h : injected (some s) path = some v) : v = s.token ∧ InScope path s.appId := by
  unfold injected at h
  cases hid : appIdInPath path with
  | some id =>
    simp only [hid] at h
    split at h
    · rename_i hsame
      exact ⟨(Option.some.inj h).symm, .inl ⟨id, hid, hsame⟩⟩
    · cases h
  | none =>
    simp only [hid] at h
    split at h
    · rename_i hoffer
      exact ⟨(Option.some.inj h).symm, .inr ⟨hid, hoffer⟩⟩
    · cases h

/-- **A continuation token goes where it came from.** A request that carries a token goes to origination,
and the token is one that origination returned to a self-service submit through this gateway. The
caller presented the cookie of the session made for that submit, in time, and the request is about
the application submitted. -/
theorem token_from_submit (h : Run (opened S calls clock redis probe accounts downstream) tr c)
    {i : ι} {f : Forwarded} {r : Reply} {w w' : World} {t : List (Entry (gateway S) ι)}
    (hs : .call i (.send f) r w w' :: t <:+ tr) {token : Text}
    (ht : header xApplicationToken f.headers = some token) :
    ∃ q sid k w₁ w₁' t₁, calls i = .los q ∧ f.url = S.originationUrl ++ '/' :: q.path ∧
      q.resumeCookie = some sid ∧
      .call i (.resolveResume sid) (.ok (some k.value)) w₁ w₁' :: t₁ <:+ t ∧
      Stored S calls t₁ sid k ∧ w₁.clock < k.expiresAt ∧ k.value.token = .str token ∧
      InScope q.path k.value.appId := by
  obtain ⟨q, hcall, hsent⟩ := Run.issued (fun i => call_obeys (calls i)) h hs
  obtain ⟨c₁, -, hrun, -⟩ := h.entry hs
  rcases hsent with ⟨url, user, sent, rfl, -, htoken, hgoes⟩ | ⟨-, content, -, rfl⟩
  · have hsame : sent = some token := header_applicationToken.symm.trans ht
    obtain ⟨hlos, hurl⟩ := hgoes (by rw [hsame]; rfl)
    obtain ⟨sess, hsess, hinject⟩ := htoken token hsame
    cases sess with
    | none => cases hinject
    | some s =>
      obtain ⟨hvalue, hscope⟩ := inScope_of_injected hinject
      obtain ⟨sid, hcookie, hin⟩ := hsess s rfl
      obtain ⟨w₁, w₁', t₁, hs₁⟩ := exists_of_mem_own hin
      obtain ⟨c₂, c₃, hrun₁, hstep⟩ := hrun.entry hs₁
      have hread := reading_ok (Prod.mk.inj (Option.some.inj (hrun.exec hs₁))).1
      obtain ⟨k, hk, rfl, hlive⟩ := live_some hread
      have hworld : w₁ = c₂.world := hstep.pre_eq
      exact ⟨q, sid, k, w₁, w₁', t₁, hlos, hurl, hcookie, hs₁,
        (accounted_run hrun₁).resumes sid k (hworld ▸ hk), hlive, hvalue.symm, hscope⟩
  · have hnone : header xApplicationToken (abandonRequest S (member appIdKey content)).headers = none :=
      rfl
    rw [hnone] at ht
    cases ht

/-- **A resume session that was cleared is not resolved again.** -/
theorem cleared_for_good (h : Run (opened S calls clock redis probe accounts downstream) tr c)
    {i j : ι} {sid : Text} {r : Except RedisError (Option Resume)} {w w' w₁ w₁' : World}
    {t t₁ : List (Entry (gateway S) ι)} (hdrawn : ∃ n, n < w.drawn ∧ S.uuid n = sid)
    (hclear : .call i (.clearResume sid) (.ok ()) w w' :: t <:+ t₁)
    (hs : .call j (.resolveResume sid) r w₁ w₁' :: t₁ <:+ tr) (s : Resume) : r ≠ .ok (some s) := by
  obtain ⟨c₁, c₂, hrun, hstep⟩ := h.entry hs
  have hpersist : c₁.world.resumes sid = none ∧ ∃ n, n < c₁.world.drawn ∧ S.uuid n = sid := by
    obtain ⟨front, rfl⟩ := hclear
    obtain ⟨c₃, hbefore, hafter⟩ := hrun.split
    obtain ⟨c₄, -, hclearing⟩ := hbefore.uncons
    have hexec := hbefore.exec List.suffix_rfl
    have hcleared : w' = w.withResume sid none := by
      have hwrite : w.writing () (w.withResume sid none) = (.ok (), w') := Option.some.inj hexec
      unfold World.writing at hwrite
      split at hwrite
      · exact (Prod.mk.inj hwrite).2.symm
      · cases (Prod.mk.inj hwrite).1
      · cases (Prod.mk.inj hwrite).1
    have hstart : c₃.world.resumes sid = none ∧ ∃ n, n < c₃.world.drawn ∧ S.uuid n = sid := by
      rw [← hclearing.post_eq]
      show w'.resumes sid = none ∧ ∃ n, n < w'.drawn ∧ S.uuid n = sid
      rw [hcleared]
      exact ⟨if_pos rfl, hdrawn⟩
    refine hafter.always
      (I := fun w : World => w.resumes sid = none ∧ ∃ n, n < w.drawn ∧ S.uuid n = sid) hstart ?_ ?_
    · rintro s w r w' ⟨hnone, n, hn, huuid⟩ hx
      have heffect := exec_effect hx
      refine ⟨?_, n, hn.trans_le heffect.drawn_le, huuid⟩
      by_contra hsome
      obtain ⟨k, hk⟩ := Option.ne_none_iff_exists'.mp hsome
      rcases heffect.resumes hk with hold | ⟨_, _, -, hnew, -⟩
      · rw [hnone] at hold
        cases hold
      · exact absurd (S.uuid_inj (huuid.trans hnew.symm)) hn.ne
    · rintro e w ⟨hnone, hn⟩
      cases e <;> exact ⟨hnone, hn⟩
  rintro rfl
  have hread := reading_ok (Prod.mk.inj (Option.some.inj (h.exec hs))).1
  have hworld : w₁ = c₁.world := hstep.pre_eq
  rw [hworld, hpersist.1] at hread
  cases hread

end Runs

/-! ## A sample of requests -/

/-- Ids of ever more letters, and addresses without a host. -/
def sampleSettings : Settings where
  sessionTtl := 28800
  resumeTtl := 604800
  internalServiceToken := "secret".toList
  originationUrl := "los:".toList
  servicingUrl := "lss:".toList
  kycUrl := "kyc:".toList
  decisionUrl := "decision:".toList
  disclosureUrl := "disclosure:".toList
  paymentUrl := "payment:".toList
  uuid n := List.replicate (n + 1) 'u'
  uuid_inj m n h := by simpa using congrArg List.length h
  containerText _ := []

/-- A request with a path, a bearer token and a resume cookie; it claims to be an administrator. -/
def asking (method path : String) (bearer cookie : Option Text) : Incoming where
  method := method.toList
  path := path.toList
  headers := ("x-user-role".toList, "admin".toList) ::
    (bearer.map fun t => ("authorization".toList, "Bearer ".toList ++ t)).toList
  cookies := (cookie.map fun t => ("meridian_resume".toList, t)).toList
  query := []
  body := []

/-- A login, a balance read, a submit, the accept of what was submitted, and the accept once more. -/
def sampleCalls : Fin 5 → Call
  | 0 => .login "cara".toList "pw".toList
  | 1 => .lss (asking "GET" "accounts/1/balance" (some "u".toList) none)
  | 2 => .los (asking "POST" "applications" none none)
  | _ => .los (asking "POST" "applications/7/accept" none (some "uu".toList))

/-- Origination accepts the submit as application 7. -/
def sampleDownstream (f : Forwarded) : Reply :=
  if f.url = "los:/applications".toList then
    .answered 200 (some (.dict [(appIdKey, .int 7), (continuationToken, .str "tok".toList)])) []
  else .answered 200 (some (.dict [])) []

def sampleStart : Config (gateway sampleSettings) (Fin 5) (Except Raised Response) :=
  opened sampleSettings sampleCalls 0 .up true
    (fun _ _ => some (some ⟨3, "cara".toList, "csr".toList, none⟩)) sampleDownstream

/-- The calls in order, up to the second accept's look at its cookie. -/
def sampleRun : List (Pick (gateway sampleSettings) (Fin 5)) :=
  [.call 0, .call 0, .call 1, .call 1, .call 2, .call 2, .call 2, .call 3, .call 3, .call 3, .call 4]

/-- The request the last step has sent. -/
def lastSent : List (Entry (gateway sampleSettings) (Fin 5)) → Option Forwarded
  | .call _ (.send f) _ _ _ :: _ => some f
  | _ => none

theorem lastSent_some {tr : List (Entry (gateway sampleSettings) (Fin 5))} {f : Forwarded}
    (h : lastSent tr = some f) : ∃ i r w w' t, tr = .call i (.send f) r w w' :: t := by
  unfold lastSent at h
  split at h
  · cases h
    exact ⟨_, _, _, _, _, rfl⟩
  · cases h

/-- The clerk's balance read names the clerk, not the administrator it claims to be. -/
theorem identity_from_login_clerk : ∃ tr c, Run sampleStart tr c ∧
    ∃ i f q u, lastSent tr = some f ∧ header xUserRole f.headers = some "csr".toList ∧
      LoggedIn sampleSettings tr.tail i q u := by
  obtain ⟨tr, c, hrun, hsent⟩ := exists_run (sampleRun.take 4) sampleStart
    (fun x => (lastSent x.1).bind (fun f => header xUserRole f.headers) = some "csr".toList)
    (by decide +kernel)
  obtain ⟨f, hf, hrole⟩ := Option.bind_eq_some_iff.mp hsent
  obtain ⟨i, r, w, w', t, rfl⟩ := lastSent_some hf
  refine ⟨_, c, hrun, i, f, ?_⟩
  rcases identity_from_login hrun List.suffix_rfl with ⟨q, -, content, -, rfl⟩ |
    ⟨-, q, user, -, -, huser, hlogin⟩
  · cases hrole
  · rw [hrole] at huser
    obtain ⟨u, rfl, -⟩ := Option.map_eq_some_iff.mp huser.symm
    exact ⟨q, u, hf, hrole, hlogin u rfl⟩

/-- The accept carries the token of the submit, to origination. -/
theorem token_from_submit_accept : ∃ tr c, Run sampleStart tr c ∧
    ∃ f q sid k t, lastSent tr = some f ∧ header xApplicationToken f.headers = some "tok".toList ∧
      f.url = sampleSettings.originationUrl ++ '/' :: q ∧
      Stored sampleSettings sampleCalls t sid k ∧ InScope q k.value.appId := by
  obtain ⟨tr, c, hrun, hsent⟩ := exists_run (sampleRun.take 9) sampleStart
    (fun x => (lastSent x.1).bind (fun f => header xApplicationToken f.headers) =
      some "tok".toList) (by decide +kernel)
  obtain ⟨f, hf, htoken⟩ := Option.bind_eq_some_iff.mp hsent
  obtain ⟨i, r, w, w', t, rfl⟩ := lastSent_some hf
  obtain ⟨q, sid, k, _, _, t₁, -, hurl, -, -, hstored, -, -, hscope⟩ :=
    token_from_submit hrun List.suffix_rfl htoken
  exact ⟨_, c, hrun, f, q.path, sid, k, t₁, hf, htoken, hurl, hstored, hscope⟩

/-- The last step looks at a cookie that the step before it has cleared. -/
def looksAtCleared : List (Entry (gateway sampleSettings) (Fin 5)) → Bool
  | .call _ (.resolveResume sid) _ _ _ :: .call _ (.clearResume sid') (.ok ()) w _ :: _ =>
    sid = sid' && sid = sampleSettings.uuid 1 && 1 < w.drawn
  | _ => false

theorem cleared_for_good_accept : ∃ tr c, Run sampleStart tr c ∧ looksAtCleared tr = true ∧
    ∃ j sid r w w' t, tr = .call j (.resolveResume sid) r w w' :: t ∧ ∀ s, r ≠ .ok (some s) := by
  obtain ⟨tr, c, hrun, hcleared⟩ := exists_run sampleRun sampleStart
    (fun x => looksAtCleared x.1 = true) (by decide +kernel)
  replace hcleared : looksAtCleared tr = true := hcleared
  refine ⟨tr, c, hrun, hcleared, ?_⟩
  unfold looksAtCleared at hcleared
  split at hcleared
  · simp only [Bool.and_eq_true, decide_eq_true_eq] at hcleared
    obtain ⟨⟨rfl, hsid⟩, hdrawn⟩ := hcleared
    exact ⟨_, _, _, _, _, _, rfl, fun s =>
      cleared_for_good hrun ⟨1, hdrawn, hsid.symm⟩ List.suffix_rfl List.suffix_rfl s⟩
  · cases hcleared

end Meridian.Gateway
