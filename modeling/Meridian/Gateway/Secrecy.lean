import Mathlib.Logic.Equiv.Basic
import Meridian.Gateway.Custody
import Meridian.Interleave.Renaming

/-!
# The browser cannot tell one continuation token from another

Let every token be replaced by another one, wherever origination hands it out, wherever Redis keeps it
and wherever the gateway sends it. Every run of the gateway is then a run again, and every request gets
the answer it got before: body, status and cookie.

* `renameContent`, `renameForwarded`: the token in the body origination answers with, and in the header
  of a request.
* `tokenRenaming` is the renaming of the whole gateway.
* `token_not_seen`: what the routes answer does not depend on the tokens.
-/

namespace Meridian.Gateway

open Interleave Python

/-! ## Renaming tokens -/

section Names

variable (σ : Equiv.Perm Text)

/-- A token is a string. -/
def renameValue : Value → Value
  | .str t => .str (σ t)
  | v => v

/-- The token in a body, if there is one. -/
def renameContent (content : Value) : Value :=
  if (member continuationToken content).truthy then
    match content with
    | .dict members =>
      .dict (members.map fun m => if m.1 = continuationToken then (m.1, renameValue σ m.2) else m)
    | v => v
  else content

def renameResume (s : Resume) : Resume := ⟨s.appId, renameValue σ s.token⟩

/-- The token in a header. -/
def renameHeader (h : Text × Text) : Text × Text := if h.1 = xApplicationToken then (h.1, σ h.2) else h

def renameForwarded (f : Forwarded) : Forwarded := { f with headers := f.headers.map (renameHeader σ) }

def renameReply : Reply → Reply
  | .answered status json text => .answered status (json.map (renameContent σ)) text
  | .failed => .failed

/-- Origination's answers to renamed requests; the other services hand out no tokens. -/
def renameDownstream (S : Settings) (downstream : Forwarded → Reply) (f : Forwarded) : Reply :=
  let reply := downstream (renameForwarded σ.symm f)
  if S.originationUrl.isPrefixOf f.url then renameReply σ reply else reply

def renameWorld (S : Settings) (w : World) : World :=
  { w with
    resumes := fun sid => (w.resumes sid).map fun k => ⟨renameResume σ k.value, k.expiresAt⟩
    downstream := renameDownstream σ S w.downstream }

def renameStmt : Stmt → Stmt
  | .createResumeSession appId token => .createResumeSession appId (renameValue σ token)
  | .send f => .send (renameForwarded σ f)
  | s => s

def renameRes (S : Settings) : (s : Stmt) → s.Res → (renameStmt σ s).Res
  | .authenticate _ _, r => r
  | .getSession _, r => r
  | .redisReachable, r => r
  | .createSession _, r => r
  | .deleteSession _, r => r
  | .resolveResume _, r => r.map (Option.map (renameResume σ))
  | .createResumeSession _ _, r => r
  | .clearResume _, r => r
  | .send f, r => if S.originationUrl.isPrefixOf f.url then renameReply σ r else r

def renameEnv (S : Settings) : Env → Env
  | .downstream f => .downstream (renameDownstream σ S f)
  | e => e

end Names

section Laws

variable {S : Settings} {σ : Equiv.Perm Text}

theorem renameHeader_symm (h : Text × Text) : renameHeader σ.symm (renameHeader σ h) = h := by
  unfold renameHeader
  by_cases hkey : h.1 = xApplicationToken <;> simp [hkey, Prod.ext_iff]

theorem renameForwarded_symm (f : Forwarded) : renameForwarded σ.symm (renameForwarded σ f) = f := by
  unfold renameForwarded
  simp only [List.map_map]
  have hid : renameHeader σ.symm ∘ renameHeader σ = id := funext renameHeader_symm
  rw [hid, List.map_id]

theorem live_map {α β : Type} (f : α → β) (x : Option (Kept α)) (now : ℚ) :
    live (x.map fun k => ⟨f k.value, k.expiresAt⟩) now = (live x now).map f := by
  cases x with
  | none => rfl
  | some k => by_cases h : now < k.expiresAt <;> simp [live, Option.filter, h]

theorem renameWorld_withSession (w : World) (token : Text) (k : Option (Kept User)) :
    renameWorld σ S (w.withSession token k) = (renameWorld σ S w).withSession token k := rfl

theorem renameWorld_withResume (w : World) (sid : Text) (k : Option (Kept Resume)) :
    renameWorld σ S (w.withResume sid k) = (renameWorld σ S w).withResume sid
      (k.map fun k => ⟨renameResume σ k.value, k.expiresAt⟩) := by
  unfold renameWorld World.withResume
  congr 1
  funext t
  by_cases h : t = sid <;> simp [h]

/-- A command that writes does so in the renamed world. -/
theorem renameWorld_writing {α : Type} (a : α) {w w' w₁ w₁' : World} {r : Except RedisError α}
    (h : w.writing a w' = (r, w₁)) (hw : renameWorld σ S w' = w₁') :
    (renameWorld σ S w).writing a w₁' = (r, renameWorld σ S w₁) := by
  have hsame : (renameWorld σ S w).redis = w.redis := rfl
  unfold World.writing at h ⊢
  rw [hsame]
  cases hredis : w.redis <;> rw [hredis] at h <;> cases h <;> simp [hw]

theorem rename_exec {s : Stmt} {w w' : World} {r : s.Res} (h : w.exec S s = some (r, w')) :
    (renameWorld σ S w).exec S (renameStmt σ s) = some (renameRes σ S s r, renameWorld σ S w') := by
  cases s with
  | authenticate name password | getSession token | redisReachable =>
    cases h
    rfl
  | createSession user =>
    exact congrArg some (renameWorld_writing _ (Option.some.inj h) rfl)
  | deleteSession token =>
    exact congrArg some (renameWorld_writing _ (Option.some.inj h) rfl)
  | resolveResume sid =>
    cases h
    show some ((renameWorld σ S w).reading (live ((renameWorld σ S w).resumes sid) w.clock),
      renameWorld σ S w) = some ((w.reading (live (w.resumes sid) w.clock)).map
        (Option.map (renameResume σ)), renameWorld σ S w)
    have hlive : live ((renameWorld σ S w).resumes sid) w.clock =
        (live (w.resumes sid) w.clock).map (renameResume σ) := live_map _ _ _
    rw [hlive]
    unfold World.reading
    by_cases hup : w.redis = .up
    · rw [if_pos hup, if_pos (show (renameWorld σ S w).redis = .up from hup)]
      rfl
    · rw [if_neg hup, if_neg (show ¬(renameWorld σ S w).redis = .up from hup)]
      rfl
  | createResumeSession appId token =>
    exact congrArg some (renameWorld_writing _ (Option.some.inj h) (renameWorld_withResume _ _ _))
  | clearResume sid =>
    exact congrArg some (renameWorld_writing _ (Option.some.inj h) (renameWorld_withResume _ _ _))
  | send f =>
    cases h
    show some (renameDownstream σ S w.downstream (renameForwarded σ f), renameWorld σ S w) =
      some (if S.originationUrl.isPrefixOf f.url then renameReply σ (w.downstream f)
        else w.downstream f, renameWorld σ S w)
    unfold renameDownstream
    rw [renameForwarded_symm]
    rfl

theorem rename_move (e : Env) (w : World) :
    World.move (renameEnv σ S e) (renameWorld σ S w) = renameWorld σ S (World.move e w) := by
  cases e <;> rfl

variable (S σ) in
/-- Every token of the gateway under another name. -/
def tokenRenaming : Renaming (gateway S) where
  world := renameWorld σ S
  stmt := renameStmt σ
  res := renameRes σ S
  env := renameEnv σ S
  exec_eq := rename_exec
  env_eq := rename_move

end Laws

/-! ## What the routes do with a renamed token -/

section Data

variable {σ : Equiv.Perm Text} (hσ : σ [] = [])

include hσ

theorem renameValue_truthy (v : Value) : (renameValue σ v).truthy = v.truthy := by
  cases v with
  | str t =>
    have hempty : σ t = [] ↔ t = [] := by
      rw [← hσ, σ.injective.eq_iff]
      rw [hσ]
    simp only [renameValue, Value.truthy]
    rw [Bool.eq_iff_iff]
    simp [hempty]
  | none | bool b | int n | float x | list items | dict members => rfl

theorem renameValue_falsy {v : Value} (h : v.truthy = false) : renameValue σ v = v := by
  cases v with
  | str t =>
    have hnil : t = [] := by simpa [Value.truthy] using h
    rw [hnil]
    exact congrArg Value.str hσ
  | none | bool b | int n | float x | list items | dict members => rfl

omit hσ in
theorem lookup_map_value (f : Text → Value → Value) (key : Text) (members : List (Text × Value)) :
    (members.map fun m => (m.1, f m.1 m.2)).lookup key = (members.lookup key).map (f key) := by
  induction members with
  | nil => rfl
  | cons m members ih =>
    rw [List.map_cons, List.lookup_cons, List.lookup_cons]
    by_cases hkey : key = m.1
    · simp [hkey]
    · have hne : (key == m.1) = false := beq_false_of_ne hkey
      simpa [hne] using ih

omit hσ in
theorem member_dict (key : Text) (members : List (Text × Value)) (f : Text → Value → Value)
    (hnone : f key .none = .none) :
    member key (.dict (members.map fun m => (m.1, f m.1 m.2))) = f key (member key (.dict members)) := by
  show ((members.map fun m => (m.1, f m.1 m.2)).lookup key).getD .none = _
  rw [lookup_map_value]
  show _ = f key ((members.lookup key).getD .none)
  cases members.lookup key with
  | none => exact hnone.symm
  | some v => rfl

/-- A renamed body is the body with the member under `continuation_token` renamed. -/
theorem member_renameContent (key : Text) (content : Value) :
    member key (renameContent σ content) =
      if key = continuationToken then renameValue σ (member key content) else member key content := by
  unfold renameContent
  by_cases htoken : (member continuationToken content).truthy = true
  · rw [if_pos htoken]
    cases content with
    | dict members =>
      have hmembers : (members.map fun m => if m.1 = continuationToken then
          (m.1, renameValue σ m.2) else m) =
          members.map fun m => (m.1, if m.1 = continuationToken then renameValue σ m.2 else m.2) := by
        refine List.map_congr_left fun m _ => ?_
        by_cases hm : m.1 = continuationToken <;> simp [hm]
      show member key (.dict (members.map fun m => if m.1 = continuationToken then
        (m.1, renameValue σ m.2) else m)) = _
      rw [hmembers]
      exact member_dict key members
        (fun k v => if k = continuationToken then renameValue σ v else v) (by simp [renameValue])
    | none | bool b | int n | float x | str t | list items => exact absurd htoken Bool.false_ne_true
  · rw [if_neg htoken]
    split
    · rename_i hkey
      rw [hkey, renameValue_falsy hσ (by simpa using htoken)]
    · rfl

theorem member_token (content : Value) : member continuationToken (renameContent σ content) =
    renameValue σ (member continuationToken content) := by
  rw [member_renameContent hσ, if_pos rfl]

theorem member_appId (content : Value) :
    member appIdKey (renameContent σ content) = member appIdKey content := by
  rw [member_renameContent hσ, if_neg (by decide)]

/-- **What reaches the browser is the same.** -/
theorem withoutToken_rename (content : Value) :
    withoutToken (renameContent σ content) = withoutToken content := by
  unfold withoutToken
  rw [member_token hσ, renameValue_truthy hσ]
  by_cases htoken : (member continuationToken content).truthy = true
  · rw [if_pos htoken, if_pos htoken]
    unfold renameContent
    rw [if_pos htoken]
    cases content with
    | dict members =>
      show Value.dict ((members.map fun m => if m.1 = continuationToken then
        (m.1, renameValue σ m.2) else m).filter fun m => m.1 ≠ continuationToken) =
          Value.dict (members.filter fun m => m.1 ≠ continuationToken)
      refine congrArg Value.dict ?_
      rw [List.filter_map]
      refine (List.map_congr_left fun m hm => ?_).trans ((List.map_id _).trans ?_)
      · have hkey := (List.mem_filter.mp hm).2
        by_cases hsame : m.1 = continuationToken
        · simp [hsame] at hkey
        · rw [if_neg hsame]
          rfl
      · refine List.filter_congr fun m _ => ?_
        by_cases hsame : m.1 = continuationToken <;> simp [hsame]
    | none | bool b | int n | float x | str t | list items => exact absurd htoken Bool.false_ne_true
  · rw [if_neg htoken, if_neg htoken]
    unfold renameContent
    rw [if_neg htoken]

theorem isSubmit_rename (q : Incoming) (officer : Bool) (status : ℕ) (content : Value) :
    isSubmit q officer status (renameContent σ content) = isSubmit q officer status content := by
  unfold isSubmit
  rw [member_token hσ, member_appId hσ, renameValue_truthy hσ]

omit hσ in
theorem contentOf_rename (json : Option Value) (text : Text) :
    contentOf (json.map (renameContent σ)) text = renameContent σ (contentOf json text) := by
  cases json with
  | none => rfl
  | some v => rfl

theorem tokenHeader_rename (v : Option Value) :
    tokenHeader (v.map (renameValue σ)) = (tokenHeader v).map (Option.map σ) := by
  cases v with
  | none => rfl
  | some v =>
    show tokenHeader (some (renameValue σ v)) = _
    unfold tokenHeader
    dsimp only
    rw [renameValue_truthy hσ]
    split
    · cases v <;> rfl
    · rfl

omit hσ in
theorem forwardedHeaders_rename (headers : List (Text × Text)) (user : Option User)
    (token : Option Text) : forwardedHeaders headers user (token.map σ) =
      (forwardedHeaders headers user token).map (renameHeader σ) := by
  have hkept : ∀ e ∈ forwardedHeaders headers user none, renameHeader σ e = e := by
    intro e he
    refine if_neg ?_
    cases user with
    | none => exact (passedOn_harmless headers).ne (by decide) e he
    | some u =>
      rw [forwardedHeaders_some, List.append_assoc] at he
      rcases List.mem_append.mp he with he | he
      · exact (passedOn_harmless headers).ne (by decide) e he
      · rcases List.mem_cons.mp he with rfl | he
        · exact xUserId_ne_xApplicationToken
        · rw [List.mem_singleton.mp he]
          exact xUserRole_ne_xApplicationToken
  have hsame : (forwardedHeaders headers user none).map (renameHeader σ) =
      forwardedHeaders headers user none :=
    (List.map_congr_left hkept).trans (List.map_id _)
  cases token with
  | none => exact hsame.symm
  | some t =>
    show forwardedHeaders headers user (some (σ t)) = _
    rw [forwardedHeaders_token, forwardedHeaders_token, List.map_append, hsame]
    rfl

omit hσ in
theorem injected_rename (sess : Option Resume) (path : Text) :
    injected (sess.map (renameResume σ)) path = (injected sess path).map (renameValue σ) := by
  cases sess with
  | none => rfl
  | some s =>
    show injected (some (renameResume σ s)) path = _
    unfold injected
    cases appIdInPath path with
    | some id => by_cases h : idText s.appId = some id <;> simp [renameResume, h]
    | none => by_cases h : stripSlashes path = "offer".toList <;> simp [renameResume, h]

end Data

/-! ## The routes under a renaming -/

/-- No address of another service begins with origination's, and the other way round. -/
def Settings.Separate (S : Settings) : Prop :=
  ∀ base ∈ [S.servicingUrl, S.kycUrl, S.decisionUrl, S.disclosureUrl, S.paymentUrl],
    ¬S.originationUrl <+: base ∧ ¬base <+: S.originationUrl

/-- The address of another service with a path behind it is still not origination's. -/
theorem Settings.Separate.url {S : Settings} (h : S.Separate) {base : Text}
    (hbase : base ∈ [S.servicingUrl, S.kycUrl, S.decisionUrl, S.disclosureUrl, S.paymentUrl])
    (path : Text) : S.originationUrl.isPrefixOf (base ++ path) = false := by
  rw [Bool.eq_false_iff, Ne, List.isPrefixOf_iff_prefix]
  intro hprefix
  rcases List.prefix_or_prefix_of_prefix hprefix (List.prefix_append base path) with hp | hp
  · exact (h base hbase).1 hp
  · exact (h base hbase).2 hp

theorem sent_to_origination (S : Settings) (path : Text) :
    S.originationUrl.isPrefixOf (S.originationUrl ++ path) = true :=
  List.isPrefixOf_iff_prefix.mpr (List.prefix_append _ _)

section Routes

variable {S : Settings} {σ : Equiv.Perm Text}

variable (S σ) in
/-- The second program is the first one under other tokens, and it returns the same. -/
abbrev Unseen {α : Type} (p p' : P S α) : Prop := Prog.Renamed (tokenRenaming S σ) Eq p p'

theorem unseen_sessionOf (q : Incoming) : Unseen S σ (sessionOf q) (sessionOf q) := by
  unfold sessionOf
  cases q.bearer with
  | none => exact renamed_ret rfl
  | some token =>
    cases token with
    | nil => exact renamed_ret rfl
    | cons c t => exact ⟨_, rfl, fun r => renamed_ret rfl⟩

/-- The cookie's session comes with the other token. -/
theorem renamed_resolveCookie (sid : Option Text) (officer : Bool) :
    Prog.Renamed (tokenRenaming S σ) (fun r r' => r' = r.map (Option.map (renameResume σ)))
      (resolveCookie (S := S) sid officer) (resolveCookie sid officer) := by
  unfold resolveCookie
  cases sid with
  | none => exact renamed_ret rfl
  | some sid =>
    cases sid with
    | nil => exact renamed_ret rfl
    | cons c t =>
      refine ⟨_, rfl, fun r => ?_⟩
      cases r with
      | ok sess => exact renamed_ret rfl
      | error e =>
        refine renamed_ret ?_
        by_cases hofficer : officer = true <;> simp [hofficer, Except.map]

/-- A program that only sends to services that hand out no tokens. -/
theorem unseen_proxy (hS : S.Separate) {base : Text}
    (hbase : base ∈ [S.servicingUrl, S.kycUrl, S.decisionUrl, S.disclosureUrl, S.paymentUrl])
    (path : Text) (q : Incoming) (user : Option User) :
    Unseen S σ (proxy base path q user) (proxy base path q user) := by
  have hsent : renameForwarded σ ⟨q.method, base ++ path, forwardedHeaders q.headers user none,
      q.query, q.body⟩ = ⟨q.method, base ++ path, forwardedHeaders q.headers user none, q.query,
      q.body⟩ := by
    unfold renameForwarded
    rw [← forwardedHeaders_rename]
    rfl
  refine ⟨_, congrArg (fun f => Prog.stmt (M := gateway S) (.send f) _) hsent.symm, fun r => ?_⟩
  have hr : (tokenRenaming S σ).res (.send ⟨q.method, base ++ path,
      forwardedHeaders q.headers user none, q.query, q.body⟩) r = r :=
    if_neg (Bool.eq_false_iff.mp (hS.url hbase path))
  rw [hr]
  cases r with
  | answered status json text => exact renamed_ret rfl
  | failed => exact renamed_ret rfl

theorem unseen_openRoute (hS : S.Separate) {base : Text}
    (hbase : base ∈ [S.servicingUrl, S.kycUrl, S.decisionUrl, S.disclosureUrl, S.paymentUrl])
    (q : Incoming) : Unseen S σ (openRoute base q) (openRoute base q) := by
  refine renamed_bind (unseen_sessionOf q) fun user user' huser => ?_
  subst huser
  cases user with
  | error e => exact renamed_ret rfl
  | ok user => exact unseen_proxy hS hbase _ q user

theorem unseen_guarded (hS : S.Separate) {base : Text}
    (hbase : base ∈ [S.servicingUrl, S.kycUrl, S.decisionUrl, S.disclosureUrl, S.paymentUrl])
    (path : Text) (q : Incoming) : Unseen S σ (guarded base path q) (guarded base path q) := by
  refine renamed_bind (unseen_sessionOf q) fun user user' huser => ?_
  subst huser
  cases user with
  | error e => exact renamed_ret rfl
  | ok user =>
    cases user with
    | none => exact renamed_ret rfl
    | some user => exact unseen_proxy hS hbase path q (some user)

theorem unseen_login (username password : Text) :
    Unseen S σ (login username password) (login username password) := by
  refine ⟨_, rfl, fun r => ?_⟩
  rcases r with _ | _ | user
  · exact renamed_ret rfl
  · exact renamed_ret rfl
  · refine ⟨_, rfl, fun r => ?_⟩
    cases r with
    | error e => exact renamed_ret rfl
    | ok token => exact renamed_ret rfl

theorem unseen_logout (q : Incoming) : Unseen S σ (logout q) (logout q) := by
  unfold logout
  cases q.bearer with
  | none => exact renamed_ret rfl
  | some token =>
    cases token with
    | nil => exact renamed_ret rfl
    | cons c t =>
      refine ⟨_, rfl, fun r => ?_⟩
      cases r with
      | error e => exact renamed_ret rfl
      | ok u => exact renamed_ret rfl

theorem unseen_me (q : Incoming) : Unseen S σ (me q) (me q) := by
  refine renamed_bind (unseen_sessionOf q) fun user user' huser => ?_
  subst huser
  rcases user with e | _ | user
  · exact renamed_ret rfl
  · exact renamed_ret rfl
  · exact renamed_ret rfl

/-- A fresh token is kept under whatever name it has. -/
theorem unseen_create (appId token : Value) (attempts : ℕ) :
    Unseen S σ (createResumeSessionWithRetry appId token attempts)
      (createResumeSessionWithRetry appId (renameValue σ token) attempts) := by
  induction attempts with
  | zero => exact renamed_ret rfl
  | succ attempts ih =>
    refine ⟨_, rfl, fun r => ?_⟩
    cases r with
    | ok sid => exact renamed_ret rfl
    | error e => exact ih

theorem xInternalService_ne_xApplicationToken : xInternalService ≠ xApplicationToken := by decide

theorem unseen_abandon (appId : Value) :
    Unseen S σ (abandonApplication appId) (abandonApplication appId) := by
  unfold abandonApplication
  by_cases htoken : S.internalServiceToken = []
  · rw [if_pos htoken]
    exact renamed_ret rfl
  · rw [if_neg htoken]
    have hheader : renameHeader σ (xInternalService, S.internalServiceToken) =
        (xInternalService, S.internalServiceToken) := if_neg xInternalService_ne_xApplicationToken
    have hsent : renameForwarded σ (abandonRequest S appId) = abandonRequest S appId :=
      congrArg (fun h => { abandonRequest S appId with headers := [h] }) hheader
    exact ⟨_, congrArg (fun f => Prog.stmt (M := gateway S) (.send f) _) hsent.symm,
      fun r => renamed_ret rfl⟩

theorem unseen_settleSubmit (response : Response) (appId token : Value) :
    Unseen S σ (settleSubmit response appId token)
      (settleSubmit response appId (renameValue σ token)) := by
  refine renamed_bind (unseen_create appId token 3) fun sid sid' hsid => ?_
  subst hsid
  cases sid with
  | some sid => exact renamed_ret rfl
  | none => exact renamed_bind (unseen_abandon appId) fun _ _ _ => renamed_ret rfl

theorem unseen_settleAccept (response : Response) (sid : Option Text) :
    Unseen S σ (settleAccept response sid) (settleAccept response sid) := by
  unfold settleAccept
  cases sid with
  | none => exact renamed_ret rfl
  | some sid =>
    cases sid with
    | nil => exact renamed_ret rfl
    | cons c t => exact ⟨_, rfl, fun r => renamed_ret rfl⟩

section Borrower

variable (hσ : σ [] = [])

include hσ

/-- What origination answers, with the other token in it. -/
theorem renamed_proxyRaw (path : Text) (q : Incoming) (user : Option User) (token : Option Value) :
    Prog.Renamed (tokenRenaming S σ)
      (fun r r' => r' = r.map fun x => (x.1, renameContent σ x.2))
      (proxyRaw S.originationUrl path q user token)
      (proxyRaw S.originationUrl path q user (token.map (renameValue σ))) := by
  unfold proxyRaw
  rw [tokenHeader_rename hσ]
  cases tokenHeader token with
  | error e => exact renamed_ret rfl
  | ok header =>
    have hsent : renameForwarded σ ⟨q.method, S.originationUrl ++ path,
        forwardedHeaders q.headers user header, q.query, q.body⟩ =
        ⟨q.method, S.originationUrl ++ path, forwardedHeaders q.headers user (header.map σ), q.query,
          q.body⟩ := by
      rw [forwardedHeaders_rename]
      rfl
    refine ⟨_, congrArg (fun f => Prog.stmt (M := gateway S) (.send f) _) hsent.symm, fun r => ?_⟩
    have hr : (tokenRenaming S σ).res (.send ⟨q.method, S.originationUrl ++ path,
        forwardedHeaders q.headers user header, q.query, q.body⟩) r = renameReply σ r :=
      if_pos (sent_to_origination S path)
    rw [hr]
    cases r with
    | answered status json text =>
      refine renamed_ret ?_
      rw [contentOf_rename]
      rfl
    | failed => exact renamed_ret rfl

theorem unseen_epilogue (q : Incoming) (officer : Bool) (sid : Option Text) (status : ℕ)
    (content : Value) (response : Response) :
    Unseen S σ (epilogue q officer sid status content response)
      (epilogue q officer sid status (renameContent σ content) response) := by
  unfold epilogue
  rw [isSubmit_rename hσ, member_appId hσ, member_token hσ]
  by_cases hsubmit : isSubmit q officer status content = true
  · rw [if_pos hsubmit, if_pos hsubmit]
    exact unseen_settleSubmit _ _ _
  · rw [if_neg hsubmit, if_neg hsubmit]
    by_cases haccept : isAccept q status = true
    · rw [if_pos haccept]
      exact unseen_settleAccept _ sid
    · rw [if_neg haccept]
      exact renamed_ret rfl

theorem unseen_settle (q : Incoming) (officer : Bool) (sid : Option Text) (status : ℕ)
    (content : Value) : Unseen S σ (settle q officer sid status content)
      (settle q officer sid status (renameContent σ content)) := by
  unfold settle
  rw [withoutToken_rename hσ]
  cases jsonResponse status (withoutToken content) with
  | error e => exact renamed_ret rfl
  | ok response =>
    refine renamed_bind (unseen_epilogue hσ q officer sid status content response) fun x x' hx => ?_
    subst hx
    exact renamed_ret rfl

theorem unseen_losFrom (q : Incoming) (user : Option User) :
    Unseen S σ (losFrom q user) (losFrom q user) := by
  refine renamed_bind (renamed_resolveCookie _ _) fun sess sess' hsess => ?_
  subst hsess
  cases sess with
  | error refused => exact renamed_ret rfl
  | ok sess =>
    show Prog.Renamed _ _ (proxyRaw S.originationUrl ('/' :: q.path) q user (injected sess q.path)
      >>= _) (proxyRaw S.originationUrl ('/' :: q.path) q user
        (injected (sess.map (renameResume σ)) q.path) >>= _)
    rw [injected_rename]
    refine renamed_bind (renamed_proxyRaw hσ _ q user _) fun r r' hr => ?_
    subst hr
    rcases r with e | ⟨status, content⟩
    · exact renamed_ret rfl
    · exact unseen_settle hσ q _ _ status content

theorem unseen_los (q : Incoming) : Unseen S σ (los q) (los q) := by
  refine renamed_bind (unseen_sessionOf q) fun user user' huser => ?_
  subst huser
  cases user with
  | error e => exact renamed_ret rfl
  | ok user =>
    by_cases hsubmit : (submits q && !isOfficer user) = true
    · dsimp only
      rw [if_pos hsubmit]
      refine ⟨_, rfl, fun r => ?_⟩
      by_cases hup : r = true
      · subst hup
        exact unseen_losFrom hσ q user
      · rw [Bool.not_eq_true] at hup
        subst hup
        exact renamed_ret rfl
    · dsimp only
      rw [if_neg hsubmit]
      exact unseen_losFrom hσ q user

theorem unseen_call (hS : S.Separate) (call : Call) :
    Unseen S σ (call.prog (S := S)) call.prog := by
  cases call with
  | login username password => exact unseen_login username password
  | logout q => exact unseen_logout q
  | me q => exact unseen_me q
  | los q => exact unseen_los hσ q
  | lss q => exact unseen_guarded hS (by simp) _ q
  | kyc q => exact unseen_openRoute hS (by simp) q
  | decision q => exact unseen_openRoute hS (by simp) q
  | disclosure q => exact unseen_openRoute hS (by simp) q
  | payments q => exact unseen_guarded hS (by simp) _ q
  | paymentsSubpath q => exact unseen_guarded hS (by simp) _ q

end Borrower

end Routes

/-! ## Over whole runs -/

section Runs

variable {ι : Type} [DecidableEq ι] {S : Settings} {σ : Equiv.Perm Text} {calls : ι → Call}
  {clock : ℚ} {redis : Redis} {probe : Bool} {accounts : Text → Text → Option (Option User)}
  {downstream : Forwarded → Reply} {tr : List (Entry (gateway S) ι)}
  {c : Config (gateway S) ι (Except Raised Response)}

/-- **The browser cannot tell tokens apart**: with every token under another name, the same requests
run the same way and are answered the same. -/
theorem token_not_seen (hσ : σ [] = []) (hS : S.Separate)
    (h : Run (opened S calls clock redis probe accounts downstream) tr c) :
    ∃ c', Run (opened S calls clock redis probe accounts (renameDownstream σ S downstream))
        (tr.map (tokenRenaming S σ).entry) c' ∧
      ∀ i, (c'.procs i).result = (c.procs i).result := by
  have hprogs : ∀ i, Unseen S σ
      ((opened S calls clock redis probe accounts downstream).procs i)
      ((opened S calls clock redis probe accounts (renameDownstream σ S downstream)).procs i) :=
    fun i => unseen_call hσ hS (calls i)
  obtain ⟨c', hrun, -, hprocs⟩ := h.renamed rfl hprogs
  exact ⟨c', hrun, fun i => (hprocs i).result_eq⟩

/-- The sample run with another token for the application: the submit is answered as before. -/
theorem token_not_seen_swap : ∃ tr c, Run sampleStart tr c ∧ ((c.procs 2).result).isSome = true ∧
    ∃ c', Run (opened sampleSettings sampleCalls 0 .up true
        (fun _ _ => some (some ⟨3, "cara".toList, "csr".toList, none⟩))
        (renameDownstream (Equiv.swap "tok".toList "kot".toList) sampleSettings sampleDownstream))
        (tr.map (tokenRenaming sampleSettings (Equiv.swap "tok".toList "kot".toList)).entry) c' ∧
      ∀ i, (c'.procs i).result = (c.procs i).result := by
  obtain ⟨tr, c, hrun, hsome⟩ := exists_run (sampleRun.take 9) sampleStart
    (fun x => ((x.2.procs 2).result).isSome = true) (by decide +kernel)
  have hseparate : sampleSettings.Separate := by
    unfold Settings.Separate
    decide
  exact ⟨tr, c, hrun, hsome, token_not_seen (by decide) hseparate hrun⟩

end Runs

end Meridian.Gateway
