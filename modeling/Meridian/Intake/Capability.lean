import Meridian.Intake.Funding

/-!
# A continuation token is one application's capability

Any run from an empty database, with keys that rotate and a clock that advances. A token is `Issued`
for the application its submission inserted; `Origin` says what an application's row keeps of that.

* `issued_unique`: a token is issued for one application, an application with one token.
* `origin_run`: what is stored of a token is its digest under a key that is still configured.
* **`token_capability`**: who is admitted by a token presented the one issued for the application,
  while its expiry was ahead and the application not funded. A token verifies after any rotation;
  after funding it answers `accept_offer` with the boarded loan and writes nothing.
-/

namespace Meridian.Intake

open Python Interleave
open Origination (Outcome)

variable {ι : Type} [DecidableEq ι] {S : Supply} {hmac : Text → Text → Text} {tasks : ι → Task}
  {config : Config} {tr tr' : List (Entry (intake ι S) ι)}
  {c : Interleave.Config (intake ι S) ι Answer}

/-- The token was returned by the submission of the application. -/
def Issued (hmac : Text → Text → Text) (tr : List (Entry (intake ι S) ι)) (appId : Int)
    (raw : Text) : Prop :=
  ∃ i l, SubmissionOf hmac l appId raw ∧ l <:+ own i tr

theorem Issued.later {appId : Int} {raw : Text} (h : Issued hmac tr' appId raw) (hs : tr' <:+ tr) :
    Issued hmac tr appId raw := by
  obtain ⟨i, l, hl, hsuf⟩ := h
  exact ⟨i, l, hl, hsuf.trans (own_suffix i hs)⟩

/-! ## One token, one application -/

section Unique

variable {c₀ : Interleave.Config (intake ι S) ι Answer} {appId appId' : Int} {raw raw' : Text}

/-- The step that drew a token. -/
theorem issued_draw (h : Run c₀ tr c) {i : ι} {l : Log (intake ι S)}
    (hl : SubmissionOf hmac l appId raw) (hsuf : l <:+ own i tr) : ∃ w w' t,
    .call i .drawToken raw w w' :: t <:+ tr ∧ raw = S.token w.drawn ∧ w.drawn < w'.drawn := by
  obtain ⟨cfg, now, name, amount, m, token, e, -, rfl⟩ := hl
  have hmem : (⟨.drawToken, raw⟩ : Answered ι) ∈ own i tr := hsuf.subset (by simp [drawn])
  obtain ⟨w, w', t, hs⟩ := exists_of_mem_own hmem
  obtain ⟨rfl, rfl⟩ := Prod.mk.inj (Option.some.inj (h.exec hs))
  exact ⟨w, _, t, hs, rfl, Nat.lt_succ_self _⟩

/-- The step that inserted an application. -/
theorem issued_insert (h : Run c₀ tr c) {i : ι} {l : Log (intake ι S)}
    (hl : SubmissionOf hmac l appId raw) (hsuf : l <:+ own i tr) :
    ∃ name amount m token e w w' t cfg now,
      .call i (.insertApplication name amount m token e) appId w w' :: t <:+ tr ∧
      own i t = drawn raw cfg now ∧ appId = w.applications.next ∧
      w.applications.next < w'.applications.next := by
  obtain ⟨cfg, now, name, amount, m, token, e, -, rfl⟩ := hl
  obtain ⟨w, w', t, hs, hown⟩ := exists_of_own hsuf
  obtain ⟨rfl, rfl⟩ := Prod.mk.inj (Option.some.inj (h.exec hs))
  refine ⟨name, amount, m, token, e, w, _, t, cfg, now, hs, hown, rfl, ?_⟩
  dsimp only
  rw [(insertNext_rows ..).2]
  omega

/-- **A token is issued for one application.** -/
theorem Issued.unique (h : Run c₀ tr c) (h₁ : Issued hmac tr appId raw)
    (h₂ : Issued hmac tr appId' raw) : appId = appId' := by
  obtain ⟨i, l, hl, hsuf⟩ := h₁
  obtain ⟨j, l', hl', hsuf'⟩ := h₂
  obtain ⟨w, w₁, t, hs, hraw, hlt⟩ := issued_draw h hl hsuf
  obtain ⟨v, v₁, t', hs', hraw', hlt'⟩ := issued_draw h hl' hsuf'
  have hdrawn : w.drawn = v.drawn := S.distinct (hraw.symm.trans hraw')
  have hsame := h.drawn_once World.drawn
    (fun s w r w' hx => (exec_effect hx).counters.1) (fun e w => (env_counters e w).1) hs hs'
    hlt hlt' hdrawn
  obtain ⟨hentry, -⟩ := List.cons.inj hsame
  cases hentry
  obtain ⟨cfg, now, n, am, m, token, e, -, rfl⟩ := hl
  obtain ⟨cfg', now', n', am', m', token', e', -, rfl⟩ := hl'
  have hle := List.suffix_of_suffix_length_le hsuf hsuf' le_rfl
  obtain ⟨hins, -⟩ := List.cons.inj (hle.eq_of_length rfl)
  cases hins
  rfl

/-- **An application has one token.** -/
theorem Issued.token_unique (h : Run c₀ tr c) (h₁ : Issued hmac tr appId raw)
    (h₂ : Issued hmac tr appId raw') : raw = raw' := by
  obtain ⟨i, l, hl, hsuf⟩ := h₁
  obtain ⟨j, l', hl', hsuf'⟩ := h₂
  obtain ⟨n, am, m, token, e, w, w₁, t, cfg, now, hs, hown, hid, hlt⟩ := issued_insert h hl hsuf
  obtain ⟨n', am', m', token', e', v, v₁, t', cfg', now', hs', hown', hid', hlt'⟩ :=
    issued_insert h hl' hsuf'
  have hsame := h.drawn_once (fun w : World ι => w.applications.next)
    (fun s w r w' hx => (exec_effect hx).counters.2) (fun e w => (env_counters e w).2) hs hs'
    hlt hlt' (hid.symm.trans hid')
  obtain ⟨hentry, htail⟩ := List.cons.inj hsame
  cases hentry
  rw [htail, hown'] at hown
  simp only [drawn, List.cons.injEq] at hown
  obtain ⟨-, -, hraw, -⟩ := hown
  cases hraw
  rfl

end Unique

/-! ## What is stored of a token -/

/-- An application's row is what its submission inserted, perhaps funded since. -/
def Origin (hmac : Text → Text → Text) (tr : List (Entry (intake ι S) ι)) (a : ApplicationRow) :
    Prop :=
  ∃ i raw config now name amount m token,
    ⟨.insertApplication name amount m token (now + days config.ttlDays), a.id⟩ ::
      drawn raw config now <:+ own i tr ∧
    hashToken hmac config raw = some token ∧ a.continuationToken = some token ∧
    (a.status = funded ∨ a.expiresAt = some (now + days config.ttlDays))

theorem Origin.later {a : ApplicationRow} (h : Origin hmac tr' a) (hs : tr' <:+ tr) :
    Origin hmac tr a := by
  obtain ⟨i, raw, cfg, now, name, amount, m, token, hown, hrest⟩ := h
  exact ⟨i, raw, cfg, now, name, amount, m, token, hown.trans (own_suffix i hs), hrest⟩

theorem Origin.settled {a : ApplicationRow} (h : Origin hmac tr a) : Origin hmac tr a.settled := by
  obtain ⟨i, raw, cfg, now, name, amount, m, token, hown, hhash, htoken, -⟩ := h
  exact ⟨i, raw, cfg, now, name, amount, m, token, hown, hhash, htoken, .inl rfl⟩

/-- An application is inserted with the digest of its token. -/
def Stamps (hmac : Text → Text → Text) (l : Log (intake ι S)) : Stmt ι → Prop
  | .insertApplication _ _ _ token e => Stamped hmac l token e
  | _ => True

theorem task_stamps (i : ι) (t : Task) :
    (t.prog hmac i).Obeys (Stamps hmac) (Ended hmac t) ([] : Log (intake ι S)) := by
  refine task_obeys i t ?_ (fun _ _ _ _ _ _ h => h) (fun _ _ _ _ => trivial)
    (fun _ _ _ _ _ _ _ _ => trivial) (fun _ _ _ _ => trivial) fun _ l s _ h => ?_
  · intro l s hs
    cases s with
    | insertApplication => cases hs
    | _ => trivial
  · cases s with
    | insertApplication => cases h
    | _ => trivial

/-- **Every row keeps what its submission stored.** -/
theorem origin_run (h : Run (start S hmac tasks (.initial config)) tr c) :
    ∀ a ∈ c.world.applications.rows, Origin hmac tr a := by
  refine Run.invariant (φ := fun _ => Stamps hmac) (Q := fun i => Ended hmac (tasks i))
    (C := fun _ _ => True)
    (I := fun tr (w : World ι) => ∀ a ∈ w.applications.rows, Origin hmac tr a)
    (fun i => task_stamps i (tasks i)) ?_ ?_ ?_ h (along_true tr)
  · intro a ha
    cases ha
  · rintro tr c i s x w - hI hs hx - a ha
    have hsuf : tr <:+ (.call i s x c.world w :: tr : List (Entry (intake ι S) ι)) :=
      List.suffix_cons ..
    rcases (exec_effect hx).application_from ha with hold | ⟨a', ha', -, rfl⟩ |
      ⟨name, amount, m, token, e, heq, rfl⟩
    · exact (hI a hold).later hsuf
    · exact ((hI a' ha').later hsuf).settled
    · cases heq
      obtain ⟨raw, cfg, now, hl, hhash, rfl⟩ := hs
      refine ⟨i, raw, cfg, now, name, amount, m, token, ?_, hhash, rfl, .inr rfl⟩
      rw [own_call_self, hl]
  · rintro tr c e - hI - a ha
    have hsame : (World.env e c.world).applications = c.world.applications :=
      (env_quiet e c.world).applications
    rw [show ((intake ι S).env e c.world).applications = c.world.applications from hsame] at ha
    exact hI a ha

/-- A key that was configured stays configured. -/
theorem config_kept (h : Run (start S hmac tasks (.initial config)) tr c) {i : ι} {cfg : Config}
    (hread : ⟨.readConfig, cfg⟩ ∈ own i tr) :
    ∀ key ∈ cfg.verifyKeys, key ∈ c.world.config.verifyKeys := by
  refine h.established (P := fun w : World ι => ∀ key ∈ cfg.verifyKeys, key ∈ w.config.verifyKeys)
    hread ?_ ?_ ?_
  · intro w w' hx
    obtain ⟨rfl, rfl⟩ := Prod.mk.inj (Option.some.inj hx)
    exact fun key hk => hk
  · intro s w x w' hw hx key hk
    rw [(exec_effect hx).same_config.1]
    exact hw key hk
  · exact fun e w hw key hk => (env_quiet e w).config key (hw key hk)

/-- The token of a row is the one issued for it. -/
theorem Origin.issued {a : ApplicationRow} (h : Origin hmac tr a) : ∃ raw cfg token i,
    Issued hmac tr a.id raw ∧ ⟨.readConfig, cfg⟩ ∈ own i tr ∧ ⟨.drawToken, raw⟩ ∈ own i tr ∧
    hashToken hmac cfg raw = some token ∧ a.continuationToken = some token := by
  obtain ⟨i, raw, cfg, now, name, amount, m, token, hown, hhash, htoken, -⟩ := h
  refine ⟨raw, cfg, token, i, ⟨i, _, ⟨cfg, now, name, amount, m, token, _, hhash, rfl⟩, hown⟩, ?_, ?_,
    hhash, htoken⟩
  · exact hown.subset (by simp [drawn])
  · exact hown.subset (by simp [drawn])

theorem drawn_ne_nil (h : Run (start S hmac tasks (.initial config)) tr c) {i : ι} {raw : Text}
    (hraw : ⟨.drawToken, raw⟩ ∈ own i tr) : raw ≠ [] := by
  obtain ⟨w, w', t, hs⟩ := exists_of_mem_own hraw
  obtain ⟨rfl, -⟩ := Prod.mk.inj (Option.some.inj (h.exec hs))
  exact S.nonempty _

/-- **A token verifies after every rotation**, against what is stored of its application. -/
theorem issued_verifies (h : Run (start S hmac tasks (.initial config)) tr c) {a : ApplicationRow}
    {raw : Text} (ha : a ∈ c.world.applications.rows) (hissued : Issued hmac tr a.id raw) :
    ∃ stored, truthy a.continuationToken = some stored ∧
      verifyToken hmac c.world.config raw stored = true := by
  obtain ⟨raw', cfg, token, i, hissued', hread, hdraw, hhash, htoken⟩ := (origin_run h a ha).issued
  obtain rfl := hissued.token_unique h hissued'
  refine ⟨token, ?_, ?_⟩
  · rw [htoken]
    simp [truthy, hashToken_ne_nil hhash]
  · exact verifyToken_hashToken hhash (drawn_ne_nil h hdraw) (config_kept h hread)

/-- **Nothing else verifies.** -/
theorem issued_of_verifies (hfree : CollisionFree hmac)
    (h : Run (start S hmac tasks (.initial config)) tr c) {a : ApplicationRow} {raw stored : Text}
    {cfg : Config} (ha : a ∈ c.world.applications.rows)
    (hstored : truthy a.continuationToken = some stored)
    (hv : verifyToken hmac cfg raw stored = true) : Issued hmac tr a.id raw := by
  obtain ⟨raw', cfg', token, i, hissued, -, -, hhash, htoken⟩ := (origin_run h a ha).issued
  rw [htoken] at hstored
  obtain ⟨hsame, -⟩ := Option.filter_eq_some_iff.mp hstored
  cases hsame
  rwa [eq_of_verifyToken hfree hhash hv]

/-! ## Who is admitted -/

/-- The token opens the application, and no other: it was issued for it, its expiry is ahead, and it is
not funded. -/
structure Live (hmac : Text → Text → Text) (tr : List (Entry (intake ι S) ι)) (w : World ι)
    (appId : Int) (raw : Text) : Prop where
  issued : Issued hmac tr appId raw
  single : ∀ appId', Issued hmac tr appId' raw → appId' = appId
  row : ∃ a t, w.application appId = some a ∧ a.expiresAt = some t ∧ w.now < t ∧ a.status ≠ funded

/-- The clock never goes back. -/
theorem now_le (h : Run (start S hmac tasks (.initial config)) tr c) {e : Entry (intake ι S) ι}
    (hs : e :: tr' <:+ tr) : (World.now e.post : Int) ≤ c.world.now := by
  refine h.persist (P := fun w : World ι => (World.now e.post : Int) ≤ w.now) ?_ ?_ hs le_rfl
  · intro s w r w' hw hx
    rw [(exec_effect hx).same_config.2]
    exact hw
  · exact fun v w hw => hw.trans (env_quiet v w).now

theorem Shown.live (hfree : CollisionFree hmac)
    (h : Run (start S hmac tasks (.initial config)) tr c) {i : ι} {appId : Int} {cl : Caller}
    (hshown : Shown hmac appId cl (own i tr)) : ∃ raw v w w' tr', truthy cl.token = some raw ∧
      .call i (.selectAuth appId) v w w' :: tr' <:+ tr ∧ Live hmac tr' w appId raw := by
  obtain ⟨raw, row, stored, t, now, cfg, l, hraw, hstored, hexp, hnow, hv, hown, hread⟩ := hshown
  have hclocked : (⟨.now, now⟩ :: l : Log (intake ι S)) <:+ own i tr := by
    rw [hown]
    exact List.suffix_cons ..
  obtain ⟨w₁, w₁', t₁, hs₁, hl⟩ := exists_of_own hclocked
  rw [← hl] at hread
  obtain ⟨w, w', t₂, hs₂⟩ := exists_of_mem_own hread
  have hs : .call i (.selectAuth appId) (some row) w w' :: t₂ <:+ tr :=
    hs₂.trans ((List.suffix_cons ..).trans hs₁)
  obtain ⟨c₁, _, hrun₁, hst₁⟩ := h.entry hs₁
  obtain ⟨c₂, _, hrun, hst⟩ := h.entry hs
  obtain ⟨hview, rfl⟩ := Prod.mk.inj (Option.some.inj (h.exec hs))
  obtain ⟨a, happ, rfl⟩ := Option.map_eq_some_iff.mp hview
  obtain ⟨hmem, rfl⟩ := World.application_eq.mp happ
  have hworld : w = c₂.world := hst.pre_eq
  subst hworld
  have hclock : c₂.world.now ≤ now := by
    obtain ⟨rfl, -⟩ := Prod.mk.inj (Option.some.inj (h.exec hs₁))
    have hle := now_le hrun₁ hs₂
    rwa [← show w₁ = c₁.world from hst₁.pre_eq] at hle
  have hissued := issued_of_verifies hfree hrun hmem hstored hv
  refine ⟨raw, _, _, _, t₂, hraw, hs, hissued, fun a' h' => Issued.unique hrun h' hissued, a, t, happ,
    hexp, lt_of_le_of_lt hclock hnow, fun hfunded => ?_⟩
  have hnone := ((sound_run (sound_initial config) hrun).1.funded a hmem hfunded).1
  rw [hnone] at hexp
  cases hexp

/-- **Only the token of a live application admits** a caller who is neither an officer nor its owner. -/
theorem admitted (hfree : CollisionFree hmac) (h : Run (start S hmac tasks (.initial config)) tr c)
    {i : ι} {appId : Int} {cl : Caller} (htask : tasks i = .request appId cl)
    (hret : c.procs i = .ret (.authorized (.ok ()))) :
    isOfficer cl.role = true ∨ Owned appId cl (own i tr) ∨ ∃ raw v w w' tr',
      truthy cl.token = some raw ∧ .call i (.selectAuth appId) v w w' :: tr' <:+ tr ∧
      Live hmac tr' w appId raw := by
  have hended := h.returned (φ := fun _ => Stamps hmac) (Q := fun i => Ended hmac (tasks i))
    (fun i => task_stamps i (tasks i)) hret
  rw [htask] at hended
  rcases hended with hofficer | howned | hshown
  · exact .inl hofficer
  · exact .inr (.inl howned)
  · exact .inr (.inr (hshown.live hfree h))

/-! ## Authorizing by itself -/

section Alone

variable {w : World ι} {appId : Int} {cl : Caller} {raw stored : Text} {t : Int}

theorem requireToken_alone {row : AuthView} (hraw : truthy cl.token = some raw)
    (hstored : truthy row.continuationToken = some stored) (hexp : row.expiresAt = some t)
    (hnow : w.now < t) (hv : verifyToken hmac w.config raw stored = true) :
    (requireToken hmac cl.token row : P ι S _).alone w = some (.ok (), w) := by
  have hlive : expired (some t) w.now = false := by simpa [expired] using hnow
  unfold requireToken
  rw [hraw, hstored]
  dsimp only
  rw [hexp]
  refine (Prog.alone_stmt rfl _).trans ?_
  dsimp only [Prog.bind]
  rw [hlive]
  refine (Prog.alone_stmt rfl _).trans ?_
  dsimp only [Prog.bind]
  rw [hv]
  rfl

theorem requireToken_retired (token : Option Text) {row : AuthView} (hexp : row.expiresAt = none) :
    (requireToken hmac token row : P ι S _) = .ret (.error .applicationNotFound) := by
  unfold requireToken
  split
  · rw [hexp]
    rfl
  · rfl

/-- The caller's user is the applicant. -/
def Owner (w : World ι) (appId : Int) (cl : Caller) : Prop :=
  ∃ userId a, asInt cl.userId = some userId ∧ w.application appId = some a ∧
    ownedBy (w.users userId) a.applicantId = true

/-- **A token that is live opens its application** to whoever presents it. -/
theorem requireOfficerOrOwner_alone {a : ApplicationRow} (happ : w.application appId = some a)
    (hraw : truthy cl.token = some raw) (hstored : truthy a.continuationToken = some stored)
    (hexp : a.expiresAt = some t) (hnow : w.now < t)
    (hv : verifyToken hmac w.config raw stored = true) :
    (requireOfficerOrOwner hmac appId cl : P ι S _).alone w = some (.ok (), w) := by
  have hview : w.authView appId = some ⟨a.applicantId, a.continuationToken, a.expiresAt⟩ := by
    unfold World.authView
    rw [happ]
    rfl
  unfold requireOfficerOrOwner
  by_cases hrole : isOfficer cl.role = true
  · rw [if_pos hrole]
    rfl
  · rw [if_neg hrole]
    have htoken : (requireToken hmac cl.token
        ⟨a.applicantId, a.continuationToken, a.expiresAt⟩ : P ι S _).alone w = some (.ok (), w) :=
      requireToken_alone hraw hstored hexp hnow hv
    cases huser : asInt cl.userId with
    | none =>
      dsimp only
      rw [if_neg (by rw [hraw]; exact Option.some_ne_none _)]
      refine (Prog.alone_stmt rfl _).trans ?_
      rw [hview]
      exact htoken
    | some userId =>
      refine (Prog.alone_stmt rfl _).trans ?_
      rw [hview]
      refine (Prog.alone_stmt rfl _).trans ?_
      dsimp only [Prog.bind]
      by_cases howned : ownedBy (w.users userId) a.applicantId = true
      · rw [if_pos howned]
        rfl
      · rw [if_neg howned]
        exact htoken

/-- A token without an expiry opens nothing. -/
theorem requireOfficerOrOwner_retired {a : ApplicationRow} (happ : w.application appId = some a)
    (hrole : isOfficer cl.role = false) (howner : ¬ Owner w appId cl)
    (hraw : truthy cl.token = some raw) (hexp : a.expiresAt = none) :
    (requireOfficerOrOwner hmac appId cl : P ι S _).alone w =
      some (.error .applicationNotFound, w) := by
  have hview : w.authView appId = some ⟨a.applicantId, a.continuationToken, a.expiresAt⟩ := by
    unfold World.authView
    rw [happ]
    rfl
  unfold requireOfficerOrOwner
  rw [hrole]
  rw [if_neg Bool.false_ne_true]
  have htoken : (requireToken hmac cl.token
      ⟨a.applicantId, a.continuationToken, a.expiresAt⟩ : P ι S _) =
        .ret (.error .applicationNotFound) := requireToken_retired cl.token hexp
  cases huser : asInt cl.userId with
  | none =>
    dsimp only
    rw [if_neg (by rw [hraw]; exact Option.some_ne_none _)]
    refine (Prog.alone_stmt rfl _).trans ?_
    rw [hview]
    dsimp only [Prog.bind]
    rw [htoken]
    rfl
  | some userId =>
    refine (Prog.alone_stmt rfl _).trans ?_
    rw [hview]
    refine (Prog.alone_stmt rfl _).trans ?_
    dsimp only [Prog.bind]
    rw [if_neg fun howned => howner ⟨userId, a, huser, happ, howned⟩, htoken]
    rfl

/-- The replay of a funded application's acceptance. -/
theorem terminalAcceptReplay_alone {a : ApplicationRow} {l : LoanRow}
    (happ : w.application appId = some a) (hfunded : a.status = funded)
    (hraw : truthy cl.token = some raw) (hstored : truthy a.continuationToken = some stored)
    (hv : verifyToken hmac w.config raw stored = true) (hloan : w.loanOf appId = some l) :
    (terminalAcceptReplay hmac appId cl.token : P ι S _).alone w = some (some l.id, w) := by
  have hview : w.fundedToken appId = some a.continuationToken := by
    unfold World.fundedToken
    rw [happ]
    simp [Option.filter, hfunded]
  unfold terminalAcceptReplay
  rw [hraw]
  refine (Prog.alone_stmt rfl _).trans ?_
  rw [hview]
  dsimp only [Prog.bind]
  rw [hstored]
  refine (Prog.alone_stmt rfl _).trans ?_
  dsimp only [Prog.bind]
  rw [if_pos hv]
  refine (Prog.alone_stmt rfl _).trans ?_
  rw [hloan]
  rfl

theorem acceptOffer_alone {a : ApplicationRow} {l : LoanRow}
    (happ : w.application appId = some a) (hfunded : a.status = funded) (hexp : a.expiresAt = none)
    (hrole : isOfficer cl.role = false) (howner : ¬ Owner w appId cl)
    (hraw : truthy cl.token = some raw) (hstored : truthy a.continuationToken = some stored)
    (hv : verifyToken hmac w.config raw stored = true) (hloan : w.loanOf appId = some l) :
    (acceptOffer hmac appId cl : P ι S _).alone w = some (.ok l.id, w) := by
  refine (Prog.alone_bind (requireOfficerOrOwner hmac appId cl) _ w).trans ?_
  rw [requireOfficerOrOwner_retired happ hrole howner hraw hexp]
  refine (Prog.alone_bind (terminalAcceptReplay hmac appId cl.token) _ w).trans ?_
  rw [terminalAcceptReplay_alone happ hfunded hraw hstored hv hloan]
  rfl

end Alone

/-! ## A funded application's token, whatever else runs -/

section Retiring

variable {w w' : World ι} {appId : Int} {cl : Caller} {raw stored : Text} {l : LoanRow}
  {log : Log (intake ι S)}

/-- The application is funded, with what is stored of its token, its loan, and the keys that verify. -/
structure Retired (w : World ι) (appId : Int) (stored : Text) (keys : List (Text × Text))
    (l : LoanRow) : Prop where
  free : ∀ a, w.Referenced a → ¬ w.Deleting a
  decided : (w.decisions appId).isSome = true
  row : ∃ a ∈ w.applications.rows, a.id = appId ∧ a.status = funded ∧ a.expiresAt = none ∧
    a.continuationToken = some stored
  loan : l ∈ w.loans.rows ∧ l.appId = some appId
  kept : ∀ key ∈ keys, key ∈ w.config.verifyKeys

variable {keys : List (Text × Text)}

/-- **A retired token stays retired.** -/
theorem Retired.step {x : Answered ι} (hR : Retired w appId stored keys l) (h : Effect w x w') :
    Retired w' appId stored keys l where
  free := h.free hR.free
  decided := h.kept_decision hR.decided
  row := by
    obtain ⟨a, ha, rfl, hfunded, hexp, htoken⟩ := hR.row
    rcases h.kept_application ha (hR.free _ (.inl hR.decided)) with ha' | ha'
    · exact ⟨a, ha', rfl, hfunded, hexp, htoken⟩
    · exact ⟨a.settled, ha', rfl, rfl, rfl, htoken⟩
  loan := ⟨h.kept_loan hR.loan.1, hR.loan.2⟩
  kept key hk := by
    rw [h.same_config.1]
    exact hR.kept key hk

theorem Retired.env (hR : Retired w appId stored keys l) (e : Env ι) :
    Retired (w.env e) appId stored keys l := by
  have hq := env_quiet e w
  refine ⟨?_, ?_, ?_, ?_, fun key hk => hq.config key (hR.kept key hk)⟩
  · rintro a hr ⟨t, ht, ha⟩
    unfold World.Referenced at hr
    rw [hq.decisions, hq.events, hq.offers] at hr
    exact hR.free a hr ⟨t, hq.transactions.subset ht, ha⟩
  · rw [hq.decisions]
    exact hR.decided
  · rw [hq.applications]
    exact hR.row
  · rw [hq.loans]
    exact hR.loan

/-- What a read answers of a retired application. -/
def Answers (hmac : Text → Text → Text) (appId : Int) (raw stored : Text) (l : LoanRow) :
    Answered ι → Prop
  | ⟨.selectAuth a, v⟩ => a = appId → ∃ row, v = some row ∧ row.expiresAt = none
  | ⟨.selectFundedToken a, v⟩ => a = appId → v = some (some stored)
  | ⟨.readConfig, config⟩ => verifyToken hmac config raw stored = true
  | ⟨.selectLoan a, v⟩ => a = appId → v = some l
  | _ => True

theorem Retired.answers (hR : Retired w appId stored keys l)
    (hkeys : ∀ config : Config, (∀ key ∈ keys, key ∈ config.verifyKeys) →
      verifyToken hmac config raw stored = true)
    {s : Stmt ι} {x : s.Res} (hx : w.exec S s = some (x, w')) :
    Answers hmac appId raw stored l ⟨s, x⟩ := by
  obtain ⟨a, ha, hid, hfunded, hexp, htoken⟩ := hR.row
  have happ : w.application appId = some a := World.application_eq.mpr ⟨ha, hid⟩
  cases s with
  | selectAuth b =>
    rintro rfl
    cases hx
    unfold World.authView
    rw [happ]
    exact ⟨_, rfl, hexp⟩
  | selectFundedToken b =>
    rintro rfl
    cases hx
    unfold World.fundedToken
    rw [happ]
    simp [Option.filter, hfunded, htoken]
  | readConfig =>
    cases hx
    exact hkeys _ hR.kept
  | selectLoan b =>
    rintro rfl
    cases hx
    exact World.loanOf_eq.mpr hR.loan
  | _ => trivial

/-- What an acceptance keeps to when its reads are of a retired application, and its caller is no
owner. -/
def Replaying (hmac : Text → Text → Text) (appId : Int) (cl : Caller) (raw stored : Text)
    (l : LoanRow) (log : Log (intake ι S)) : Prop :=
  (∀ y ∈ log, Answers hmac appId raw stored l y) ∧ ¬ Owned appId cl log

theorem Owned.later {log' : Log (intake ι S)} (h : Owned appId cl log) (hs : log <:+ log') :
    Owned appId cl log' := by
  obtain ⟨row, userId, user, hrow, hid, huser, howned⟩ := h
  exact ⟨row, userId, user, hs.subset hrow, hid, hs.subset huser, howned⟩

theorem Replaying.earlier {log' : Log (intake ι S)}
    (h : Replaying hmac appId cl raw stored l log') (hs : log <:+ log') :
    Replaying hmac appId cl raw stored l log :=
  ⟨fun y hy => h.1 y (hs.subset hy), fun howned => h.2 (howned.later hs)⟩

/-- The discipline: only reads. -/
def ReadsOnly (hmac : Text → Text → Text) (appId : Int) (cl : Caller) (raw stored : Text)
    (l : LoanRow) (log : Log (intake ι S)) (s : Stmt ι) : Prop :=
  Replaying hmac appId cl raw stored l log → s.reads = true

/-- The answer: the loan. -/
def AnswersLoan (hmac : Text → Text → Text) (appId : Int) (cl : Caller) (raw stored : Text)
    (l : LoanRow) (log : Log (intake ι S)) (r : Except Refused Int) : Prop :=
  Replaying hmac appId cl raw stored l log → r = .ok l.id

theorem readsOnly_readable :
    Readable (ReadsOnly hmac appId cl raw stored l : Log (intake ι S) → Stmt ι → Prop) :=
  fun _ _ h _ => h

theorem terminalAcceptReplay_retired (hraw : truthy cl.token = some raw) (hstored : stored ≠ []) :
    (terminalAcceptReplay hmac appId cl.token).Obeys (ReadsOnly hmac appId cl raw stored l)
      (fun log loan => Replaying hmac appId cl raw stored l log → loan = some l.id) log := by
  have hsome : truthy (some stored) = some stored := by simp [truthy, hstored]
  unfold terminalAcceptReplay
  rw [hraw]
  refine ⟨fun _ => rfl, fun token => ?_⟩
  cases token with
  | none =>
    intro hr
    cases hr.1 _ List.mem_cons_self rfl
  | some token =>
    dsimp only [Prog.bind]
    have htoken : ∀ {log' : Log (intake ι S)}, Replaying hmac appId cl raw stored l log' →
        (⟨.selectFundedToken appId, some token⟩ : Answered ι) ∈ log' → token = some stored := by
      intro log' hr hmem
      exact Option.some.inj (hr.1 _ hmem rfl)
    cases htruthy : truthy token with
    | none =>
      intro hr
      rw [htoken hr List.mem_cons_self, hsome] at htruthy
      cases htruthy
    | some read =>
      refine ⟨fun _ => rfl, fun config => ?_⟩
      dsimp only [Prog.bind]
      by_cases hv : verifyToken hmac config raw read = true
      · rw [if_pos hv]
        refine ⟨fun _ => rfl, fun loan hr => ?_⟩
        rw [hr.1 _ List.mem_cons_self rfl]
        rfl
      · rw [if_neg hv]
        intro hr
        rw [htoken hr (by simp), hsome] at htruthy
        cases htruthy
        exact absurd (hr.1 _ List.mem_cons_self) hv

/-- **`accept_offer`** after funding. -/
theorem acceptOffer_retired (hraw : truthy cl.token = some raw) (hstored : stored ≠ [])
    (hrole : isOfficer cl.role = false) :
    (acceptOffer hmac appId cl).Obeys (ReadsOnly hmac appId cl raw stored l)
      (AnswersLoan hmac appId cl raw stored l) ([] : Log (intake ι S)) := by
  refine (obeys_bind (requireOfficerOrOwner hmac appId cl) _).mpr ?_
  refine (requireOfficerOrOwner_obeys readsOnly_readable appId cl).mono (fun _ _ h => h)
    fun log x hx => ?_
  cases x with
  | ok u =>
    have hnot : ∀ log', log <:+ log' → ¬ Replaying hmac appId cl raw stored l log' := by
      intro log' hs hr
      rcases hx with hofficer | howned | ⟨_, row, _, t, _, _, rest, -, -, hexp, -, -, rfl, hread⟩
      · rw [hrole] at hofficer
        cases hofficer
      · exact (hr.earlier hs).2 howned
      · have hmem : (⟨.selectAuth appId, some row⟩ : Answered ι) ∈ log' :=
          hs.subset (by simp [hread])
        obtain ⟨row', hrow, hnone⟩ := hr.1 _ hmem rfl
        cases hrow
        rw [hexp] at hnone
        cases hnone
    exact obeys_of_forall (fun log' _ hs hr => absurd hr (hnot log' hs))
      (fun log' _ hs hr => absurd hr (hnot log' hs)) _
  | error refused =>
    refine (obeys_bind (terminalAcceptReplay hmac appId cl.token) _).mpr ?_
    refine (terminalAcceptReplay_retired hraw hstored).mono (fun _ _ h => h) fun log' loan h => ?_
    cases loan with
    | none =>
      intro hr
      cases h hr
    | some id =>
      intro hr
      cases h hr
      rfl

theorem exec_reads {s : Stmt ι} {x : s.Res} (hs : s.reads = true)
    (hx : w.exec S s = some (x, w')) : w' = w := by
  cases s with
  | readConfig | now | selectAuth | selectUser | selectFundedToken | selectKyc | selectBoarding
    | selectLoan | selectOfferOf | probe =>
    cases hx
    rfl
  | _ => cases hs

/-- The steps of a call that wrote nothing. -/
def WroteNothing (i : ι) (tr : List (Entry (intake ι S) ι)) : Prop :=
  ∀ s r w w', .call i s r w w' ∈ tr → w' = w

/-- **A retired token replays**, whatever else runs. -/
theorem Retired.replays {c₂ : Interleave.Config (intake ι S) ι Answer}
    (hR : Retired c.world appId stored keys l)
    (hkeys : ∀ config : Config, (∀ key ∈ keys, key ∈ config.verifyKeys) →
      verifyToken hmac config raw stored = true)
    (hraw : truthy cl.token = some raw) (hstored : stored ≠ [])
    (hrole : isOfficer cl.role = false) {i : ι}
    (hi : c.procs i = (Task.accept appId cl).prog hmac i) (h : Run c tr c₂)
    (howned : ¬ Owned appId cl (own i tr)) : WroteNothing i tr ∧
      ∀ r, c₂.procs i = .ret (.accepted r) → r = .ok l.id := by
  have hobeys : ∀ j, (c.procs j).Obeys
      (fun log s => j = i → ReadsOnly hmac appId cl raw stored l log s)
      (fun log answer => j = i → Replaying hmac appId cl raw stored l log →
        answer = .accepted (.ok l.id)) [] := by
    intro j
    by_cases hj : j = i
    · subst hj
      rw [hi]
      refine (obeys_bind (acceptOffer hmac appId cl) _).mpr ?_
      refine (acceptOffer_retired hraw hstored hrole).mono (fun _ _ h _ => h) fun log r h _ hr => ?_
      rw [h hr]
    · exact obeys_of_forall (fun _ _ _ h => absurd h hj) (fun _ _ _ h => absurd h hj) _
  have hrun : Retired c₂.world appId stored keys l ∧
      (∀ y ∈ own i tr, Answers hmac appId raw stored l y) ∧
      (¬ Owned appId cl (own i tr) → WroteNothing i tr) := by
    refine Run.invariant (C := fun _ _ => True)
      (I := fun tr (w : World ι) => Retired w appId stored keys l ∧
        (∀ y ∈ own i tr, Answers hmac appId raw stored l y) ∧
        (¬ Owned appId cl (own i tr) → WroteNothing i tr)) hobeys ?_ ?_ ?_ h (along_true tr)
    · refine ⟨hR, fun y hy => ?_, fun _ s r w w' hmem => ?_⟩
      · cases hy
      · cases hmem
    · rintro tr c j s x w - ⟨hR, hanswers, hwrote⟩ hs hx -
      refine ⟨hR.step (exec_effect hx), ?_, ?_⟩
      · intro y hy
        rw [own_call] at hy
        split at hy
        · rcases List.mem_cons.mp hy with rfl | hy
          · exact hR.answers hkeys hx
          · exact hanswers y hy
        · exact hanswers y hy
      · intro hnot s' r' v v' hmem
        have hnot' : ¬ Owned appId cl (own i tr) := fun h =>
          hnot (h.later (own_suffix i (List.suffix_cons ..)))
        rcases List.mem_cons.mp hmem with heq | hmem
        · cases heq
          exact exec_reads (hs rfl ⟨hanswers, hnot'⟩) hx
        · exact hwrote hnot' s' r' v v' hmem
    · rintro tr c e - ⟨hR, hanswers, hwrote⟩ -
      refine ⟨hR.env e, hanswers, fun hnot s r v v' hmem => ?_⟩
      rcases List.mem_cons.mp hmem with heq | hmem
      · cases heq
      · exact hwrote hnot s r v v' hmem
  refine ⟨hrun.2.2 howned, fun r hret => ?_⟩
  have hanswer := h.returned hobeys hret rfl ⟨hrun.2.1, howned⟩
  cases hanswer
  rfl

end Retiring

/-- What is stored of a funded application. -/
theorem retired_of_funded (h : Run (start S hmac tasks (.initial config)) tr c) {a : ApplicationRow}
    {raw : Text} (ha : a ∈ c.world.applications.rows) (hfunded : a.status = funded)
    (hissued : Issued hmac tr a.id raw) : ∃ stored keys l, stored ≠ [] ∧
      Retired c.world a.id stored keys l ∧ ∀ config : Config,
        (∀ key ∈ keys, key ∈ config.verifyKeys) → verifyToken hmac config raw stored = true := by
  obtain ⟨raw', cfg, token, i, hissued', hread, hdraw, hhash, htoken⟩ := (origin_run h a ha).issued
  obtain rfl := hissued.token_unique h hissued'
  have hS := (sound_run (sound_initial config) h).1
  obtain ⟨hexp, hdec, loanId, ⟨l, hl, -, happ⟩, -⟩ := hS.funded a ha hfunded
  refine ⟨token, cfg.verifyKeys, l, hashToken_ne_nil hhash, ?_, fun config hkeys =>
    verifyToken_hashToken hhash (drawn_ne_nil h hdraw) hkeys⟩
  exact ⟨hS.free, hdec, ⟨a, ha, rfl, hfunded, hexp, htoken⟩, ⟨hl, happ⟩, config_kept h hread⟩

/-- **A continuation token is one application's capability, and dies with funding.** A caller who is
neither an officer nor the owner is admitted by the token that was issued for the application and
for no other, read while its expiry was ahead and the application not funded. An issued token
verifies in every state, and while its expiry is ahead it opens its application. Once the
application is funded, the token makes `accept_offer` return the application's loan and write
nothing: by itself, and in every run from there on. -/
theorem token_capability (S : Supply) {hmac : Text → Text → Text} (hfree : CollisionFree hmac)
    (tasks : ι → Task) (config : Config) {tr : List (Entry (intake ι S) ι)}
    {c : Interleave.Config (intake ι S) ι Answer}
    (h : Run (start S hmac tasks (.initial config)) tr c) (appId : Int) :
    (∀ i cl, tasks i = .request appId cl → c.procs i = .ret (.authorized (.ok ())) →
      isOfficer cl.role = true ∨ Owned appId cl (own i tr) ∨ ∃ raw v w w' tr',
        truthy cl.token = some raw ∧ .call i (.selectAuth appId) v w w' :: tr' <:+ tr ∧
        Live hmac tr' w appId raw) ∧
    ∀ raw a, Issued hmac tr appId raw → c.world.application appId = some a →
      (∃ stored, truthy a.continuationToken = some stored ∧
        verifyToken hmac c.world.config raw stored = true) ∧
      (∀ t cl, a.expiresAt = some t → c.world.now < t → truthy cl.token = some raw →
        (requireOfficerOrOwner hmac appId cl : P ι S _).alone c.world = some (.ok (), c.world)) ∧
      (a.status = funded → ∃ l, c.world.loanOf appId = some l ∧
        ∀ cl, truthy cl.token = some raw → isOfficer cl.role = false →
          (¬ Owner c.world appId cl →
            (acceptOffer hmac appId cl : P ι S _).alone c.world = some (.ok l.id, c.world)) ∧
          ∀ i tr₂ c₂, tasks i = .accept appId cl → own i tr = [] → Run c tr₂ c₂ →
            ¬ Owned appId cl (own i tr₂) →
            WroteNothing i tr₂ ∧ ∀ r, c₂.procs i = .ret (.accepted r) → r = .ok l.id) := by
  refine ⟨fun i cl htask hret => admitted hfree h htask hret, fun raw a hissued happ => ?_⟩
  obtain ⟨hmem, rfl⟩ := World.application_eq.mp happ
  obtain ⟨stored, hstored, hv⟩ := issued_verifies h hmem hissued
  refine ⟨⟨stored, hstored, hv⟩, fun t cl hexp hnow hraw => ?_, fun hfunded => ?_⟩
  · exact requireOfficerOrOwner_alone happ hraw hstored hexp hnow hv
  · obtain ⟨kept, keys, l, hne, hR, hkeys⟩ := retired_of_funded h hmem hfunded hissued
    have hloan := World.loanOf_eq.mpr hR.loan
    have hexp := ((sound_run (sound_initial config) h).1.funded a hmem hfunded).1
    refine ⟨l, hloan, fun cl hraw hrole => ⟨fun howner => ?_, fun i tr₂ c₂ htask hown h₂ hnot => ?_⟩⟩
    · exact acceptOffer_alone happ hfunded hexp hrole howner hraw hstored hv hloan
    · refine hR.replays hkeys hraw hne hrole ?_ h₂ hnot
      rw [h.untouched hown]
      unfold start
      dsimp only
      rw [htask]

/-- Someone who holds the token. -/
def holder : Caller := ⟨none, none, some "A".toList⟩

/-- An application is submitted and shown to who holds its token. -/
def submitAndRequest : Call → Task
  | .first => .submit sampleApplication
  | _ => .request 1 holder

/-- The keys rotate before the request. -/
def rotatedBefore : List (Pick (intake Call sampleSupply) Call) :=
  List.replicate 4 (.call .first) ++
    [.env (.rotate { sampleConfig with tokenKeys := "v2:salt,v1:pepper".toList })] ++
    List.replicate 3 (.call .second)

/-- The request was admitted. -/
def authorizedOk (p : P ι S Answer) : Bool :=
  match p with
  | .ret (.authorized (.ok ())) => true
  | _ => false

theorem eq_ret_of_authorizedOk {p : P ι S Answer} (h : authorizedOk p = true) :
    p = .ret (.authorized (.ok ())) := by
  unfold authorizedOk at h
  split at h
  · rfl
  · cases h

theorem token_capability_sample : ∃ tr c,
    Run (start sampleSupply sampleHmac submitAndRequest (.initial sampleConfig)) tr c ∧
    ∃ v w w' tr', .call .second (.selectAuth 1) v w w' :: tr' <:+ tr ∧
      Live sampleHmac tr' w 1 "A".toList := by
  obtain ⟨tr, c, hrun, hret⟩ := exists_run rotatedBefore
    (start sampleSupply sampleHmac submitAndRequest (.initial sampleConfig))
    (fun x => authorizedOk (x.2.procs .second) = true) (by decide +kernel)
  have hcapability := token_capability sampleSupply sampleHmac_collisionFree submitAndRequest
    sampleConfig hrun 1
  rcases hcapability.1 .second holder rfl (eq_ret_of_authorizedOk hret) with
    hofficer | ⟨row, userId, user, -, hid, -⟩ | ⟨raw, v, w, w', tr', hraw, hs, hlive⟩
  · cases hofficer
  · cases hid
  · obtain rfl : raw = "A".toList := (Option.filter_eq_some_iff.mp hraw).1 |> Option.some.inj |> Eq.symm
    exact ⟨tr, c, hrun, v, w, w', tr', hs, hlive⟩

end Meridian.Intake
