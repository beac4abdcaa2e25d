import Meridian.Intake.Effects

/-!
# What each call keeps to

The discipline of each program against its own log, whatever the other calls do in between. A
statement is `guarded` when some result rests on what was read before it: the inserts of an
application, a loan and a balance, `fund`, and the statements of a transaction.

* `createApplication_obeys`: an application is inserted with the digest of the token that was drawn.
* `requireOfficerOrOwner_obeys`: what an admission rests on.
* `acceptOffer_obeys`: a loan is boarded, and an application funded, after an approving read; the
  answer is the loan whose balance was written, or the one read after a funded row.
* `abandonApplication_obeys`: where each statement of the transaction stands.
-/

namespace Meridian.Intake

open Python Interleave
open Origination (Outcome kycPassed boardingGuards)

variable {ι : Type} [DecidableEq ι] {S : Supply} {hmac : Text → Text → Text}
  {φ : Log (intake ι S) → Stmt ι → Prop}

/-- A statement some discipline says something of. -/
def Stmt.guarded : Stmt ι → Bool
  | insertApplication .. | insertLoan .. | insertBalance _ _ | fund _ | connect _
  | deleteApplication _ _ | otherApplication _ _ | deleteKyc _ _ | deleteApplicant _ _ | commit _
  | rollback _ => true
  | _ => false

/-- A discipline that leaves the other statements free. -/
def Free (φ : Log (intake ι S) → Stmt ι → Prop) : Prop := ∀ l s, s.guarded = false → φ l s

/-- A statement that reads the world and leaves it as it is. -/
def Stmt.reads : Stmt ι → Bool
  | readConfig | now | selectAuth _ | selectUser _ | selectFundedToken _ | selectKyc _
  | selectBoarding _ | selectLoan _ | selectOfferOf _ | probe _ => true
  | _ => false

/-- A discipline that leaves the reads free. -/
def Readable (φ : Log (intake ι S) → Stmt ι → Prop) : Prop := ∀ l s, s.reads = true → φ l s

theorem Free.readable (h : Free φ) : Readable φ := by
  intro l s hs
  refine h l s ?_
  cases s <;> first | rfl | cases hs

/-! ## Submitting -/

/-- The log of a submission before its insert. -/
def drawn (raw : Text) (config : Config) (now : Int) : Log (intake ι S) :=
  [⟨.now, now⟩, ⟨.readConfig, config⟩, ⟨.drawToken, raw⟩]

/-- What is stored is the digest of the token that was drawn, and its expiry. -/
def Stamped (hmac : Text → Text → Text) (l : Log (intake ι S)) (token : Text) (expiresAt : Int) :
    Prop :=
  ∃ raw config now, l = drawn raw config now ∧ hashToken hmac config raw = some token ∧
    expiresAt = now + days config.ttlDays

/-- The log of a submission: application `appId` was inserted with the digest of `raw`. -/
def SubmissionOf (hmac : Text → Text → Text) (l : Log (intake ι S)) (appId : Int) (raw : Text) :
    Prop :=
  ∃ config now name amount termMonths token expiresAt, hashToken hmac config raw = some token ∧
    l = ⟨.insertApplication name amount termMonths token expiresAt, appId⟩ :: drawn raw config now

/-- What the answer of a submission rests on. -/
def Submission (hmac : Text → Text → Text) (l : Log (intake ι S)) :
    Except Refused (Int × Text) → Prop
  | .ok (appId, raw) => SubmissionOf hmac l appId raw
  | .error _ => True

/-- **`create_application`** -/
theorem createApplication_obeys (hfree : Free φ)
    (hins : ∀ l name amount termMonths token expiresAt, Stamped hmac l token expiresAt →
      φ l (.insertApplication name amount termMonths token expiresAt)) (b : ApplicationIn) :
    (createApplication hmac b).Obeys φ (Submission hmac) ([] : Log (intake ι S)) := by
  refine ⟨hfree _ _ rfl, fun raw => ⟨hfree _ _ rfl, fun config => ?_⟩⟩
  dsimp only [Prog.bind]
  cases hhash : hashToken hmac config raw with
  | none => trivial
  | some token =>
    refine ⟨hfree _ _ rfl, fun now => ⟨hins _ _ _ _ _ _ ⟨raw, config, now, rfl, hhash, rfl⟩, ?_⟩⟩
    exact fun id => ⟨config, now, _, _, _, token, _, hhash, rfl⟩

/-! ## Authorizing -/

section Authorizing

variable {appId : Int} {c : Caller}

/-- The caller's user is the applicant. -/
def Owned (appId : Int) (c : Caller) (l : Log (intake ι S)) : Prop :=
  ∃ row userId user, ⟨.selectAuth appId, some row⟩ ∈ l ∧ asInt c.userId = some userId ∧
    ⟨.selectUser userId, user⟩ ∈ l ∧ ownedBy user row.applicantId = true

/-- The token was verified against a row that was read, before the clock, unexpired. -/
def Shown (hmac : Text → Text → Text) (appId : Int) (c : Caller) (l : Log (intake ι S)) : Prop :=
  ∃ raw row stored t now config l', truthy c.token = some raw ∧
    truthy row.continuationToken = some stored ∧ row.expiresAt = some t ∧ now < t ∧
    verifyToken hmac config raw stored = true ∧ l = ⟨.readConfig, config⟩ :: ⟨.now, now⟩ :: l' ∧
    ⟨.selectAuth appId, some row⟩ ∈ l'

/-- What the answer of `require_officer_or_owner` rests on. -/
def Admission (hmac : Text → Text → Text) (appId : Int) (c : Caller) (l : Log (intake ι S)) :
    Except Refused Unit → Prop
  | .ok () => isOfficer c.role = true ∨ Owned appId c l ∨ Shown hmac appId c l
  | .error e => isOfficer c.role = false ∧ e = .applicationNotFound

theorem requireToken_obeys (hread : Readable φ) {l : Log (intake ι S)} {row : AuthView}
    (hrole : isOfficer c.role = false) (hrow : ⟨.selectAuth appId, some row⟩ ∈ l) :
    (requireToken hmac c.token row).Obeys φ (Admission hmac appId c) l := by
  unfold requireToken
  cases hraw : truthy c.token with
  | none => exact ⟨hrole, rfl⟩
  | some raw =>
    cases hstored : truthy row.continuationToken with
    | none => exact ⟨hrole, rfl⟩
    | some stored =>
      cases hexp : row.expiresAt with
      | none => exact ⟨hrole, rfl⟩
      | some t =>
        refine ⟨hread _ _ rfl, fun now => ?_⟩
        dsimp only [Prog.bind]
        by_cases hnow : expired (some t) now = true
        · rw [if_pos hnow]
          exact ⟨hrole, rfl⟩
        · rw [if_neg hnow]
          refine ⟨hread _ _ rfl, fun config => ?_⟩
          dsimp only [Prog.bind]
          by_cases hv : verifyToken hmac config raw stored = true
          · rw [if_pos hv]
            have hlt : now < t := by simpa [expired] using hnow
            exact .inr (.inr ⟨raw, row, stored, t, now, config, l, hraw, hstored, hexp, hlt, hv, rfl,
              hrow⟩)
          · rw [if_neg hv]
            exact ⟨hrole, rfl⟩

/-- **`require_officer_or_owner`** -/
theorem requireOfficerOrOwner_obeys (hread : Readable φ) (appId : Int) (c : Caller) :
    (requireOfficerOrOwner hmac appId c).Obeys φ (Admission hmac appId c)
      ([] : Log (intake ι S)) := by
  unfold requireOfficerOrOwner
  by_cases hrole : isOfficer c.role = true
  · rw [if_pos hrole]
    exact .inl hrole
  · have hfalse : isOfficer c.role = false := by simpa using hrole
    rw [if_neg hrole]
    cases huser : asInt c.userId with
    | none =>
      dsimp only
      by_cases htoken : truthy c.token = none
      · rw [if_pos htoken]
        exact ⟨hfalse, rfl⟩
      · rw [if_neg htoken]
        refine ⟨hread _ _ rfl, fun row => ?_⟩
        cases row with
        | none => exact ⟨hfalse, rfl⟩
        | some row => exact requireToken_obeys hread hfalse (List.mem_singleton_self _)
    | some userId =>
      refine ⟨hread _ _ rfl, fun row => ?_⟩
      cases row with
      | none => exact ⟨hfalse, rfl⟩
      | some row =>
        refine ⟨hread _ _ rfl, fun user => ?_⟩
        dsimp only [Prog.bind]
        have hrow : (⟨.selectAuth appId, some row⟩ : Answered ι) ∈
            ([⟨.selectUser userId, user⟩, ⟨.selectAuth appId, some row⟩] : Log (intake ι S)) := by
          simp
        by_cases howned : ownedBy user row.applicantId = true
        · rw [if_pos howned]
          exact .inr (.inl ⟨row, userId, user, hrow, huser, by simp, howned⟩)
        · rw [if_neg howned]
          exact requireToken_obeys hread hfalse hrow

end Authorizing

/-! ## Accepting -/

section Accepting

variable {appId loanId : Int} {c : Caller} {l : Log (intake ι S)}

/-- The boarding query answered an approval. -/
def Approved (appId : Int) (l : Log (intake ι S)) : Prop :=
  ∃ v, ⟨.selectBoarding appId, some v⟩ ∈ l ∧ v.chain.outcome = some .approve

/-- The loan was read or inserted. -/
def Found (appId loanId : Int) (l : Log (intake ι S)) : Prop :=
  (∃ row, ⟨.selectLoan appId, some row⟩ ∈ l ∧ row.id = loanId) ∨
    ∃ name principal apr noteRate termMonths,
      ⟨.insertLoan appId name principal apr noteRate termMonths, .ok loanId⟩ ∈ l

/-- The loan was read or inserted, with its principal. -/
def Owes (loanId : Int) (principal : Double) (l : Log (intake ι S)) : Prop :=
  (∃ appId row, ⟨.selectLoan appId, some row⟩ ∈ l ∧ row.id = loanId ∧ row.principal = principal) ∨
    ∃ appId name apr noteRate termMonths,
      ⟨.insertLoan appId name principal apr noteRate termMonths, .ok loanId⟩ ∈ l

/-- The loan's balance was written. -/
def Balanced (loanId : Int) (l : Log (intake ι S)) : Prop :=
  ∃ principal, ⟨.insertBalance loanId principal, .ok ()⟩ ∈ l

/-- The application may be funded. -/
structure Settling (appId loanId : Int) (l : Log (intake ι S)) : Prop where
  approved : Approved appId l
  found : Found appId loanId l
  balanced : Balanced loanId l

/-- A funded row was read, with a token that verifies, and then the loan. -/
def Replayed (hmac : Text → Text → Text) (appId loanId : Int) (c : Caller)
    (l : Log (intake ι S)) : Prop :=
  ∃ raw token stored config row, truthy c.token = some raw ∧
    ⟨.selectFundedToken appId, some token⟩ ∈ l ∧ truthy token = some stored ∧
    verifyToken hmac config raw stored = true ∧ ⟨.selectLoan appId, some row⟩ ∈ l ∧ row.id = loanId

/-- What the answer of `accept_offer` rests on. -/
def Acceptance (hmac : Text → Text → Text) (appId : Int) (c : Caller) (l : Log (intake ι S)) :
    Except Refused Int → Prop
  | .ok loanId => (Settling appId loanId l ∧ ⟨.fund appId, ()⟩ ∈ l) ∨ Replayed hmac appId loanId c l
  | .error _ => True

theorem Approved.cons (h : Approved appId l) (x : Answered ι) : Approved appId (x :: l) := by
  obtain ⟨v, hv, hout⟩ := h
  exact ⟨v, List.mem_cons_of_mem _ hv, hout⟩

theorem Found.cons (h : Found appId loanId l) (x : Answered ι) : Found appId loanId (x :: l) := by
  rcases h with ⟨row, hrow, hid⟩ | ⟨n, p, a, r, t, hins⟩
  · exact .inl ⟨row, List.mem_cons_of_mem _ hrow, hid⟩
  · exact .inr ⟨n, p, a, r, t, List.mem_cons_of_mem _ hins⟩

theorem Settling.cons (h : Settling appId loanId l) (x : Answered ι) :
    Settling appId loanId (x :: l) := by
  obtain ⟨p, hp⟩ := h.balanced
  exact ⟨h.approved.cons x, h.found.cons x, p, List.mem_cons_of_mem _ hp⟩

theorem terminalAcceptReplay_obeys (hread : Readable φ) {Q : Log (intake ι S) → Option Int → Prop}
    (hnone : ∀ l, Q l none) (hsome : ∀ l loanId, Replayed hmac appId loanId c l → Q l (some loanId)) :
    (terminalAcceptReplay hmac appId c.token).Obeys φ Q l := by
  unfold terminalAcceptReplay
  cases hraw : truthy c.token with
  | none => exact hnone _
  | some raw =>
    refine ⟨hread _ _ rfl, fun token => ?_⟩
    cases token with
    | none => exact hnone _
    | some token =>
      dsimp only [Prog.bind]
      cases hstored : truthy token with
      | none => exact hnone _
      | some stored =>
        refine ⟨hread _ _ rfl, fun config => ?_⟩
        dsimp only [Prog.bind]
        by_cases hv : verifyToken hmac config raw stored = true
        · rw [if_pos hv]
          refine ⟨hread _ _ rfl, fun loan => ?_⟩
          cases loan with
          | none => exact hnone _
          | some row =>
            exact hsome _ _ ⟨raw, token, stored, config, row, hraw, by simp, hstored, hv, by simp, rfl⟩
        · rw [if_neg hv]
          exact hnone _

theorem reconcile_obeys (hbalance : ∀ l loanId p, Owes loanId p l → φ l (.insertBalance loanId p))
    (hfund : ∀ l loanId, Settling appId loanId l → φ l (.fund appId)) (happ : Approved appId l)
    (hfound : Found appId loanId l) {principal : Double} (howes : Owes loanId principal l) :
    (reconcile appId loanId principal).Obeys φ (Acceptance hmac appId c) l := by
  refine ⟨hbalance _ _ _ howes, fun x => ?_⟩
  cases x with
  | error e => trivial
  | ok u =>
    have hsettling : Settling appId loanId
        (⟨.insertBalance loanId principal, .ok u⟩ :: l : Log (intake ι S)) :=
      ⟨happ.cons _, hfound.cons _, principal, List.mem_cons_self⟩
    exact ⟨hfund _ _ hsettling, fun _ => .inl ⟨hsettling.cons _, List.mem_cons_self⟩⟩

theorem boardOffer_obeys (hfree : Free φ)
    (hbalance : ∀ l loanId p, Owes loanId p l → φ l (.insertBalance loanId p))
    (hloan : ∀ l name p a r t, Approved appId l → φ l (.insertLoan appId name p a r t))
    (hfund : ∀ l loanId, Settling appId loanId l → φ l (.fund appId)) (happ : Approved appId l)
    (v : BoardingView) (apr : Double) :
    (boardOffer appId v apr).Obeys φ (Acceptance hmac appId c) l := by
  unfold boardOffer
  cases boardingGuards v.chain apr with
  | error refused => trivial
  | ok noteRate =>
    refine ⟨hloan _ _ _ _ _ _ happ, fun x => ?_⟩
    cases x with
    | error e =>
      cases e with
      | uniqueViolation =>
        refine ⟨hfree _ _ rfl, fun won => ?_⟩
        cases won with
        | none => trivial
        | some won =>
          exact reconcile_obeys hbalance hfund ((happ.cons _).cons _)
            (.inl ⟨won, List.mem_cons_self, rfl⟩) (.inl ⟨_, won, List.mem_cons_self, rfl, rfl⟩)
      | foreignKeyViolation => trivial
      | connectionLost => trivial
    | ok loanId =>
      refine ⟨hbalance _ _ _ (.inr ⟨_, _, _, _, _, List.mem_cons_self⟩), fun y => ?_⟩
      cases y with
      | error e =>
        cases e with
        | uniqueViolation =>
          refine ⟨hfree _ _ rfl, fun won => ?_⟩
          cases won with
          | none => trivial
          | some won =>
            exact reconcile_obeys hbalance hfund (((happ.cons _).cons _).cons _)
              (.inl ⟨won, List.mem_cons_self, rfl⟩) (.inl ⟨_, won, List.mem_cons_self, rfl, rfl⟩)
        | foreignKeyViolation => trivial
        | connectionLost => trivial
      | ok u =>
        refine reconcile_obeys hbalance hfund ((happ.cons _).cons _) (.inr ?_) (.inr ?_) <;>
          exact ⟨_, _, _, _, _, List.mem_cons_of_mem _ List.mem_cons_self⟩

theorem acceptAuthorized_obeys (hfree : Free φ)
    (hbalance : ∀ l loanId p, Owes loanId p l → φ l (.insertBalance loanId p))
    (hloan : ∀ l name p a r t, Approved appId l → φ l (.insertLoan appId name p a r t))
    (hfund : ∀ l loanId, Settling appId loanId l → φ l (.fund appId)) :
    (acceptAuthorized appId).Obeys φ (Acceptance hmac appId c) l := by
  refine ⟨hfree _ _ rfl, fun view => ?_⟩
  dsimp only [Prog.bind]
  by_cases hkyc : kycPassed view = false
  · rw [if_pos hkyc]
    trivial
  · rw [if_neg hkyc]
    refine ⟨hfree _ _ rfl, fun v => ?_⟩
    cases v with
    | none => trivial
    | some v =>
      dsimp only [Prog.bind]
      by_cases hout : v.chain.outcome = some .approve
      · rw [if_neg (not_not.mpr hout)]
        cases v.chain.apr with
        | none => trivial
        | some apr =>
          refine ⟨hfree _ _ rfl, fun existing => ?_⟩
          have happ (x : Answered ι) : Approved appId
              (x :: ⟨.selectBoarding appId, some v⟩ :: ⟨.selectKyc appId, view⟩ :: l :
                Log (intake ι S)) := ⟨v, by simp, hout⟩
          cases existing with
          | some existing =>
            exact reconcile_obeys hbalance hfund (happ _) (.inl ⟨existing, List.mem_cons_self, rfl⟩)
              (.inl ⟨_, existing, List.mem_cons_self, rfl, rfl⟩)
          | none => exact boardOffer_obeys hfree hbalance hloan hfund (happ _) v apr
      · rw [if_pos hout]
        trivial

/-- **`accept_offer`** -/
theorem acceptOffer_obeys (hfree : Free φ)
    (hbalance : ∀ l loanId p, Owes loanId p l → φ l (.insertBalance loanId p))
    (hloan : ∀ l name p a r t, Approved appId l → φ l (.insertLoan appId name p a r t))
    (hfund : ∀ l loanId, Settling appId loanId l → φ l (.fund appId)) (c : Caller) :
    (acceptOffer hmac appId c).Obeys φ (Acceptance hmac appId c) ([] : Log (intake ι S)) := by
  refine (obeys_bind (requireOfficerOrOwner hmac appId c) _).mpr ?_
  refine (requireOfficerOrOwner_obeys hfree.readable appId c).mono (fun _ _ h => h) fun l x _ => ?_
  cases x with
  | ok u => exact acceptAuthorized_obeys hfree hbalance hloan hfund
  | error refused =>
    refine (obeys_bind (terminalAcceptReplay hmac appId c.token) _).mpr ?_
    exact terminalAcceptReplay_obeys hfree.readable (fun _ => trivial) fun _ _ h => .inr h

end Accepting

/-! ## Abandoning -/

section Abandoning

variable {i : ι} {appId p : Int} {r : Inertness} {l : Log (intake ι S)}

/-- The probe counted nothing. -/
def Inertness.Inert (r : Inertness) : Prop := r.decisions = 0 ∧ r.offers = 0 ∧ r.loans = 0

/-- The logs of `abandon_application` before each statement of its transaction. -/
def probed (appId : Int) (r : Inertness) : Log (intake ι S) := [⟨.probe appId, some r⟩]

def connected (i : ι) (appId : Int) (r : Inertness) : Log (intake ι S) :=
  ⟨.connect i, ()⟩ :: probed appId r

def deleted (i : ι) (appId : Int) (r : Inertness) : Log (intake ι S) :=
  ⟨.deleteApplication i appId, .ok ()⟩ :: connected i appId r

def looked (i : ι) (appId : Int) (r : Inertness) (p : Int) (other : Bool) : Log (intake ι S) :=
  ⟨.otherApplication i p, .ok other⟩ :: deleted i appId r

def cleared (i : ι) (appId : Int) (r : Inertness) (p : Int) : Log (intake ι S) :=
  ⟨.deleteKyc i p, .ok ()⟩ :: looked i appId r p false

def removed (i : ι) (appId : Int) (r : Inertness) (p : Int) : Log (intake ι S) :=
  ⟨.deleteApplicant i p, .ok ()⟩ :: cleared i appId r p

/-- The log of a transaction that deleted what it is there to delete. -/
def Whole (i : ι) (appId : Int) (r : Inertness) (l : Log (intake ι S)) : Prop :=
  match r.applicantId with
  | none => l = deleted i appId r
  | some p => l = looked i appId r p true ∨ l = removed i appId r p

/-- Where the statements of the transaction stand. -/
def Shape (i : ι) (appId : Int) (l : Log (intake ι S)) : Stmt ι → Prop
  | .connect j => j = i ∧ ∃ r, r.Inert ∧ l = probed appId r
  | .deleteApplication j a => j = i ∧ a = appId ∧ ∃ r, r.Inert ∧ l = connected i appId r
  | .otherApplication j p =>
    j = i ∧ ∃ r, r.Inert ∧ r.applicantId = some p ∧ l = deleted i appId r
  | .deleteKyc j p => j = i ∧ ∃ r, r.Inert ∧ r.applicantId = some p ∧ l = looked i appId r p false
  | .deleteApplicant j p => j = i ∧ ∃ r, r.Inert ∧ r.applicantId = some p ∧ l = cleared i appId r p
  | .commit j => j = i ∧ ∃ r, r.Inert ∧ Whole i appId r l
  | .rollback j => j = i
  | s => s.guarded = false

theorem shape_free : Free (Shape (S := S) i appId) := by
  intro l s hs
  cases s with
  | connect | deleteApplication | otherApplication | deleteKyc | deleteApplicant | commit
    | rollback => cases hs
  | _ => exact hs

theorem giveUp_obeys (hroll : ∀ l, φ l (.rollback i)) (e : DbError) :
    (giveUp i e).Obeys φ (fun _ _ => True) l := ⟨hroll _, fun _ => trivial⟩

/-- What the rows' deletion ends with. -/
def Deletion (i : ι) (appId : Int) (r : Inertness) (l : Log (intake ι S)) :
    Except DbError Unit → Prop
  | .ok () => Whole i appId r l
  | .error _ => True

theorem deleteRows_obeys (hr : r.Inert) (hshape : ∀ l s, Shape i appId l s → φ l s) :
    (deleteRows i appId r.applicantId).Obeys φ (Deletion i appId r)
      (connected i appId r : Log (intake ι S)) := by
  refine ⟨hshape _ _ ⟨rfl, rfl, r, hr, rfl⟩, fun x => ?_⟩
  cases x with
  | error e => trivial
  | ok u =>
    cases hp : r.applicantId with
    | none =>
      unfold Deletion Whole
      rw [hp]
      exact rfl
    | some p =>
      refine ⟨hshape _ _ ⟨rfl, r, hr, hp, rfl⟩, fun y => ?_⟩
      cases y with
      | error e => trivial
      | ok other =>
        cases other with
        | true =>
          unfold Deletion Whole
          rw [hp]
          exact .inl rfl
        | false =>
          refine ⟨hshape _ _ ⟨rfl, r, hr, hp, rfl⟩, fun z => ?_⟩
          cases z with
          | error e => trivial
          | ok v =>
            refine ⟨hshape _ _ ⟨rfl, r, hr, hp, rfl⟩, fun z => ?_⟩
            cases z with
            | error e => trivial
            | ok v =>
              unfold Deletion Whole
              rw [hp]
              exact .inr rfl

/-- **`abandon_application`** -/
theorem abandonApplication_obeys (hshape : ∀ l s, Shape i appId l s → φ l s) :
    (abandonApplication i appId).Obeys φ (fun _ _ => True) ([] : Log (intake ι S)) := by
  refine ⟨hshape _ _ rfl, fun x => ?_⟩
  cases x with
  | none => trivial
  | some r =>
    dsimp only [Prog.bind]
    by_cases hr : r.decisions ≠ 0 ∨ r.offers ≠ 0 ∨ r.loans ≠ 0
    · rw [if_pos hr]
      trivial
    · rw [if_neg hr]
      have hinert : r.Inert := by
        unfold Inertness.Inert
        omega
      refine ⟨hshape _ _ ⟨rfl, r, hinert, rfl⟩, fun u => ?_⟩
      refine (obeys_bind (deleteRows i appId r.applicantId) _).mpr ?_
      refine (deleteRows_obeys hinert hshape).mono (fun _ _ h => h) fun l y hy => ?_
      cases y with
      | error e => exact giveUp_obeys (fun l => hshape l _ rfl) e
      | ok v =>
        refine ⟨hshape _ _ ⟨rfl, r, hinert, hy⟩, fun z => ?_⟩
        cases z with
        | error e => exact giveUp_obeys (fun l => hshape l _ rfl) e
        | ok v => trivial

end Abandoning

/-! ## The other writers -/

section Others

variable {l : Log (intake ι S)}

theorem board_obeys (b : BoardIn)
    (hbalance : ∀ l loanId p, Owes loanId p l → φ l (.insertBalance loanId p))
    (hloan : ∀ l name p a r t, φ l (.insertLoan b.appId name p a r t)) :
    (board b).Obeys φ (fun _ _ => True) l := by
  refine ⟨hloan _ _ _ _ _ _, fun x => ?_⟩
  cases x with
  | error e => trivial
  | ok loanId =>
    refine ⟨hbalance _ _ _ (.inr ⟨_, _, _, _, _, List.mem_cons_self⟩), fun y => ?_⟩
    cases y <;> trivial

theorem decide_obeys (hfree : Free φ) (appId : Int) (outcome : Outcome) :
    (decide appId outcome).Obeys φ (fun _ _ => True) l := by
  refine ⟨hfree _ _ rfl, fun x => ?_⟩
  cases x <;> trivial

theorem createOffer_obeys (hfree : Free φ) (appId : Int) (e : Option Int) :
    (createOffer appId e).Obeys φ (fun _ _ => True) l := by
  refine ⟨hfree _ _ rfl, fun existing => ?_⟩
  cases existing with
  | some existing => trivial
  | none =>
    refine ⟨hfree _ _ rfl, fun x => ?_⟩
    cases x with
    | ok id => trivial
    | error e =>
      cases e with
      | uniqueViolation =>
        refine ⟨hfree _ _ rfl, fun won => ?_⟩
        cases won <;> trivial
      | foreignKeyViolation => trivial
      | connectionLost => trivial

theorem cipCheck_obeys (hfree : Free φ) (applicantId : Option Int) :
    (cipCheck applicantId).Obeys φ (fun _ _ => True) l := by
  refine ⟨hfree _ _ rfl, fun x => ?_⟩
  cases x <;> trivial

end Others

/-! ## Every task -/

/-- What the answer of a call rests on. -/
def Ended (hmac : Text → Text → Text) (t : Task) (l : Log (intake ι S)) (answer : Answer) : Prop :=
  match t, answer with
  | .submit _, .submitted r => Submission hmac l r
  | .request a c, .authorized r => Admission hmac a c l r
  | .accept a c, .accepted r => Acceptance hmac a c l r
  | _, _ => True

/-- **Every call keeps to a discipline** that allows what its guarded statements rest on. -/
theorem task_obeys (i : ι) (t : Task) (hfree : Free φ)
    (hins : ∀ l name amount termMonths token expiresAt, Stamped hmac l token expiresAt →
      φ l (.insertApplication name amount termMonths token expiresAt))
    (hbalance : ∀ l loanId p, Owes loanId p l → φ l (.insertBalance loanId p))
    (hloan : ∀ l appId name p a r m, (∃ b, t = .board b ∧ b.appId = appId) ∨ Approved appId l →
      φ l (.insertLoan appId name p a r m))
    (hfund : ∀ l appId loanId, Settling appId loanId l → φ l (.fund appId))
    (hshape : ∀ appId l s, t = .abandon appId → Shape i appId l s → φ l s) :
    (t.prog hmac i).Obeys φ (Ended hmac t) ([] : Log (intake ι S)) := by
  cases t with
  | submit b =>
    refine (obeys_bind (createApplication hmac b) _).mpr ?_
    exact (createApplication_obeys hfree hins b).mono (fun _ _ h => h) fun _ _ h => h
  | request appId c =>
    refine (obeys_bind (requireOfficerOrOwner hmac appId c) _).mpr ?_
    exact (requireOfficerOrOwner_obeys hfree.readable appId c).mono (fun _ _ h => h) fun _ _ h => h
  | accept appId c =>
    refine (obeys_bind (acceptOffer hmac appId c) _).mpr ?_
    exact (acceptOffer_obeys hfree hbalance (fun _ _ _ _ _ _ h => hloan _ _ _ _ _ _ _ (.inr h))
      (fun _ _ h => hfund _ _ _ h) c).mono (fun _ _ h => h) fun _ _ h => h
  | board b =>
    refine (obeys_bind (board b) _).mpr ?_
    exact (board_obeys b hbalance fun _ _ _ _ _ _ =>
      hloan _ _ _ _ _ _ _ (.inl ⟨b, rfl, rfl⟩)).mono (fun _ _ h => h) fun _ _ _ => trivial
  | abandon appId =>
    refine (obeys_bind (abandonApplication i appId) _).mpr ?_
    exact (abandonApplication_obeys fun l s h => hshape appId l s rfl h).mono (fun _ _ h => h)
      fun _ _ _ => trivial
  | decide appId outcome =>
    refine (obeys_bind (decide appId outcome) _).mpr ?_
    exact (decide_obeys hfree appId outcome).mono (fun _ _ h => h) fun _ _ _ => trivial
  | createOffer appId e =>
    refine (obeys_bind (createOffer appId e) _).mpr ?_
    exact (createOffer_obeys hfree appId e).mono (fun _ _ h => h) fun _ _ _ => trivial
  | cipCheck p =>
    refine (obeys_bind (cipCheck p) _).mpr ?_
    exact (cipCheck_obeys hfree p).mono (fun _ _ h => h) fun _ _ _ => trivial

end Meridian.Intake
