import Meridian.Origination.Authorization

/-!
# Is a loan boarded only while the application is cleared?

`accept_offer` reads the identity check, then the application with its outcome, then the loan, and
inserts the loan. Each is a statement of its own. The disclosure it requires cannot regress, but the
outcome and the identity check can be withdrawn between the read and the insert.

* `kyc_after`: after a read of the identity check the gate says what the checks committed since have
  left.
* `boards_cleared_iff`: every loan is boarded on a cleared application exactly when, each time, the
  last decision and the last check committed since the reads leave it cleared (`StillCleared`).
* `denied_before_boarding`: a denial between the read and the insert.
-/

namespace Meridian.Origination

open Python Relational Interleave Disclosure

/-- The application of a loan that was boarded. -/
def boardedApp : Answered → Option Int
  | ⟨.insertLoan appId _ _ _ _, .ok _⟩ => some appId
  | _ => none

section Runs

variable {ι : Type}

/-- The application is approved and its newest identity check passes. -/
def Cleared (w : World) (appId : Int) : Prop :=
  w.decisions appId = some .approve ∧ kycPassed (w.kycView appId) = true

instance (w : World) (appId : Int) : Decidable (Cleared w appId) :=
  inferInstanceAs (Decidable (_ ∧ _))

/-- A step that boards a loan does so on a cleared application. -/
def BoardsCleared : Entry origination ι → Prop
  | .call _ s r w _ => ∀ appId ∈ boardedApp ⟨s, r⟩, Cleared w appId
  | .env _ _ _ => True

instance : ∀ x : Entry origination ι, Decidable (BoardsCleared x)
  | .call _ s r w _ => inferInstanceAs (Decidable (∀ appId ∈ boardedApp ⟨s, r⟩, Cleared w appId))
  | .env _ _ _ => .isTrue trivial

/-- Whether the gate passes after a step that commits an identity check. -/
def rechecked (appId : Int) : Entry origination ι → Option Bool
  | .call _ s _ _ w => if s.isInsertKyc then some (kycPassed (w.kycView appId)) else none
  | .env _ _ _ => none

/-- Whether the gate passed after the last identity check that was committed. -/
def lastCheck (appId : Int) (tr : List (Entry origination ι)) : Option Bool :=
  tr.findSome? (rechecked appId)

variable [DecidableEq ι]

/-- A loan is boarded while the last decision committed since the call's read approves, and the gate
passes after the last identity check committed since. -/
def StillCleared (tr : List (Entry origination ι)) : Entry origination ι → Prop
  | .call i s r _ _ => ∀ appId ∈ boardedApp ⟨s, r⟩,
      (∀ o ∈ lastOutcome appId (after i Stmt.isSelectBoarding tr), o = .approve) ∧
      ∀ b ∈ lastCheck appId (after i Stmt.isSelectKyc tr), b = true
  | .env _ _ _ => True

instance (tr : List (Entry origination ι)) : ∀ x, Decidable (StillCleared tr x)
  | .call i s r _ _ => inferInstanceAs (Decidable (∀ appId ∈ boardedApp ⟨s, r⟩,
      (∀ o ∈ lastOutcome appId (after i Stmt.isSelectBoarding tr), o = .approve) ∧
      ∀ b ∈ lastCheck appId (after i Stmt.isSelectKyc tr), b = true))
  | .env _ _ _ => .isTrue trivial

variable {D : Deployment} {tasks : ι → Task} {w₀ : World} {tr : List (Entry origination ι)}
  {c c₀ : Config origination ι Answer}

/-- **The gate after a read**: what was read, or what the last check committed since has left. -/
theorem kyc_after (h : Run c₀ tr c) {i : ι} {p : Stmt → Bool} {appId : Int}
    (hread : ∃ x ∈ own i tr, p x.1 = true)
    (hpost : ∀ x ∈ own i tr, p x.1 = true → ∀ w w', World.exec x.1 w = some (x.2, w') →
      kycPassed (w'.kycView appId) = true) :
    kycPassed (c.world.kycView appId) = (lastCheck appId (after i p tr)).getD true := by
  refine h.window (i := i) (p := p)
    (P := fun seg w => kycPassed (World.kycView w appId) = (lastCheck appId seg).getD true)
    hread hpost fun seg e c c' hs hP => ?_
  unfold lastCheck at hP ⊢
  cases hs with
  | env v =>
    have hview := kycView_congr (env_same v c.world).applicants (env_same v c.world).applications
      (env_same v c.world).kycChecks appId
    rw [show (origination.env v c.world).kycView appId = _ from hview]
    exact hP
  | @call j s k r w hi hx =>
    rw [advance_world, List.findSome?_cons, rechecked]
    rcases (exec_effect hx).kycView with hins | ⟨hins, hview⟩
    · rw [if_pos hins]
      rfl
    · rw [if_neg (by rw [hins]; exact Bool.false_ne_true), hview]
      exact hP

theorem boarding_outcome {w : World} {appId : Int} {r : Boarding}
    (h : w.boarding appId = some r) : r.outcome = w.decisions appId := by
  obtain ⟨a, -, h⟩ := Option.bind_eq_some_iff.mp h
  cases h
  rfl

/-- **What the reads leave**: the application is cleared exactly when what was committed since the
two reads leaves it so. -/
theorem cleared_iff (h : Run c₀ tr c) {i : ι} {appId : Int} (hφ : Boards (own i tr) appId) :
    Cleared c.world appId ↔
      (∀ o ∈ lastOutcome appId (after i Stmt.isSelectBoarding tr), o = .approve) ∧
      ∀ b ∈ lastCheck appId (after i Stmt.isSelectKyc tr), b = true := by
  obtain ⟨view, r, hkyc, hpassed, hboarding, hout⟩ := hφ
  have hdec : c.world.decisions appId =
      some ((lastOutcome appId (after i Stmt.isSelectBoarding tr)).getD .approve) := by
    refine decisions_after h ⟨_, hboarding.1, rfl⟩ fun x hx hp v v' hexec => ?_
    cases hboarding.2 x hx hp
    obtain ⟨hr, rfl⟩ := exec_eq (s := .selectBoarding appId) rfl hexec
    rw [← boarding_outcome hr.symm, hout]
  have hgate : kycPassed (c.world.kycView appId) =
      (lastCheck appId (after i Stmt.isSelectKyc tr)).getD true := by
    refine kyc_after h ⟨_, hkyc.1, rfl⟩ fun x hx hp v v' hexec => ?_
    cases hkyc.2 x hx hp
    obtain ⟨hr, rfl⟩ := exec_eq (s := .selectKyc appId) rfl hexec
    have hview : view = v'.kycView appId := hr
    rw [← hview, hpassed]
  unfold Cleared
  rw [hdec, hgate]
  refine and_congr ?_ ?_
  · cases lastOutcome appId (after i Stmt.isSelectBoarding tr) <;> simp
  · cases lastCheck appId (after i Stmt.isSelectKyc tr) <;> simp

/-- **Exactly the runs in which nothing is withdrawn** board every loan on a cleared application. -/
theorem boards_cleared_iff (D : Deployment) (tasks : ι → Task) (w₀ : World)
    {tr : List (Entry origination ι)} {c : Config origination ι Answer}
    (h : Run (start D tasks w₀) tr c) :
    Along (fun _ x => BoardsCleared x) tr ↔ Along StillCleared tr := by
  induction h with
  | nil => exact Iff.rfl
  | @cons tr c e c' h hs ih =>
    refine and_congr ?_ ih
    cases hs with
    | env v => exact Iff.rfl
    | @call i s k r w hi hx =>
      refine forall₂_congr fun appId happ => cleared_iff h ?_
      have hO := h.obeys (fun j => task_obeys D (tasks j)) i
      rw [hi] at hO
      have hφ := hO.1
      cases s with
      | insertLoan =>
        cases r with
        | ok id =>
          cases happ
          exact hφ
        | error e => cases happ
      | _ => cases happ

end Runs

/-! ## A denial before the insert -/

/-- The disclosure of the offer is delivered. -/
def World.ready : World := (World.disclosed (some sampleDocument)).move 1 .draft .delivered 0

/-- The offer is accepted while the application is denied. -/
def acceptAndDeny : Caller → Task
  | .first => .acceptOffer 1
  | _ => decideOn .deny

/-- The denial comes after the loan. -/
def deniedAfterBoarding : List (Pick origination Caller) :=
  List.replicate 4 (.call .first) ++ List.replicate 3 (.call .second)

theorem denied_after_boarding : ∃ tr c,
    Run (start sampleDeployment acceptAndDeny World.ready) tr c ∧
    c.world.loans.rows.length = 1 ∧ Along (fun _ x => BoardsCleared x) tr := by
  obtain ⟨tr, c, hrun, hC, hloan⟩ := exists_run deniedAfterBoarding
    (start sampleDeployment acceptAndDeny World.ready)
    (fun x => Along StillCleared x.1 ∧ (World.loans x.2.world).rows.length = 1) (by decide +kernel)
  exact ⟨tr, c, hrun, hloan,
    (boards_cleared_iff sampleDeployment acceptAndDeny World.ready hrun).mpr hC⟩

/-- The denial comes after the read of the application. -/
def deniedBeforeBoarding : List (Pick origination Caller) :=
  List.replicate 2 (.call .first) ++ List.replicate 3 (.call .second) ++
    List.replicate 2 (.call .first)

/-- **A loan is boarded on a denied application.** -/
theorem denied_before_boarding : ∃ tr c,
    Run (start sampleDeployment acceptAndDeny World.ready) tr c ∧
    c.world.loans.rows.length = 1 ∧ ¬ Along (fun _ x => BoardsCleared x) tr := by
  obtain ⟨tr, c, hrun, hloan, hnot⟩ := exists_run deniedBeforeBoarding
    (start sampleDeployment acceptAndDeny World.ready)
    (fun x => (World.loans x.2.world).rows.length = 1 ∧ ¬ Along (fun _ x => BoardsCleared x) x.1)
    (by decide +kernel)
  exact ⟨tr, c, hrun, hloan, hnot⟩

end Meridian.Origination
