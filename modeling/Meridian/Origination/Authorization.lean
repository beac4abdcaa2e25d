import Meridian.Origination.Discipline
import Meridian.Origination.Pointer

/-!
# Does every offer cite an approval?

`make_offer` checks the outcome it reads from `decisions`, and records the newest event, which it
reads afterwards from `decision_events`. `create_offer` only checks that the event belongs to the
application. A re-decision that commits between the two reads makes the offer cite it, whatever its
outcome.

* `decisions_after`: after a read of the outcome the pointer is what the decisions committed since
  then have left.
* `offers_approved`: where these decisions approve (`StillApproved`) and all commits are in order,
  every edge cites an approval.
* `denied_between`: one denial between the two reads, and an offer that cites it.
-/

namespace Meridian.Origination

open Python Relational Interleave Disclosure

/-- The event is there, belongs to the application, and approves. -/
def Approval (w : World) (appId id : Int) : Prop :=
  ∃ e ∈ w.events.rows, e.id = id ∧ e.appId = appId ∧ e.outcome = .approve

/-- Every edge of an offer cites an approval of its application. -/
def OffersApproved (w : World) : Prop :=
  ∀ o ∈ w.offers.rows, ∀ id ∈ o.decisionEventId, ∃ appId, o.appId = some appId ∧
    Approval w appId id

theorem Approval.kept {w w' : World} {x : Answered} {appId id : Int} (h : Approval w appId id)
    (hx : Effect w x w') : Approval w' appId id := by
  obtain ⟨e, he, hid⟩ := h
  exact ⟨e, hx.kept_event he, hid⟩

section Runs

variable {ι : Type}

/-- The decision a step has committed on an application. -/
def committed (appId : Int) : Entry origination ι → Option Outcome
  | .call _ s r _ _ => (persisted ⟨s, r⟩).bind fun e =>
    if e.appId = appId then some e.outcome else none
  | .env _ _ _ => none

/-- The last decision committed on an application. -/
def lastOutcome (appId : Int) (tr : List (Entry origination ι)) : Option Outcome :=
  tr.findSome? (committed appId)

/-- The application whose newest event is read. -/
def asksNewest : Stmt → Option Int
  | .selectNewestEvent appId => some appId
  | _ => none

variable [DecidableEq ι]

/-- The newest event is read while the decision that was committed last since the call's read of the
outcome approves. -/
def StillApproved (tr : List (Entry origination ι)) : Entry origination ι → Prop
  | .call i s _ _ _ => ∀ appId ∈ asksNewest s,
      ∀ o ∈ lastOutcome appId (after i Stmt.isSelectOutcome tr), o = .approve
  | .env _ _ _ => True

instance (tr : List (Entry origination ι)) : ∀ x, Decidable (StillApproved tr x)
  | .call i s _ _ _ => inferInstanceAs (Decidable (∀ appId ∈ asksNewest s,
      ∀ o ∈ lastOutcome appId (after i Stmt.isSelectOutcome tr), o = .approve))
  | .env _ _ _ => .isTrue trivial

variable {D : Deployment} {tasks : ι → Task} {w₀ : World} {tr : List (Entry origination ι)}
  {c c₀ : Config origination ι Answer}

/-- **The pointer after a read**: the outcome that was read, or the last one committed since. -/
theorem decisions_after (h : Run c₀ tr c) {i : ι} {p : Stmt → Bool} {appId : Int}
    {outcome : Outcome} (hread : ∃ x ∈ own i tr, p x.1 = true)
    (hpost : ∀ x ∈ own i tr, p x.1 = true → ∀ w w', World.exec x.1 w = some (x.2, w') →
      w'.decisions appId = some outcome) :
    c.world.decisions appId = some ((lastOutcome appId (after i p tr)).getD outcome) := by
  refine h.window (i := i) (p := p)
    (P := fun seg w => World.decisions w appId = some ((lastOutcome appId seg).getD outcome))
    hread hpost fun seg e c c' hs hP => ?_
  cases hs with
  | env v =>
    have hdec : (World.env v c.world).decisions = c.world.decisions :=
      (env_same v c.world).decisions
    rw [show (origination.env v c.world).decisions = c.world.decisions from hdec]
    exact hP
  | @call j s k r w hi hx =>
    unfold lastOutcome at hP ⊢
    rw [advance_world, List.findSome?_cons, committed]
    rcases (exec_effect hx).events with ⟨e, hsr, -, hdec⟩ | ⟨hsr, -, hdec⟩
    · rw [hsr, hdec, Option.bind_some]
      by_cases happ : e.appId = appId
      · subst happ
        rw [if_pos rfl, Function.update_self]
        rfl
      · rw [if_neg happ, Function.update_of_ne (Ne.symm happ)]
        exact hP
    · rw [hsr, hdec]
      exact hP

/-- The calls the claim about offers is about. -/
def Task.offersOrDecides : Task → Bool
  | .makeOffer _ | .decide _ => true
  | _ => false

theorem task_offering (D : Deployment) {t : Task} (ht : t.offersOrDecides = true) :
    (t.prog D).Obeys Offering (fun _ _ => True) [] := by
  cases t with
  | makeOffer appId =>
    refine (obeys_bind (makeOffer D appId) _).mpr ?_
    exact (makeOffer_obeys D appId).mono (fun _ _ h => h) fun _ _ h => h
  | decide r =>
    refine (obeys_bind (decide r) _).mpr ?_
    exact (decide_obeys (fun l _ h => offering_free l h) r).mono (fun _ _ h => h) fun _ _ h => h
  | _ => cases ht

/-- The offers that are there cite approvals, and so does an offer about to be made. -/
structure Authorized (tr : List (Entry origination ι)) (w : World) : Prop where
  pointer : PointerFollows w
  offers : OffersApproved w
  chosen : ∀ i appId id, ⟨.selectNewestEvent appId, some id⟩ ∈ own i tr → Approval w appId id

/-- What a call has just read as the newest event is an approval. -/
theorem approval_of_read (hrun : Run c₀ tr c) (hI : PointerFollows c.world) {i : ι} {appId id : Int}
    {w : World} (hx : c.world.exec (.selectNewestEvent appId) = some (some id, w))
    (hφ : Offering (own i tr) (.selectNewestEvent appId))
    (hC : StillApproved tr (.call i (.selectNewestEvent appId) (some id) c.world w)) :
    Approval w appId id := by
  obtain ⟨hr, rfl⟩ := exec_eq (s := .selectNewestEvent appId) rfl hx
  obtain ⟨e, he, hid⟩ := Option.map_eq_some_iff.mp hr.symm
  obtain ⟨hmem, happ, -⟩ := newestEvent_spec he
  refine ⟨e, hmem, hid, happ, ?_⟩
  have hdec : c.world.decisions appId =
      some ((lastOutcome appId (after i Stmt.isSelectOutcome tr)).getD .approve) := by
    refine decisions_after hrun ⟨_, hφ.1, rfl⟩ fun x hx hp v v' hexec => ?_
    cases hφ.2 x hx hp
    obtain ⟨hr, rfl⟩ := exec_eq (s := .selectOutcome appId) rfl hexec
    exact hr.symm
  rw [hI appId e he] at hdec
  rw [Option.some.inj hdec]
  cases hlast : lastOutcome appId (after i Stmt.isSelectOutcome tr) with
  | none => rfl
  | some o => exact hC appId rfl o hlast

theorem Authorized.call (hrun : Run c₀ tr c) (hI : Authorized tr c.world) {i : ι} {s : Stmt}
    {r : s.Res} {w : World} (hφ : Offering (own i tr) s) (hx : c.world.exec s = some (r, w))
    (hC : InOrder (.call i s r c.world w) ∧ StillApproved tr (.call i s r c.world w)) :
    Authorized (.call i s r c.world w :: tr) w := by
  have heffect := exec_effect hx
  refine ⟨pointer_call hI.pointer hx hC.1, fun o' ho' id hid => ?_, fun j appId id hj => ?_⟩
  · rcases heffect.offer_from ho' with ⟨o, ho, hE⟩ | ⟨appId, box, edge, hsr, rfl⟩
    · cases hE with
      | same =>
        obtain ⟨appId, happ, hap⟩ := hI.offers o' ho id hid
        exact ⟨appId, happ, hap.kept heffect⟩
      | disclosed _ _ _ _ hsr =>
        cases hsr
        exact hφ.elim
      | repaired _ _ _ hsr =>
        cases hsr
        exact hφ.elim
    · cases hsr
      exact ⟨appId, rfl, (hI.chosen i appId id (hφ.2 id hid)).kept heffect⟩
  · rw [own_call] at hj
    split at hj
    · rename_i hij
      subst hij
      rcases List.mem_cons.mp hj with hnew | hold
      · cases hnew
        exact approval_of_read hrun hI.pointer hx hφ hC.2
      · exact (hI.chosen i appId id hold).kept heffect
    · exact (hI.chosen j appId id hj).kept heffect

end Runs

/-- **Every offer cites an approval** of its application, in every run of offers and decisions whose
commits are in order and whose newest events are read while the decisions still approve. -/
theorem offers_approved {ι : Type} [DecidableEq ι] (D : Deployment) (tasks : ι → Task)
    (htasks : ∀ i, (tasks i).offersOrDecides = true) (w₀ : World) (hpointer : PointerFollows w₀)
    (hoffers : OffersApproved w₀) {tr : List (Entry origination ι)}
    {c : Config origination ι Answer} (h : Run (start D tasks w₀) tr c)
    (hC : Along (fun tr x => InOrder x ∧ StillApproved tr x) tr) : OffersApproved c.world := by
  have hI : Authorized tr c.world := by
    refine Run.invariant (φ := fun _ => Offering) (Q := fun _ _ _ => True)
      (I := fun tr w => Authorized tr w) (fun i => task_offering D (htasks i))
      ⟨hpointer, hoffers, fun _ _ _ hx => absurd hx List.not_mem_nil⟩
      (fun tr c i s r w hrun hI hφ hx hC => hI.call hrun hφ hx hC) ?_ h hC
    rintro tr c v - hI -
    have hsame := env_same v c.world
    refine ⟨pointer_frame hI.pointer hsame.events hsame.decisions, fun o ho id hid => ?_,
      fun i appId id hi => ?_⟩
    · obtain ⟨appId, happ, hap⟩ := hI.offers o (hsame.offers ▸ ho) id hid
      exact ⟨appId, happ, hap.kept (.same (x := ⟨.now, 0⟩) rfl hsame)⟩
    · exact (hI.chosen i appId id hi).kept (.same (x := ⟨.now, 0⟩) rfl hsame)
  exact hI.offers

/-! ## A denial between the two reads -/

theorem approved_follows : PointerFollows World.approved := by
  intro appId e h
  obtain ⟨hmem, rfl, -⟩ := newestEvent_spec h
  cases List.mem_singleton.mp hmem
  rfl

theorem approved_offers : OffersApproved World.approved := fun _ ho => absurd ho List.not_mem_nil

/-- An offer is asked for while the application is denied. -/
def offerAndDeny : Caller → Task
  | .first => .makeOffer 1
  | _ => decideOn .deny

/-- The denial comes after both reads. -/
def deniedAfter : List (Pick origination Caller) :=
  List.replicate 5 (.call .first) ++ List.replicate 3 (.call .second) ++
    List.replicate 2 (.call .first)

theorem denied_after : ∃ tr c,
    Run (start sampleDeployment offerAndDeny World.approved) tr c ∧
    (∃ o ∈ c.world.offers.rows, o.decisionEventId = some 1) ∧ OffersApproved c.world := by
  obtain ⟨tr, c, hrun, hC, hoffer⟩ := exists_run deniedAfter
    (start sampleDeployment offerAndDeny World.approved)
    (fun x => Along (fun tr x => InOrder x ∧ StillApproved tr x) x.1 ∧
      ∃ o ∈ (World.offers x.2.world).rows, o.decisionEventId = some 1) (by decide +kernel)
  exact ⟨tr, c, hrun, hoffer, offers_approved sampleDeployment offerAndDeny
    (fun i => by cases i <;> rfl) World.approved approved_follows approved_offers hrun hC⟩

/-- The denial comes between the read of the outcome and the read of the newest event. -/
def deniedBetween : List (Pick origination Caller) :=
  List.replicate 3 (.call .first) ++ List.replicate 3 (.call .second) ++
    List.replicate 4 (.call .first)

/-- **The offer cites the denial**, though all commits are in order. -/
theorem denied_between : ∃ tr c,
    Run (start sampleDeployment offerAndDeny World.approved) tr c ∧
    Along (fun _ x => InOrder x) tr ∧ ¬ OffersApproved c.world := by
  obtain ⟨tr, c, hrun, hord, ⟨o, ho, hedge⟩, hdeny⟩ := exists_run deniedBetween
    (start sampleDeployment offerAndDeny World.approved)
    (fun x => Along (fun _ x => InOrder x) x.1 ∧
      (∃ o ∈ (World.offers x.2.world).rows, o.decisionEventId = some 2) ∧
      ∀ e ∈ (World.events x.2.world).rows, e.id = 2 → e.outcome = .deny) (by decide +kernel)
  refine ⟨tr, c, hrun, hord, fun happroved => ?_⟩
  obtain ⟨appId, -, e, he, hid, -, hout⟩ := happroved o ho 2 hedge
  rw [hdeny e he hid] at hout
  cases hout

end Meridian.Origination
