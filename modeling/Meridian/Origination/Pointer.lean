import Meridian.Origination.Effects

/-!
# Does `decisions` follow the newest event?

`_persist_event` writes the event and upserts `decisions` in one statement, so the two appear
together. The event's time is the statement's start and its id is drawn before the upsert waits for
the row lock, so of two statements the later event can be the one that commits first; then the
other's outcome is what `decisions` keeps.

* `pointer_step_iff`: a commit keeps the pointer right exactly when its event becomes the newest of
  the application, or agrees with the newest (`InOrder`).
* `pointer_follows`: in runs whose commits are all in order the pointer follows the newest event.
* `pointer_left_behind`: two concurrent calls after which it does not.
-/

namespace Meridian.Origination

open Python Relational Interleave Disclosure

variable {w w' : World} {e : EventRow}

/-! ## The newest event -/

namespace EventRow

theorem newer_iff {e e' : EventRow} : e.newer e' = true ↔
    e'.decidedAt < e.decidedAt ∨ e'.decidedAt = e.decidedAt ∧ e'.id < e.id := by
  simp [newer]

theorem newer_irrefl (e : EventRow) : e.newer e = false := by
  rw [Bool.eq_false_iff, Ne, newer_iff]
  omega

theorem newer_asymm (e e' : EventRow) (h : e.newer e' = true) : e'.newer e = false := by
  rw [newer_iff] at h
  rw [Bool.eq_false_iff, Ne, newer_iff]
  omega

theorem newer_trans (e e' e'' : EventRow) (h : e'.newer e = false) (h' : e''.newer e' = false) :
    e''.newer e = false := by
  rw [Bool.eq_false_iff, Ne, newer_iff] at h h' ⊢
  omega

end EventRow

/-- The newest event is one of the application's, and none of them is newer. -/
theorem newestEvent_spec {appId : Int} (h : w.newestEvent appId = some e) :
    e ∈ w.events.rows ∧ e.appId = appId ∧
      ∀ e' ∈ w.events.rows, e'.appId = appId → e'.newer e = false := by
  have hmem := List.mem_filter.mp (firstBy_mem h)
  refine ⟨hmem.1, by simpa using hmem.2, fun e' he' happ => ?_⟩
  exact not_before_firstBy EventRow.newer_irrefl EventRow.newer_asymm EventRow.newer_trans h e'
    (List.mem_filter.mpr ⟨he', by simpa using happ⟩)

/-- The newest event after a commit: the new one, unless a newer one is already there. -/
theorem newestEvent_cons (h : w'.events.rows = e :: w.events.rows) :
    w'.newestEvent e.appId = (w.newestEvent e.appId).elim (some e) fun e' =>
      if e'.newer e then some e' else some e := by
  unfold World.newestEvent
  rw [h, List.filter_cons_of_pos (by simp), firstBy_cons]

theorem newestEvent_other (h : w'.events.rows = e :: w.events.rows) {appId : Int}
    (hne : e.appId ≠ appId) : w'.newestEvent appId = w.newestEvent appId := by
  unfold World.newestEvent
  rw [h, List.filter_cons_of_neg (by simpa using hne)]

/-! ## The pointer -/

/-- `decisions.outcome` is that of the newest event. -/
def PointerFollows (w : World) : Prop :=
  ∀ appId e, w.newestEvent appId = some e → w.decisions appId = some e.outcome

/-- A commit finds no newer event of its application, or the newest one agrees with it. -/
def InOrder {ι : Type} : Entry origination ι → Prop
  | .call _ s r w _ => ∀ e ∈ persisted ⟨s, r⟩, ∀ e' ∈ w.newestEvent e.appId,
      e'.newer e = false ∨ e'.outcome = e.outcome
  | .env _ _ _ => True

instance {ι : Type} : ∀ x : Entry origination ι, Decidable (InOrder x)
  | .call _ s r w _ => inferInstanceAs (Decidable (∀ e ∈ persisted ⟨s, r⟩,
      ∀ e' ∈ w.newestEvent e.appId, e'.newer e = false ∨ e'.outcome = e.outcome))
  | .env _ _ _ => .isTrue trivial

/-- **Exactly the commits in order** keep the pointer right. -/
theorem pointer_step_iff (hI : PointerFollows w) (hrows : w'.events.rows = e :: w.events.rows)
    (hdec : w'.decisions = Function.update w.decisions e.appId (some e.outcome)) :
    PointerFollows w' ↔
      ∀ e' ∈ w.newestEvent e.appId, e'.newer e = false ∨ e'.outcome = e.outcome := by
  have hpointer : w'.decisions e.appId = some e.outcome := by
    rw [hdec, Function.update_self]
  constructor
  · rintro hI' e' he'
    by_cases hnew : e'.newer e = true
    · have hnewest : w'.newestEvent e.appId = some e' := by
        rw [newestEvent_cons hrows, Option.mem_def.mp he']
        exact if_pos hnew
      have hout := hI' e.appId e' hnewest
      rw [hpointer] at hout
      exact .inr (Option.some.inj hout).symm
    · exact .inl (by simpa using hnew)
  · rintro hC appId x hx
    by_cases happ : e.appId = appId
    · subst happ
      rw [newestEvent_cons hrows] at hx
      cases hold : w.newestEvent e.appId with
      | none =>
        rw [hold] at hx
        cases hx
        exact hpointer
      | some e' =>
        rw [hold, Option.elim_some] at hx
        rw [hpointer]
        rcases hC e' hold with hnew | hout
        · rw [hnew] at hx
          cases hx
          rfl
        · split at hx <;> cases hx
          · rw [hout]
          · rfl
    · rw [newestEvent_other hrows happ] at hx
      rw [hdec, Function.update_of_ne (Ne.symm happ)]
      exact hI appId x hx

theorem pointer_frame (hI : PointerFollows w) (hrows : w'.events.rows = w.events.rows)
    (hdec : w'.decisions = w.decisions) : PointerFollows w' := by
  intro appId x hx
  unfold World.newestEvent at hx
  rw [hrows] at hx
  rw [hdec]
  exact hI appId x hx

section Runs

variable {ι : Type}

theorem pointer_call {i : ι} {s : Stmt} {r : s.Res} (hI : PointerFollows w)
    (hx : w.exec s = some (r, w')) (hC : InOrder (ι := ι) (.call i s r w w')) :
    PointerFollows w' := by
  rcases (exec_effect hx).events with ⟨e, hsr, hrows, hdec⟩ | ⟨-, hrows, hdec⟩
  · exact (pointer_step_iff hI hrows hdec).mpr (hC e hsr)
  · exact pointer_frame hI hrows hdec

/-- **The pointer follows the newest event** in every run whose commits are in order. -/
theorem pointer_follows [DecidableEq ι] (D : Deployment) (tasks : ι → Task) (w₀ : World)
    (h0 : PointerFollows w₀) {tr : List (Entry origination ι)} {c : Config origination ι Answer}
    (h : Run (start D tasks w₀) tr c) (hC : Along (fun _ x => InOrder x) tr) :
    PointerFollows c.world :=
  Run.invariant (φ := fun _ _ _ => True) (Q := fun _ _ _ => True) (I := fun _ w => PointerFollows w)
    (fun _ => obeys_true _) h0
    (fun _ _ _ _ _ _ _ hI _ hx hC => pointer_call hI hx hC)
    (fun _ c v _ hI _ => pointer_frame hI (env_same v c.world).events (env_same v c.world).decisions)
    h hC

end Runs

/-! ## Two calls at once -/

/-- A decision on application 1 without a request id. -/
def decideOn (outcome : Outcome) : Task := .decide ⟨1, none, outcome, fun _ => false⟩

/-- Approved by one call and denied by another. -/
def approveAndDeny : Caller → Task
  | .first => decideOn .approve
  | _ => decideOn .deny

theorem applied_follows : PointerFollows World.applied := by
  intro appId e h
  cases h

/-- Both calls start, and commit in the order of their ids. -/
def inTurn : List (Pick origination Caller) :=
  [.call .first, .call .first, .call .second, .call .second, .call .first, .call .second]

theorem in_turn_follows : ∃ tr c,
    Run (start sampleDeployment approveAndDeny World.applied) tr c ∧
    c.world.newestEvent 1 = some ⟨2, 1, .deny, 0, none⟩ ∧ PointerFollows c.world := by
  obtain ⟨tr, c, hrun, hord, hnew⟩ := exists_run inTurn
    (start sampleDeployment approveAndDeny World.applied)
    (fun x => Along (fun _ x => InOrder x) x.1 ∧
      x.2.world.newestEvent 1 = some ⟨2, 1, .deny, 0, none⟩) (by decide +kernel)
  exact ⟨tr, c, hrun, hnew, pointer_follows sampleDeployment approveAndDeny World.applied
    applied_follows hrun hord⟩

/-- The first call starts, the second starts and commits, the first commits. -/
def overtaken : List (Pick origination Caller) :=
  [.call .first, .call .first, .call .second, .call .second, .call .second, .call .first]

/-- **A commit out of order leaves the pointer behind**: both calls have returned, the newest event
denies, and `decisions` approves. -/
theorem pointer_left_behind : ∃ tr c,
    Run (start sampleDeployment approveAndDeny World.applied) tr c ∧
    ((c.procs .first).result.isSome ∧ (c.procs .second).result.isSome) ∧
    ¬ PointerFollows c.world := by
  obtain ⟨tr, c, hrun, hfirst, hsecond, hnew, hdec⟩ := exists_run overtaken
    (start sampleDeployment approveAndDeny World.applied)
    (fun x => (x.2.procs .first).result.isSome ∧ (x.2.procs .second).result.isSome ∧
      x.2.world.newestEvent 1 = some ⟨2, 1, .deny, 0, none⟩ ∧
      x.2.world.decisions 1 = some .approve) (by decide +kernel)
  refine ⟨tr, c, hrun, ⟨hfirst, hsecond⟩, fun hfollows => ?_⟩
  rw [hfollows 1 _ hnew] at hdec
  cases hdec

end Meridian.Origination
