import Meridian.Decisioning.Calls

/-!
# A keyed decision happens once

Calls of `decide` in any number and order, each free to fail and to crash anywhere. What carries the
result is a pair of facts about the sessions that are alive: who has taken the lock of a key has it
(`Exclusive`), and between its lookup and its own `INSERT` no event with its request id appears
(`Unrecorded`). Both hold because an `INSERT` under a request id is made with the lock in hand.

* `decide_obeys`: what one call issues, and what its answer rests on, whatever the others do.
* `run_exclusive`: the two facts in every run.
* **`keyed_once`**: one event for each application and request id, no bureau pull once it is on
  record, every answer read from it, and a mismatch for every call whose inputs differ.
-/

namespace Meridian.Decisioning

open Python Relational Interleave Ledger

variable {ι : Type} [DecidableEq ι]

/-! ## What one call issues -/

/-- The session has taken the lock and not released it. -/
def Locked (i : ι) (key : Int) (l : Log (decisioning ι)) : Prop :=
  ⟨⟨i, .lock key⟩, ()⟩ ∈ l ∧ ∀ x ∈ l, x.1.op ≠ .unlock key

/-- The session has found no event, and has not tried to record one. -/
def Missed (i : ι) (appId : Int) (requestId : Text) (l : Log (decisioning ι)) : Prop :=
  ⟨⟨i, .findEvent appId requestId⟩, none⟩ ∈ l ∧ ∀ x ∈ l, ∀ e, x.1.op ≠ .persistEvent e

/-- A keyed call has the lock, and has found no event under it. -/
def Ready (D : Deployment) (i : ι) (a : Application) (l : Log (decisioning ι)) : Prop :=
  ∀ rid ∈ a.key, Locked i (lockKey D a.appId rid) l ∧ Missed i a.appId rid l

/-- The event records the application's request. -/
structure Records (a : Application) (e : Event) : Prop where
  appId : e.appId = a.appId
  requestId : e.requestId = a.key
  financials : e.inputs.financials = a.financials

/-- The statements of a call, against its own log. -/
def Allowed (D : Deployment) (i : ι) (a : Application) (l : Log (decisioning ι)) (s : Stmt ι) :
    Prop :=
  s.session = i ∧
    match s.op with
    | .lock _ => l = []
    | .unlock _ => True
    | .findEvent _ _ => True
    | .getScore _ => Ready D i a l
    | .persistEvent e => Ready D i a l ∧ Records a e

/-- What the answer of a call rests on. -/
def Ended (i : ι) (a : Application) (l : Log (decisioning ι)) : Except Refused Answer → Prop
  | .ok answer =>
    (∃ e, ⟨⟨i, .persistEvent e⟩, .ok ()⟩ ∈ l ∧ Records a e ∧ answer = resultFromEvent e) ∨
    ∃ rid e, a.key = some rid ∧ ⟨⟨i, .findEvent a.appId rid⟩, some e⟩ ∈ l ∧
      ¬ e.inputs.financials.Differ a.financials ∧ answer = resultFromEvent e
  | .error .inputMismatch => True
  | .error _ => ∀ rid ∈ a.key, ⟨⟨i, .findEvent a.appId rid⟩, none⟩ ∈ l

section Logs

variable {D : Deployment} {i : ι} {a : Application} {l : Log (decisioning ι)}
  {x : (s : Stmt ι) × s.op.Res}

theorem Ready.cons (h : Ready D i a l) (hu : ∀ key, x.1.op ≠ .unlock key)
    (hp : ∀ e, x.1.op ≠ .persistEvent e) : Ready D i a (x :: l) := by
  intro rid hrid
  obtain ⟨⟨hlock, hno⟩, hfind, hnone⟩ := h rid hrid
  refine ⟨⟨List.mem_cons_of_mem _ hlock, ?_⟩, List.mem_cons_of_mem _ hfind, ?_⟩
  · rintro y hy
    rcases List.mem_cons.mp hy with rfl | hy
    · exact hu _
    · exact hno y hy
  · rintro y hy
    rcases List.mem_cons.mp hy with rfl | hy
    · exact hp
    · exact hnone y hy

theorem Ended.cons {r : Except Refused Answer} (h : Ended i a l r) : Ended i a (x :: l) r := by
  cases r with
  | ok answer =>
    rcases h with ⟨e, hmem, hrec, hans⟩ | ⟨rid, e, hkey, hmem, hdiff, hans⟩
    · exact .inl ⟨e, List.mem_cons_of_mem _ hmem, hrec, hans⟩
    · exact .inr ⟨rid, e, hkey, List.mem_cons_of_mem _ hmem, hdiff, hans⟩
  | error refused =>
    cases refused with
    | inputMismatch => trivial
    | _ => exact fun rid hrid => List.mem_cons_of_mem _ (h rid hrid)

/-- A refusal after the lookup found nothing. -/
theorem Ready.ended (h : Ready D i a l) (r : Refused) : Ended i a l (.error r) := by
  cases r with
  | inputMismatch => trivial
  | _ => exact fun rid hrid => (h rid hrid).2.1

end Logs

theorem replay_ended (D : Deployment) {i : ι} {call : Call} {l : Log (decisioning ι)} {rid : Text}
    {e : Event} (hkey : call.application.key = some rid)
    (hmem : ⟨⟨i, .findEvent call.application.appId rid⟩, some e⟩ ∈ l) :
    Ended i call.application l (replay D call e) := by
  unfold replay
  dsimp only
  split
  · trivial
  · rename_i hconflict
    exact .inr ⟨rid, e, hkey, hmem, fun hdiff => hconflict (conflict_of_differ hdiff), rfl⟩

theorem pullCredit_obeys {D : Deployment} {i : ι} {a : Application} {l : Log (decisioning ι)}
    (h : Ready D i a l) (c : Config) (ssn : Text) :
    (pullCredit i c ssn).Obeys (Allowed D i a) (fun l' _ => Ready D i a l') l := by
  unfold pullCredit
  split
  · exact h
  · refine ⟨⟨rfl, h⟩, fun score => ?_⟩
    have hready : Ready D i a (⟨⟨i, .getScore ssn⟩, score⟩ :: l) :=
      h.cons (fun _ => nofun) (fun _ => nofun)
    cases score with
    | none => exact hready
    | some score => exact hready

theorem persistEvent_obeys {D : Deployment} {i : ι} {a : Application} {l : Log (decisioning ι)}
    {e : Event} (h : Ready D i a l) (hrec : Records a e) :
    (persistEvent i e).Obeys (Allowed D i a) (fun l' r =>
      match r with
      | .ok none => ⟨⟨i, .persistEvent e⟩, .ok ()⟩ ∈ l'
      | .ok (some existing) =>
        ∃ rid, a.key = some rid ∧ ⟨⟨i, .findEvent a.appId rid⟩, some existing⟩ ∈ l'
      | .error r => Ended i a l' (.error r)) l := by
  have hended : Ended i a l (.error .record) := h.ended .record
  refine ⟨⟨rfl, h, hrec⟩, fun inserted => ?_⟩
  cases inserted with
  | ok u => exact List.mem_cons_self
  | error raised =>
    cases raised with
    | other => exact hended.cons
    | uniqueViolation =>
      cases hrid : e.requestId with
      | none =>
        exact hended.cons
      | some rid =>
        refine ⟨⟨rfl, trivial⟩, fun found => ?_⟩
        cases found with
        | none => exact hended.cons.cons
        | some existing =>
          refine ⟨rid, by rw [← hrec.requestId, hrid], ?_⟩
          rw [← hrec.appId]
          exact List.mem_cons_self

theorem runDecision_obeys {D : Deployment} {i : ι} {call : Call} {l : Log (decisioning ι)}
    (h : Ready D i call.application l) :
    (runDecision D i call call.application.key).Obeys (Allowed D i call.application)
      (fun l' r => Ended i call.application l' r) l := by
  unfold runDecision
  refine (obeys_bind _ _).mpr ((pullCredit_obeys h _ _).mono (fun _ _ hs => hs) ?_)
  intro l' pulled hready
  cases pulled with
  | error r => exact hready.ended r
  | ok pulled =>
    obtain ⟨score, source⟩ := pulled
    cases hon : decideOn D.vendor call.application
      (ssnFingerprint D call.config call.application.ssn) score source call.application.key with
    | error r =>
      simp only [hon]
      exact hready.ended r
    | ok decided =>
      obtain ⟨event, answer⟩ := decided
      obtain ⟨happ, hkey, hfin, hanswer⟩ := decideOn_ok hon
      have hrec : Records call.application event := ⟨happ, hkey, hfin⟩
      simp only [hon]
      refine (obeys_bind _ _).mpr ((persistEvent_obeys hready hrec).mono (fun _ _ hs => hs) ?_)
      intro l'' persisted hpersisted
      cases persisted with
      | error r => exact hpersisted
      | ok raced =>
        cases raced with
        | none => exact .inl ⟨event, hpersisted, hrec, hanswer⟩
        | some existing =>
          obtain ⟨rid, hrid, hmem⟩ := hpersisted
          exact replay_ended D hrid hmem

/-- **What a call issues and answers**, under any interference. -/
theorem decide_obeys (D : Deployment) (i : ι) (call : Call) :
    (decide D i call).Obeys (Allowed D i call.application)
      (fun l r => Ended i call.application l r) [] := by
  unfold decide
  cases hkey : call.application.key with
  | none =>
    have hready : Ready D i call.application [] := by
      intro rid hrid
      rw [hkey] at hrid
      cases hrid
    have hrun := runDecision_obeys hready
    rw [hkey] at hrun
    exact hrun
  | some rid =>
    refine ⟨⟨rfl, rfl⟩, fun _ => ⟨⟨rfl, trivial⟩, fun found => ?_⟩⟩
    cases found with
    | some existing =>
      refine ⟨⟨rfl, trivial⟩, fun _ => ?_⟩
      exact replay_ended D hkey (List.mem_cons_of_mem _ List.mem_cons_self)
    | none =>
      have hready : Ready D i call.application
          [⟨⟨i, .findEvent call.application.appId rid⟩, none⟩,
            ⟨⟨i, .lock (lockKey D call.application.appId rid)⟩, ()⟩] := by
        intro rid' hrid'
        rw [hkey] at hrid'
        cases hrid'
        refine ⟨⟨by simp, ?_⟩, by simp, ?_⟩ <;> simp
      have hrun := runDecision_obeys hready
      rw [hkey] at hrun
      refine (obeys_bind (runDecision D i call (some rid)) _).mpr
        (hrun.mono (fun _ _ hs => hs) ?_)
      intro l answer hended
      exact ⟨⟨rfl, trivial⟩, fun _ => hended.cons⟩

/-! ## What one step does -/

section Effects

variable {w w' : World ι} {s : Stmt ι} {r : s.op.Res} {i : ι}

theorem exec_alive (h : World.exec s w = some (r, w')) :
    w.crashed s.session = false ∧ World.execOp s.session s.op w = some (r, w') := by
  unfold World.exec at h
  split at h
  · cases h
  · rename_i halive
    exact ⟨by simpa using halive, h⟩

/-- A lock that is taken was free, and nothing else changes. -/
theorem exec_lock_eq {key : Int} {r : (Op.lock key).Res}
    (h : World.exec ⟨i, .lock key⟩ w = some (r, w')) :
    w.held key = none ∧ w' = { w with held := fun k => if k = key then some i else w.held k } := by
  have hop : (if (w.held key).isSome then none
      else some ((), { w with held := fun k => if k = key then some i else w.held k })) =
      some (r, w') := (exec_alive h).2
  split at hop
  · cases hop
  · rename_i hfree
    cases hop
    exact ⟨by simpa using hfree, rfl⟩

theorem exec_persistEvent_eq {e : Event} {r : (Op.persistEvent e).Res}
    (h : World.exec ⟨i, .persistEvent e⟩ w = some (r, w')) : w.persistEvent e = (r, w') :=
  Option.some.inj (exec_alive h).2

omit [DecidableEq ι] in
/-- What recording an event does to the table. -/
theorem mem_persistEvent {e : Event} {row : EventRow}
    (h : row ∈ (w.persistEvent e).2.events.rows) : row ∈ w.events.rows ∨ row.event = e := by
  unfold World.persistEvent at h
  split at h
  · exact .inl h
  · split at h
    · rename_i hjson
      rcases w.events.insertNext_cases (fun id => ⟨id, e, hjson⟩) fun _ => rfl with
        ⟨heq, -⟩ | ⟨t, heq, hrows, -, -⟩
      · rw [heq] at h
        exact .inl h
      · rw [heq] at h
        dsimp only at h
        rw [hrows] at h
        rcases List.mem_cons.mp h with rfl | h
        · exact .inr rfl
        · exact .inl h
    · exact .inl h

omit [DecidableEq ι] in
theorem mem_persistEvent_of_mem {e : Event} {row : EventRow} (h : row ∈ w.events.rows) :
    row ∈ (w.persistEvent e).2.events.rows := by
  unfold World.persistEvent
  split
  · exact h
  · split
    · rename_i hjson
      rcases w.events.insertNext_cases (fun id => ⟨id, e, hjson⟩) fun _ => rfl with
        ⟨heq, -⟩ | ⟨t, heq, hrows, -, -⟩
      · rw [heq]
        exact h
      · rw [heq]
        dsimp only
        rw [hrows]
        exact List.mem_cons_of_mem _ h
    · exact h

omit [DecidableEq ι] in
theorem persistEvent_recorded {e : Event} {w' : World ι}
    (h : w.persistEvent e = (.ok (), w')) : ∃ row ∈ w'.events.rows, row.event = e := by
  unfold World.persistEvent at h
  split at h
  · cases h
  · split at h
    · rename_i hjson
      rcases w.events.insertNext_cases (fun id => ⟨id, e, hjson⟩) fun _ => rfl with
        ⟨heq, -⟩ | ⟨t, heq, hrows, -, -⟩
      · rw [heq] at h
        cases h
      · rw [heq] at h
        obtain ⟨-, rfl⟩ := Prod.mk.inj h
        refine ⟨⟨w.events.next, e, hjson⟩, ?_, rfl⟩
        dsimp only
        rw [hrows]
        exact List.mem_cons_self
    · cases h

omit [DecidableEq ι] in
theorem persistEvent_held (e : Event) :
    (w.persistEvent e).2.held = w.held ∧ (w.persistEvent e).2.crashed = w.crashed := by
  unfold World.persistEvent
  split
  · exact ⟨rfl, rfl⟩
  · split
    · rename_i hjson
      rcases w.events.insertNext_cases (fun id => ⟨id, e, hjson⟩) fun _ => rfl with
        ⟨heq, -⟩ | ⟨t, heq, -, -, -⟩
      · rw [heq]
        exact ⟨rfl, rfl⟩
      · rw [heq]
        exact ⟨rfl, rfl⟩
    · exact ⟨rfl, rfl⟩

theorem exec_crashed (h : World.exec s w = some (r, w')) : w'.crashed = w.crashed := by
  obtain ⟨i, op⟩ := s
  cases op with
  | lock key => rw [(exec_lock_eq h).2]
  | persistEvent e =>
    obtain rfl : (w.persistEvent e).2 = w' := by rw [exec_persistEvent_eq h]
    exact (persistEvent_held e).2
  | unlock _ | findEvent _ _ | getScore _ =>
    cases (exec_alive h).2
    rfl

/-- A lock stays with its holder until the holder releases it. -/
theorem exec_held {key : Int} (h : World.exec s w = some (r, w')) (hheld : w.held key = some i)
    (hkeep : s.session = i → s.op ≠ .unlock key) : w'.held key = some i := by
  obtain ⟨j, op⟩ := s
  cases op with
  | lock key' =>
    obtain ⟨hfree, rfl⟩ := exec_lock_eq h
    have hk : key ≠ key' := by
      rintro rfl
      rw [hheld] at hfree
      cases hfree
    simpa [hk] using hheld
  | unlock key' =>
    cases (exec_alive h).2
    dsimp only [World.unlock]
    split
    · rename_i hrel
      obtain ⟨rfl, hj⟩ := hrel
      rw [hheld] at hj
      exact absurd rfl (hkeep (Option.some.inj hj).symm)
    · exact hheld
  | persistEvent e =>
    obtain rfl : (w.persistEvent e).2 = w' := by rw [exec_persistEvent_eq h]
    rw [(persistEvent_held e).1]
    exact hheld
  | findEvent _ _ | getScore _ =>
    cases (exec_alive h).2
    exact hheld

theorem exec_lock {key : Int} {w' : World ι} {r : (Op.lock key).Res}
    (h : World.exec ⟨i, .lock key⟩ w = some (r, w')) : w'.held key = some i := by
  rw [(exec_lock_eq h).2]
  exact if_pos rfl

theorem exec_mem {row : EventRow} (h : World.exec s w = some (r, w')) (hrow : row ∈ w'.events.rows) :
    row ∈ w.events.rows ∨ s.op = .persistEvent row.event := by
  obtain ⟨j, op⟩ := s
  cases op with
  | lock key =>
    obtain ⟨-, rfl⟩ := exec_lock_eq h
    exact .inl hrow
  | persistEvent e =>
    obtain rfl : (w.persistEvent e).2 = w' := by rw [exec_persistEvent_eq h]
    rcases mem_persistEvent hrow with hold | hnew
    · exact .inl hold
    · exact .inr (by rw [hnew])
  | unlock _ | findEvent _ _ | getScore _ =>
    cases (exec_alive h).2
    exact .inl hrow

theorem exec_mem_of_mem {row : EventRow} (h : World.exec s w = some (r, w'))
    (hrow : row ∈ w.events.rows) : row ∈ w'.events.rows := by
  obtain ⟨j, op⟩ := s
  cases op with
  | lock key =>
    obtain ⟨-, rfl⟩ := exec_lock_eq h
    exact hrow
  | persistEvent e =>
    obtain rfl : (w.persistEvent e).2 = w' := by rw [exec_persistEvent_eq h]
    exact mem_persistEvent_of_mem hrow
  | unlock _ | findEvent _ _ | getScore _ =>
    cases (exec_alive h).2
    exact hrow

omit [DecidableEq ι] in
theorem findEvent_some {appId : Int} {rid : Text} {e : Event}
    (h : w.findEvent appId rid = some e) :
    ∃ row ∈ w.events.rows, row.event = e ∧ e.appId = appId ∧ e.requestId = some rid := by
  unfold World.findEvent at h
  obtain ⟨row, hfind, rfl⟩ := Option.map_eq_some_iff.mp h
  have hp := List.find?_some hfind
  simp only [Bool.decide_and, Bool.and_eq_true, decide_eq_true_eq] at hp
  exact ⟨row, List.mem_of_find?_eq_some hfind, rfl, hp⟩

omit [DecidableEq ι] in
theorem findEvent_none {appId : Int} {rid : Text} (h : w.findEvent appId rid = none) :
    ∀ row ∈ w.events.rows, ¬ (row.event.appId = appId ∧ row.event.requestId = some rid) := by
  intro row hrow hpair
  unfold World.findEvent at h
  have hnone := List.find?_eq_none.mp (Option.map_eq_none_iff.mp h) row hrow
  simp only [decide_eq_true_eq] at hnone
  exact hnone hpair

theorem env_alive {v : Env ι} (h : (World.env v w).crashed i = false) : w.crashed i = false := by
  cases v with
  | crash j =>
    dsimp only [World.env, World.crash] at h
    split at h
    · cases h
    · exact h
  | answer _ | fail _ => exact h

/-- Who is alive keeps its locks. -/
theorem env_held {v : Env ι} {key : Int} (h : (World.env v w).crashed i = false)
    (hheld : w.held key = some i) : (World.env v w).held key = some i := by
  cases v with
  | crash j =>
    dsimp only [World.env, World.crash] at h ⊢
    split at h
    · cases h
    · rename_i hij
      rw [hheld, if_neg fun hj => hij (Option.some.inj hj)]
  | answer _ | fail _ => exact hheld

theorem env_events (v : Env ι) : (World.env v w).events = w.events := by
  cases v <;> rfl

end Effects

/-! ## What holds in every run -/

/-- A session that is alive and has taken a lock has it. -/
def Exclusive (tr : List (Entry (decisioning ι) ι)) (w : World ι) : Prop :=
  ∀ i key, w.crashed i = false → Locked i key (own i tr) → w.held key = some i

/-- The event a session found missing stays missing while it has the lock. -/
def Unrecorded (D : Deployment) (tr : List (Entry (decisioning ι) ι)) (w : World ι) : Prop :=
  ∀ i appId rid, w.crashed i = false → Locked i (lockKey D appId rid) (own i tr) →
    Missed i appId rid (own i tr) →
    ∀ row ∈ w.events.rows, ¬ (row.event.appId = appId ∧ row.event.requestId = some rid)

section Runs

variable {D : Deployment} {calls : ι → Call} {w : World ι} {tr : List (Entry (decisioning ι) ι)}
  {c : Interleave.Config (decisioning ι) ι (Except Refused Answer)}

theorem exclusive_call {i : ι} {s : Stmt ι} {r : s.op.Res} {w w' : World ι}
    (h : Exclusive tr w) (hsession : s.session = i) (hx : World.exec s w = some (r, w')) :
    Exclusive (.call i s r w w' :: tr) w' := by
  intro j key halive hlocked
  rw [exec_crashed hx] at halive
  by_cases hij : i = j
  · subst hij
    rw [own_call_self] at hlocked
    obtain ⟨hmem, hno⟩ := hlocked
    rcases List.mem_cons.mp hmem with hhead | hmem
    · -- the lock is taken in this step
      cases hhead
      exact exec_lock hx
    · refine exec_held hx (h i key halive ⟨hmem, fun x hx => hno x (List.mem_cons_of_mem _ hx)⟩) ?_
      exact fun _ => hno _ List.mem_cons_self
  · rw [own_call_ne hij] at hlocked
    exact exec_held hx (h j key halive hlocked) fun hj => absurd (hsession.symm.trans hj) hij

theorem unrecorded_call {i : ι} {s : Stmt ι} {r : s.op.Res} {w w' : World ι} {a : Application}
    (hexcl : Exclusive tr w) (h : Unrecorded D tr w) (hallowed : Allowed D i a (own i tr) s)
    (hx : World.exec s w = some (r, w')) : Unrecorded D (.call i s r w w' :: tr) w' := by
  obtain ⟨hsession, hop⟩ := hallowed
  intro j appId rid halive hlocked hmissed row hrow hpair
  rw [exec_crashed hx] at halive
  rcases exec_mem hx hrow with hold | hnew
  · by_cases hij : i = j
    · subst hij
      rw [own_call_self] at hlocked hmissed
      obtain ⟨hlock, hno⟩ := hlocked
      obtain ⟨hfind, hnone⟩ := hmissed
      rcases List.mem_cons.mp hfind with hhead | hearlier
      · -- the event was found missing in this very step
        cases hhead
        have hanswer := (exec_alive hx).2
        have hfound := congrArg Prod.fst (Option.some.inj hanswer)
        exact findEvent_none hfound row hold hpair
      · rcases List.mem_cons.mp hlock with hhead | hlock
        · cases hhead
          have hempty : own i tr = [] := hop
          rw [hempty] at hearlier
          cases hearlier
        · exact h i appId rid halive
            ⟨hlock, fun x hx => hno x (List.mem_cons_of_mem _ hx)⟩
            ⟨hearlier, fun x hx => hnone x (List.mem_cons_of_mem _ hx)⟩ row hold hpair
    · rw [own_call_ne hij] at hlocked hmissed
      exact h j appId rid halive hlocked hmissed row hold hpair
  · by_cases hij : i = j
    · subst hij
      rw [own_call_self] at hmissed
      exact hmissed.2 _ List.mem_cons_self _ hnew
    · -- another session records it, so it holds the lock too
      rw [own_call_ne hij] at hlocked
      rw [hnew] at hop
      obtain ⟨hready, hrec⟩ := hop
      have hkey : a.key = some rid := by rw [← hrec.requestId, hpair.2]
      have hlock := (hready rid hkey).1
      rw [← hrec.appId, hpair.1] at hlock
      have halive' := (exec_alive hx).1
      rw [hsession] at halive'
      have hi := hexcl i _ halive' hlock
      rw [hexcl j _ halive hlocked] at hi
      exact hij (Option.some.inj hi).symm

/-- **Mutual exclusion and the missing event**, in every run. -/
theorem run_exclusive (h : Run (start D calls w) tr c) :
    Exclusive tr c.world ∧ Unrecorded D tr c.world := by
  refine Run.invariant (C := fun _ _ => True)
    (I := fun tr (w : World ι) => Exclusive tr w ∧ Unrecorded D tr w)
    (fun i => decide_obeys D i (calls i)) ?_ ?_ ?_ h (along_true tr)
  · constructor
    · rintro i key - ⟨hmem, -⟩
      cases hmem
    · rintro i appId rid - ⟨hmem, -⟩
      cases hmem
  · intro tr c i s r w' _ hI hallowed hx _
    exact ⟨exclusive_call hI.1 hallowed.1 hx, unrecorded_call hI.1 hI.2 hallowed hx⟩
  · rintro tr c v - ⟨hexcl, hunrec⟩ -
    constructor
    · intro i key halive hlocked
      exact env_held halive (hexcl i key (env_alive halive) hlocked)
    · intro i appId rid halive hlocked hmissed row hrow
      rw [show (decisioning ι).env v c.world = World.env v c.world from rfl, env_events v] at hrow
      exact hunrec i appId rid (env_alive halive) hlocked hmissed row hrow

/-! ## Consequences -/

omit [DecidableEq ι] in
/-- Two events of one application and request id are one row. -/
theorem event_unique {w : World ι} {row row' : EventRow} (hrow : row ∈ w.events.rows)
    (hrow' : row' ∈ w.events.rows) {appId : Int} {rid : Text}
    (h : row.event.appId = appId ∧ row.event.requestId = some rid)
    (h' : row'.event.appId = appId ∧ row'.event.requestId = some rid) : row = row' := by
  refine w.events.eq_of_clash (fun r r' => clashOn_comm _ r r') hrow hrow' ?_
  refine clashOn_iff.mpr ⟨(appId, rid), ?_, ?_⟩
  · rw [h.1, h.2]
    rfl
  · rw [h'.1, h'.2]
    rfl

/-- An event that is on record stays. -/
theorem recorded_persists {e : Entry (decisioning ι) ι} {tr' : List (Entry (decisioning ι) ι)}
    (h : Run (start D calls w) tr c) (hs : e :: tr' <:+ tr) {event : Event}
    (hrow : ∃ row ∈ (e.post : World ι).events.rows, row.event = event) :
    ∃ row ∈ c.world.events.rows, row.event = event := by
  refine h.persist (P := fun w : World ι => ∃ row ∈ w.events.rows, row.event = event) ?_ ?_ hs hrow
  · rintro s w r w' ⟨row, hrow, he⟩ hx
    exact ⟨row, exec_mem_of_mem hx hrow, he⟩
  · rintro v w ⟨row, hrow, he⟩
    exact ⟨row, by rwa [show (decisioning ι).env v w = World.env v w from rfl, env_events v], he⟩

/-- The caller's step put the row on record. -/
def RecordedBy (tr : List (Entry (decisioning ι) ι)) (i : ι) (row : EventRow) : Prop :=
  ∃ (s : Stmt ι) (r : s.op.Res) (pre post : World ι) (tr' : List (Entry (decisioning ι) ι)),
    .call i s r pre post :: tr' <:+ tr ∧ row ∈ post.events.rows ∧ row ∉ pre.events.rows

/-- What a call puts on record is of its application, under its request id, and stays. -/
theorem recordedBy_spec (h : Run (start D calls w) tr c) {i : ι} {row : EventRow}
    (hrow : RecordedBy tr i row) : row ∈ c.world.events.rows ∧
      row.event.appId = (calls i).application.appId ∧
      row.event.requestId = (calls i).application.key := by
  obtain ⟨s, r, pre, post, tr', hs, hpost, hpre⟩ := hrow
  obtain ⟨c₁, c₂, h₁, hst⟩ := h.entry hs
  have hobeys := h₁.obeys (fun i => decide_obeys D i (calls i)) i
  refine ⟨?_, ?_⟩
  · refine h.persist (P := fun w : World ι => row ∈ w.events.rows) ?_ ?_ hs hpost
    · intro s w r w' hrow hx
      exact exec_mem_of_mem hx hrow
    · intro v w hrow
      rwa [show (decisioning ι).env v w = World.env v w from rfl, env_events v]
  · cases hst with
    | call hi hx =>
      rw [hi] at hobeys
      obtain ⟨⟨-, hop⟩, -⟩ := hobeys
      rcases exec_mem hx hpost with hold | hnew
      · exact absurd hold hpre
      · rw [hnew] at hop
        exact ⟨hop.2.appId, hop.2.requestId⟩

/-- A bureau pull of a keyed call is made while no event has its request id. -/
theorem pull_before_record (h : Run (start D calls w) tr c) {i j : ι} {ssn : Text}
    {score : Option Value} {pre post : World ι} {tr' : List (Entry (decisioning ι) ι)}
    (hs : .call i ⟨j, .getScore ssn⟩ score pre post :: tr' <:+ tr) {rid : Text}
    (hkey : (calls i).application.key = some rid) : ∀ row ∈ pre.events.rows,
      ¬ (row.event.appId = (calls i).application.appId ∧ row.event.requestId = some rid) := by
  obtain ⟨c₁, c₂, h₁, hst⟩ := h.entry hs
  have hobeys := h₁.obeys (fun i => decide_obeys D i (calls i)) i
  cases hst with
  | call hi hx =>
    rw [hi] at hobeys
    obtain ⟨⟨hsession, hready⟩, -⟩ := hobeys
    have hready : Ready D i (calls i).application (own i tr') := hready
    obtain ⟨hlocked, hmissed⟩ := hready rid hkey
    have halive := (exec_alive hx).1
    rw [hsession] at halive
    exact (run_exclusive h₁).2 i _ rid halive hlocked hmissed

/-- **An answer is read from the recorded event** of the call's application and request id, and the
recorded inputs are the call's. -/
theorem answer_recorded (h : Run (start D calls w) tr c) {i : ι} {answer : Answer}
    (hr : c.procs i = .ret (.ok answer)) : ∃ row ∈ c.world.events.rows,
      row.event.appId = (calls i).application.appId ∧
      row.event.requestId = (calls i).application.key ∧
      ¬ row.event.inputs.financials.Differ (calls i).application.financials ∧
      answer = resultFromEvent row.event := by
  rcases h.returned (fun i => decide_obeys D i (calls i)) hr with
    ⟨e, hmem, hrec, rfl⟩ | ⟨rid, e, hkey, hmem, hdiffer, rfl⟩
  · obtain ⟨pre, post, tr', hs⟩ := exists_of_mem_own hmem
    have hx := exec_persistEvent_eq (h.exec hs)
    obtain ⟨row, hrow, rfl⟩ := recorded_persists h hs (persistEvent_recorded hx)
    refine ⟨row, hrow, hrec.appId, hrec.requestId, ?_, rfl⟩
    have hjson := row.isJson
    simp only [Event.isJson, Bool.and_eq_true] at hjson
    rw [← hrec.financials]
    exact Financials.not_differ_self hjson.2
  · obtain ⟨pre, post, tr', hs⟩ := exists_of_mem_own hmem
    have hx := (exec_alive (h.exec hs)).2
    obtain ⟨hfound, rfl⟩ := Prod.mk.inj (Option.some.inj hx)
    obtain ⟨row, hrow, rfl, happ, hrid⟩ := findEvent_some hfound
    obtain ⟨row', hrow', heq⟩ := recorded_persists h hs ⟨row, hrow, rfl⟩
    rw [← heq] at happ hrid hdiffer ⊢
    exact ⟨row', hrow', happ, hrid.trans hkey.symm, hdiffer, rfl⟩

/-- **A keyed decision happens once.** -/
theorem keyed_once (h : Run (start D calls w) tr c) :
    -- one event for each application and request id
    (∀ row ∈ c.world.events.rows, ∀ row' ∈ c.world.events.rows, ∀ rid,
      row.event.requestId = some rid → row'.event.requestId = some rid →
      row.event.appId = row'.event.appId → row = row') ∧
    -- no bureau pull under a pair that is on record
    (∀ i j ssn score pre post tr', .call i ⟨j, .getScore ssn⟩ score pre post :: tr' <:+ tr →
      ∀ rid, (calls i).application.key = some rid → ∀ row ∈ (pre : World ι).events.rows,
        ¬ (row.event.appId = (calls i).application.appId ∧ row.event.requestId = some rid)) ∧
    -- an answer is the recorded event of the call's own application and request id
    (∀ i answer, c.procs i = .ret (.ok answer) → ∃ row ∈ c.world.events.rows,
      row.event.appId = (calls i).application.appId ∧
      row.event.requestId = (calls i).application.key ∧
      answer.decision = row.event.outcome ∧ answer.policyBand = row.event.policyBand ∧
      answer.principalReasons = row.event.principalReasons ∧
      answer.decidedBy = row.event.decidedBy ∧ answer.score = row.event.drivers.modelScore) ∧
    -- with other inputs than the recorded ones there is only the mismatch, but for a failure of a
    -- call that had looked before the event was on record
    ∀ i rid, (calls i).application.key = some rid → ∀ row ∈ c.world.events.rows,
      row.event.appId = (calls i).application.appId → row.event.requestId = some rid →
      row.event.inputs.financials.Differ (calls i).application.financials →
      ∀ r, c.procs i = .ret r → r = .error .inputMismatch ∨
        (∃ refused, r = .error refused) ∧ ∃ pre post tr',
          .call i ⟨i, .findEvent (calls i).application.appId rid⟩ none pre post :: tr' <:+ tr ∧
          ∀ row' ∈ (pre : World ι).events.rows, ¬ (row'.event.appId = row.event.appId ∧
            row'.event.requestId = some rid) := by
  refine ⟨?_, fun i j ssn score pre post tr' hs rid hkey => pull_before_record h hs hkey, ?_, ?_⟩
  · intro row hrow row' hrow' rid hrid hrid' happ
    exact event_unique hrow hrow' ⟨happ, hrid⟩ ⟨rfl, hrid'⟩
  · intro i answer hr
    obtain ⟨row, hrow, happ, hkey, -, rfl⟩ := answer_recorded h hr
    exact ⟨row, hrow, happ, hkey, rfl, rfl, rfl, rfl, rfl⟩
  · intro i rid hkey row hrow happ hrid hdiffer r hr
    cases r with
    | ok answer =>
      obtain ⟨row', hrow', happ', hkey', hsame, -⟩ := answer_recorded h hr
      rw [event_unique hrow hrow' ⟨happ, hrid⟩ ⟨happ', hkey'.trans hkey⟩] at hdiffer
      exact absurd hdiffer hsame
    | error refused =>
      by_cases hmis : refused = .inputMismatch
      · exact .inl (by rw [hmis])
      · refine .inr ⟨⟨refused, rfl⟩, ?_⟩
        have hended := h.returned (fun i => decide_obeys D i (calls i)) hr
        have hlooked : ⟨⟨i, .findEvent (calls i).application.appId rid⟩, none⟩ ∈ own i tr := by
          cases refused with
          | inputMismatch => exact absurd rfl hmis
          | _ => exact hended rid hkey
        obtain ⟨pre, post, tr', hs⟩ := exists_of_mem_own hlooked
        refine ⟨pre, post, tr', hs, ?_⟩
        have hx := (exec_alive (h.exec hs)).2
        rw [happ]
        exact findEvent_none (congrArg Prod.fst (Option.some.inj hx))

end Runs

/-! ## A run with a crash, a replay and a mismatch -/

inductive Caller
  | crashing
  | deciding
  | retrying
  | changed
  deriving DecidableEq

/-- What the vendor model returns for the inputs of `sampleFinancials` and a score of 720. -/
def sampleScore : ModelOut where
  score := 738
  modelId := "meridian-risk-stub".toList
  modelVersion := "1".toList
  attributions := [⟨"employment_tenure".toList, .ofRat 2⟩, ⟨"income_sufficiency".toList, .ofRat 20⟩,
    ⟨"payment_burden".toList, .ofRat 36⟩, ⟨"delinquency_history".toList, .ofRat 40⟩]

def sampleFinancials (amount : ℚ) : Financials where
  annualIncome := .ofRat 100000
  requestedAmount := .ofRat amount
  termMonths := 36
  monthlyDebt := .ofRat 0
  employmentYears := .ofRat 5
  term_bounds := by decide

def sampleDeployment : Deployment where
  blake2b name := name.length
  hmac _ text := text
  vendor _ := some sampleScore

/-- Four calls under one request id; the last asks for another amount. -/
def sampleCalls (i : Caller) : Call where
  application := ⟨11, "123456782".toList, sampleFinancials (if i = .changed then 16000 else 15000),
    some "r1".toList⟩
  config := ⟨true, false, none⟩

def sampleWorld : World Caller where
  held _ := none
  crashed _ := false
  bureau := some (.int 720)
  fault := .none
  decisions _ := none
  events := .empty 1

/-- One call crashes with the lock in hand; the next pulls the score, and its `INSERT` commits
without an answer. -/
def sampleSchedule : List (Pick (decisioning Caller) Caller) :=
  [.call .crashing, .call .crashing, .call .crashing, .env (.crash .crashing), .call .deciding,
    .call .deciding, .call .deciding, .env (.fail .answerLost), .call .deciding, .call .deciding,
    .call .retrying, .call .retrying, .call .retrying, .call .changed, .call .changed,
    .call .changed]

def sampleAnswer : Answer := ⟨738, .approve, .approve, [], modelSignature⟩

theorem keyed_once_sample : ∃ tr c,
    Run (start sampleDeployment sampleCalls sampleWorld) tr c ∧
    (c.procs .deciding).result = some (.error .record) ∧
    (c.procs .retrying).result = some (.ok sampleAnswer) ∧
    (c.procs .changed).result = some (.error .inputMismatch) ∧
    ∀ row ∈ c.world.events.rows, ∀ row' ∈ c.world.events.rows, ∀ rid,
      row.event.requestId = some rid → row'.event.requestId = some rid →
      row.event.appId = row'.event.appId → row = row' := by
  obtain ⟨tr, c, h, hp⟩ := exists_run sampleSchedule
    (start sampleDeployment sampleCalls sampleWorld)
    (fun x => (x.2.procs .deciding).result = some (.error .record) ∧
      (x.2.procs .retrying).result = some (.ok sampleAnswer) ∧
      (x.2.procs .changed).result = some (.error .inputMismatch)) (by decide +kernel)
  exact ⟨tr, c, h, hp.1, hp.2.1, hp.2.2, (keyed_once h).1⟩

end Meridian.Decisioning
