import Meridian.Health.Probe

/-!
# One probe at a time

However many threads ask, the cache and its lock leave one of them connecting.

* `Keeps` is what every statement of `reachable` keeps, said against the log of its caller.
* `flight` is what the lock protects: nobody is connecting while it is free, and the kept result is
  newer than every attempt.
* `connections_bounded`: a part of a run that takes `t` seconds makes at most `1 + t / 5` attempts.
* `reachable_fresh`: what a caller returns an attempt has found, and the kept result was not older
  than five seconds when the caller looked at the clock.
-/

namespace Meridian.Health

open Interleave Python Prog

/-! ## The lock and the clock -/

/-- `time.monotonic()` -/
def monotonic : Clock process where
  read w := w.clock
  exec_le := by
    intro s w r w' hx
    cases s with
    | acquire =>
      by_cases hl : w.locked = true
      · simp [Process.exec, hl] at hx
      · simp only [Process.exec, hl] at hx
        cases hx
        exact le_rfl
    | now | read | release | connect | finish | store x =>
      cases hx
      exact le_rfl
  env_le e w := by
    cases e with
    | elapse d => exact le_add_of_nonneg_right d.2
    | answer x => exact le_rfl

theorem exec_acquire {r : Unit} {w w' : Process} (h : Process.exec .acquire w = some (r, w')) :
    w.locked = false ∧ w' = { w with locked := true } := by
  by_cases hl : w.locked = true
  · simp [Process.exec, hl] at h
  · rw [Bool.not_eq_true] at hl
    simp only [Process.exec, hl, Bool.false_eq_true, if_false, Option.some.injEq, Prod.mk.injEq,
      true_and] at h
    exact ⟨hl, h.symm⟩

/-- `_probe_lock` -/
def probeLock : Lock process where
  acquires
    | .acquire => true
    | _ => false
  releases
    | .release => true
    | _ => false
  locked w := w.locked
  acquire_exec := by
    intro s w r w' hs hx
    cases s <;> cases hs
    obtain ⟨hfree, rfl⟩ := exec_acquire hx
    exact ⟨hfree, rfl⟩
  release_exec := by
    intro s w r w' _ hs hx
    cases s <;> cases hs
    cases hx
    rfl
  other_exec := by
    intro s w r w' ha hr hx
    cases s with
    | acquire => cases ha
    | release => cases hr
    | now | read | connect | finish | store x =>
      cases hx
      rfl
  env_locked e w := by cases e <;> rfl

/-! ## What a caller does -/

/-- What the caller has read of the cache since it took the lock or stored a result. -/
def seen : Log process → Option ProbeState
  | ⟨.read, x⟩ :: _ => some x
  | ⟨.acquire, _⟩ :: _ | ⟨.store _, _⟩ :: _ => none
  | _ :: l => seen l
  | [] => none

/-- The caller has begun to connect since it took the lock or stored a result. -/
def connecting : Log process → Bool
  | ⟨.connect, _⟩ :: _ => true
  | ⟨.acquire, _⟩ :: _ | ⟨.store _, _⟩ :: _ => false
  | _ :: l => connecting l
  | [] => false

/-- The reading of the clock that was the caller's last statement. -/
def lastNow : Log process → Option ℚ
  | ⟨.now, t⟩ :: _ => some t
  | _ => none

variable (P : Probed)

/-- The kept result is not this target's, or too old by the clock that was just read. -/
def Stale (l : Log process) (x : ProbeState) : Prop :=
  x.target = some P.target → ∃ t, lastNow l = some t ∧ P.ttlSeconds ≤ t - x.monotonicAt

/-- An attempt found the result, or there is nothing to connect to. -/
def Found (l : Log process) (r : Outcome) : Prop :=
  ⟨.finish, r⟩ ∈ l ∨ ∃ error, P.target = [] ∧ P.notSet = some error ∧ r = ⟨false, some error⟩

/-- What the statements of `reachable` keep. -/
def Keeps (l : Log process) : Stmt → Prop
  | .connect => probeLock.holding l = true ∧ connecting l = false ∧
      ∃ x, seen l = some x ∧ Stale P l x
  | .store x => probeLock.holding l = true ∧ x.target = some P.target ∧
      lastNow l = some x.monotonicAt ∧ Found P l x.result
  | .release => probeLock.holding l = true ∧ connecting l = false
  | _ => True

/-- The caller read a result of this target, looked at the clock, and the result was not too old. -/
def Reused (l : Log process) (r : Outcome) : Prop :=
  ∃ (x : ProbeState) (t : ℚ) (l' : Log process), ⟨.now, t⟩ :: ⟨.read, x⟩ :: l' <:+ l ∧
    x.target = some P.target ∧ t - x.monotonicAt < P.ttlSeconds ∧ x.result = r

/-- What `reachable` returns, by its caller's log. -/
def Returns (l : Log process) (r : Outcome) : Prop :=
  Reused P l r ∨ ∃ x, ⟨.store x, ()⟩ ∈ l ∧ x.target = some P.target ∧ x.result = r

variable {P} {l : Log process}

theorem probe_obeys (hheld : probeLock.holding l = true) (hidle : connecting l = false)
    {x : ProbeState} (hseen : seen l = some x) (hstale : Stale P l x) :
    Obeys (Keeps P) (Returns P) l P.probe := by
  have hrest : ∀ {l : Log process} {r : Outcome}, probeLock.holding l = true → Found P l r →
      Obeys (Keeps P) (Returns P) l (do
        let now ← issue .now
        let _ ← issue (.store ⟨some P.target, now, r⟩)
        let _ ← issue .release
        pure r) := by
    intro l r hheld hfound
    refine ⟨trivial, fun t => ⟨⟨hheld, rfl, rfl, ?_⟩, fun _ => ⟨⟨hheld, rfl⟩, fun _ => .inr ?_⟩⟩⟩
    · exact hfound.imp_left (List.mem_cons_of_mem _)
    · exact ⟨⟨some P.target, t, r⟩, by simp, rfl, rfl⟩
  unfold Probed.probe Probed.runProbe
  split
  · rename_i error htarget hnotSet
    exact hrest hheld (.inr ⟨error, htarget, hnotSet, rfl⟩)
  · refine ⟨⟨hheld, hidle, x, hseen, hstale⟩, fun _ => ⟨trivial, fun r => ?_⟩⟩
    exact hrest hheld (.inl List.mem_cons_self)

theorem locked_obeys : Obeys (Keeps P) (Returns P) l P.locked := by
  refine ⟨trivial, fun _ => ⟨trivial, fun x => ?_⟩⟩
  show Obeys _ _ _ (if x.target = some P.target then _ else P.probe)
  by_cases htarget : x.target = some P.target
  · rw [if_pos htarget]
    refine ⟨trivial, fun t => ?_⟩
    show Obeys _ _ _ (if t - x.monotonicAt < P.ttlSeconds then _ else P.probe)
    by_cases hfresh : t - x.monotonicAt < P.ttlSeconds
    · rw [if_pos hfresh]
      exact ⟨⟨rfl, rfl⟩, fun _ => .inl ⟨x, t, _, List.suffix_cons .., htarget, hfresh, rfl⟩⟩
    · rw [if_neg hfresh]
      exact probe_obeys rfl rfl rfl fun _ => ⟨t, rfl, not_lt.mp hfresh⟩
  · rw [if_neg htarget]
    exact probe_obeys rfl rfl rfl fun h => absurd h htarget

theorem reachable_obeys : Obeys (Keeps P) (Returns P) [] P.reachable := by
  refine ⟨trivial, fun x => ?_⟩
  show Obeys _ _ _ (if x.target = some P.target then _ else P.locked)
  by_cases htarget : x.target = some P.target
  · rw [if_pos htarget]
    refine ⟨trivial, fun t => ?_⟩
    show Obeys _ _ _ (if t - x.monotonicAt < P.ttlSeconds then _ else P.locked)
    by_cases hfresh : t - x.monotonicAt < P.ttlSeconds
    · rw [if_pos hfresh]
      exact .inl ⟨x, t, _, List.suffix_rfl, htarget, hfresh, rfl⟩
    · rw [if_neg hfresh]
      exact locked_obeys
  · rw [if_neg htarget]
    exact locked_obeys

/-! ## What the lock protects -/

section Flight

variable {ι : Type} {tr : List (Entry process ι)} {w : Process}

variable (P) in
/-- The attempts so far are over, and apart. -/
structure Apart (tr : List (Entry process ι)) (w : Process) : Prop where
  apart : (times monotonic connects tr).Pairwise fun b a : ℚ => a + P.ttlSeconds ≤ b
  past : ∀ b ∈ times monotonic connects tr, b ≤ w.clock

variable (P) in
/-- The kept result is newer than every attempt. -/
def Settled (tr : List (Entry process ι)) (w : Process) : Prop :=
  ∀ b ∈ times monotonic connects tr, w.state.target = some P.target ∧ b ≤ w.state.monotonicAt

variable (P) in
/-- The holder of the lock knows the cache, and that nobody connects but itself. -/
structure Holds (l : Log process) (tr : List (Entry process ι)) (w : Process) : Prop extends
    Apart P tr w where
  settled : connecting l = false → Settled P tr w
  seen : ∀ x, seen l = some x → x = w.state
  now : ∀ t, lastNow l = some t → t ≤ w.clock ∧ ∀ b ∈ times monotonic connects tr, b ≤ t

theorem Apart.later {e : Entry process ι} {w' : Process} (h : Apart P tr w)
    (he : connects e = false) (hle : w.clock ≤ w'.clock) : Apart P (e :: tr) w' := by
  refine ⟨?_, ?_⟩ <;> rw [times_cons_neg he]
  · exact h.apart
  · exact fun b hb => (h.past b hb).trans hle

theorem Settled.later {e : Entry process ι} {w' : Process} (h : Settled P tr w)
    (he : connects e = false) (hstate : w'.state = w.state) : Settled P (e :: tr) w' := by
  intro b hb
  rw [times_cons_neg he] at hb
  rw [hstate]
  exact h b hb

theorem Holds.later {e : Entry process ι} {w' : Process} (h : Holds P l tr w)
    (he : connects e = false) (hle : w.clock ≤ w'.clock) (hstate : w'.state = w.state) :
    Holds P l (e :: tr) w' := by
  refine ⟨h.toApart.later he hle, fun hc => (h.settled hc).later he hstate, ?_, ?_⟩
  · rw [hstate]
    exact h.seen
  · intro t ht
    rw [times_cons_neg he]
    exact ⟨(h.now t ht).1.trans hle, (h.now t ht).2⟩

/-- **An attempt** is the time to live after every other. -/
theorem Holds.connect {i : ι} (h : Holds P l tr w) (hk : Keeps P l .connect) :
    Holds P (⟨.connect, ()⟩ :: l) (.call i .connect () w w :: tr) w := by
  obtain ⟨-, hidle, x, hseen, hstale⟩ := hk
  have hsettled := h.settled hidle
  obtain rfl := h.seen x hseen
  have hgap : ∀ b ∈ times monotonic connects tr, b + P.ttlSeconds ≤ w.clock := by
    intro b hb
    obtain ⟨htarget, hb⟩ := hsettled b hb
    obtain ⟨t, hlast, hold⟩ := hstale htarget
    have hnow := (h.now t hlast).1
    linarith
  have htimes : times monotonic connects (.call i .connect () w w :: tr) =
      w.clock :: times monotonic connects tr := times_cons_pos rfl
  refine ⟨⟨?_, ?_⟩, nofun, h.seen, nofun⟩ <;> rw [htimes]
  · exact List.pairwise_cons.mpr ⟨hgap, h.apart⟩
  · intro b hb
    rcases List.mem_cons.mp hb with rfl | hb
    · exact le_rfl
    · exact h.past b hb

/-- **A stored result** is newer than every attempt. -/
theorem Holds.store {i : ι} {x : ProbeState} (h : Holds P l tr w) (hk : Keeps P l (.store x)) :
    Holds P (⟨.store x, ()⟩ :: l) (.call i (.store x) () w { w with state := x } :: tr)
      { w with state := x } := by
  obtain ⟨-, htarget, hlast, -⟩ := hk
  refine ⟨h.toApart.later rfl le_rfl, fun _ b hb => ?_, nofun, nofun⟩
  rw [times_cons_neg rfl] at hb
  exact ⟨htarget, (h.now _ hlast).2 b hb⟩

variable (P ι) in
/-- What the lock protects. -/
def flight [DecidableEq ι] : probeLock.Resource ι fun _ => Keeps P where
  free tr w := Apart P tr w ∧ Settled P tr w
  held := Holds P
  acquire := by
    intro i l s r w w' tr hs hx hfree
    cases s <;> cases hs
    obtain ⟨-, rfl⟩ := exec_acquire hx
    exact ⟨hfree.1.later rfl le_rfl, fun _ => hfree.2.later rfl rfl, nofun, nofun⟩
  release := by
    intro i l s r w w' tr _ hs hk hx hheld
    cases s <;> cases hs
    cases hx
    exact ⟨hheld.toApart.later rfl le_rfl, (hheld.settled hk.2).later rfl rfl⟩
  hold := by
    intro i l s r w w' tr ha hr hk hx hheld
    cases s with
    | acquire => cases ha
    | release => cases hr
    | now =>
      cases hx
      have hlater := hheld.later (e := .call i .now w.clock w w) rfl le_rfl rfl
      refine ⟨hlater.toApart, hlater.settled, hlater.seen, fun t ht => ?_⟩
      cases ht
      exact ⟨le_rfl, hlater.past⟩
    | read =>
      cases hx
      have hlater := hheld.later (e := .call i .read w.state w w) rfl le_rfl rfl
      refine ⟨hlater.toApart, hlater.settled, fun x hx => ?_, nofun⟩
      cases hx
      rfl
    | connect =>
      cases hx
      exact hheld.connect hk
    | finish =>
      cases hx
      have hlater := hheld.later (e := .call i .finish w.answer w w) rfl le_rfl rfl
      exact ⟨hlater.toApart, hlater.settled, hlater.seen, nofun⟩
    | store x =>
      cases hx
      exact hheld.store hk
  other := by
    intro i l s r w w' tr ha hr hl hk hx
    have hsame : connects (.call i s r w w') = false ∧ w' = w := by
      cases s with
      | acquire => cases ha
      | release => cases hr
      | connect => cases hl.symm.trans hk.1
      | store x => cases hl.symm.trans hk.1
      | now | read | finish =>
        cases hx
        exact ⟨rfl, rfl⟩
    obtain ⟨he, rfl⟩ := hsame
    exact ⟨fun hfree => ⟨hfree.1.later he le_rfl, hfree.2.later he rfl⟩,
      fun _ hheld => hheld.later he le_rfl rfl⟩
  env := by
    intro v w tr
    have hle : w.clock ≤ (w.move v).clock := monotonic.env_le v w
    have hstate : (w.move v).state = w.state := by cases v <;> rfl
    exact ⟨fun hfree => ⟨hfree.1.later rfl hle, hfree.2.later rfl hstate⟩,
      fun _ hheld => hheld.later rfl hle hstate⟩

end Flight

/-! ## Runs -/

section Runs

variable {ι : Type} [DecidableEq ι] {clock : ℚ} {answer : Outcome}
  {tr tr₁ tr₂ : List (Entry process ι)} {c c₁ : Config process ι Outcome}

omit [DecidableEq ι] in
theorem start_obeys (i : ι) : Obeys (Keeps P) (Returns P) [] ((P.start ι clock answer).procs i) :=
  reachable_obeys

theorem released_held (l : Log process) (s : Stmt) (hk : Keeps P l s)
    (hr : probeLock.releases s = true) : probeLock.holding l = true := by
  cases s <;> cases hr
  exact hk.1

/-- Attempts are apart, whoever holds the lock. -/
theorem run_apart (h : Run (P.start ι clock answer) tr c) : Apart P tr c.world := by
  have hprotected := h.resource (flight P ι) start_obeys (fun _ => released_held) rfl
    ⟨⟨.nil, nofun⟩, nofun⟩
  have hex := h.exclusive (L := probeLock) start_obeys (fun _ => released_held) rfl
  by_cases hl : probeLock.locked c.world = true
  · obtain ⟨i, hi⟩ := hex.held hl
    exact (hprotected.held i hi).toApart
  · exact (hprotected.free (by simpa using hl)).1

/-- **A flood of callers connects at a bounded rate**: in any part of any run, the attempts are at
most one more than the times the time to live fits into what it takes. -/
theorem connections_bounded (h₁ : Run (P.start ι clock answer) tr₁ c₁) (h₂ : Run c₁ tr₂ c) :
    ((tr₂.filter connects).length : ℚ) ≤
      1 + (c.world.clock - c₁.world.clock) / P.ttlSeconds :=
  h₂.rate (T := monotonic) P.ttlSeconds.2 (run_apart (h₁.trans h₂)).apart

/-- Two callers of one database, which answers the first. -/
abbrev asked : Config process Bool Outcome := (database ['d']).start Bool 0 ⟨true, none⟩

/-- The first connects while the second waits for the lock, which then reuses the result. -/
def askedTogether : List (Pick process Bool) :=
  [.call true, .call false, .call true, .call true, .call true, .env (.elapse ⟨1, by decide⟩),
    .call true, .call true, .call true, .call true, .call false, .call false, .call false,
    .call false]

theorem connections_bounded_asked : ∃ tr c, Run asked tr c ∧ (tr.filter connects).length = 1 ∧
    ((tr.filter connects).length : ℚ) ≤
      1 + (c.world.clock - asked.world.clock) / (database ['d']).ttlSeconds := by
  obtain ⟨tr, c, hrun, hone⟩ := exists_run askedTogether asked
    (fun x => (x.1.filter connects).length = 1) (by decide +kernel)
  exact ⟨tr, c, hrun, hone, connections_bounded .nil hrun⟩

variable (P) in
/-- The caller kept this result of its own attempt. -/
structure KeptBy (tr : List (Entry process ι)) (j : ι) (x : ProbeState) : Prop where
  stored : ⟨.store x, ()⟩ ∈ own j tr
  target : x.target = some P.target
  found : Found P (own j tr) x.result

theorem Found.mono {l' : Log process} {r : Outcome} (h : Found P l r) (hs : l <:+ l') :
    Found P l' r :=
  h.imp_left (hs.subset ·)

theorem KeptBy.mono {j : ι} {x : ProbeState} (h : KeptBy P tr₁ j x) (hs : tr₁ <:+ tr) :
    KeptBy P tr j x :=
  ⟨(own_suffix j hs).subset h.stored, h.target, h.found.mono (own_suffix j hs)⟩

theorem kept_of_store (h : Run (P.start ι clock answer) tr c) {j : ι} {x : ProbeState}
    (hx : ⟨.store x, ()⟩ ∈ own j tr) : KeptBy P tr j x := by
  obtain ⟨w, w', tr', hs⟩ := exists_of_mem_own hx
  obtain ⟨-, htarget, -, hfound⟩ := h.issued start_obeys hs
  exact ⟨hx, htarget, hfound.mono (own_suffix j ((List.suffix_cons ..).trans hs))⟩

theorem eq_of_lastNow {l : Log process} {t : ℚ} (h : lastNow l = some t) :
    ∃ l', l = ⟨.now, t⟩ :: l' := by
  unfold lastNow at h
  split at h
  · cases h
    exact ⟨_, rfl⟩
  · cases h

theorem lastNow_le (h : Run (P.start ι clock answer) tr c) {i : ι} {t : ℚ}
    (hlast : lastNow (own i tr) = some t) : t ≤ c.world.clock := by
  obtain ⟨l, hl⟩ := eq_of_lastNow hlast
  obtain ⟨w, w', tr', hs, -⟩ := exists_of_own_eq hl
  have hnow := h.exec hs
  cases hnow
  exact (h.clock_mem (T := monotonic) (hs.subset List.mem_cons_self)).2

/-- The cache holds what somebody stored, since the time it says. -/
theorem state_kept (h : Run (P.start ι clock answer) tr c) :
    c.world.state.target = none ∨
      c.world.state.monotonicAt ≤ c.world.clock ∧ ∃ j, KeptBy P tr j c.world.state := by
  induction h with
  | nil => exact .inl rfl
  | @cons tr c e c' h hs ih =>
    have hsame : c'.world.state = c.world.state → c'.world.state.target = none ∨
        c'.world.state.monotonicAt ≤ c'.world.clock ∧
          ∃ j, KeptBy P (e :: tr) j c'.world.state := by
      intro hstate
      rw [hstate]
      exact ih.imp_right fun ⟨hle, j, hj⟩ =>
        ⟨hle.trans (hs.clock_le (T := monotonic)), j, hj.mono (List.suffix_cons ..)⟩
    cases hs with
    | env v => exact hsame (by cases v <;> rfl)
    | @call i s k r w hi hx =>
      cases s with
      | store x =>
        have hrun := h.cons (.call hi hx)
        cases hx
        obtain ⟨-, -, hlast, -⟩ := hrun.issued start_obeys List.suffix_rfl
        exact .inr ⟨lastNow_le h hlast, i, kept_of_store hrun (by simp)⟩
      | acquire =>
        obtain ⟨-, rfl⟩ := exec_acquire hx
        exact hsame rfl
      | now | read | release | connect | finish =>
        cases hx
        exact hsame rfl

/-- **A returned result is fresh**: an attempt of some caller found it, and it is the caller's own
attempt, or the caller looked at the clock after it was kept, by less than the time to live. -/
theorem reachable_fresh (h : Run (P.start ι clock answer) tr c) {i : ι} {r : Outcome}
    (hr : (c.procs i).result = some r) :
    ∃ x j, KeptBy P tr j x ∧ x.result = r ∧
      (j = i ∨ ∃ t, ⟨.now, t⟩ ∈ own i tr ∧ x.monotonicAt ≤ t ∧ t < x.monotonicAt + P.ttlSeconds) := by
  rcases h.returned start_obeys (eq_ret_of_result hr) with
    ⟨x, t, l, hreads, htarget, hfresh, hresult⟩ | ⟨x, hstore, -, hresult⟩
  · obtain ⟨w, w', tr₂, hnow, hown⟩ := exists_of_own hreads
    obtain ⟨c₂, _, hrun₂, hlook⟩ := h.entry hnow
    obtain ⟨u, u', tr₁, hread, -⟩ := exists_of_own_eq hown
    obtain ⟨c₁, _, hrun₁, htake⟩ := hrun₂.entry hread
    cases hlook with
    | call _ hclock =>
      cases hclock
      cases htake with
      | call _ hstate =>
        cases hstate
        have hpast := (hrun₂.clock_mem (T := monotonic) (hread.subset List.mem_cons_self)).2
        rcases state_kept hrun₁ with hnone | ⟨hle, j, hj⟩
        · rw [hnone] at htarget
          cases htarget
        · have hsuffix := (List.suffix_cons ..).trans (hread.trans ((List.suffix_cons ..).trans hnow))
          exact ⟨_, j, hj.mono hsuffix, hresult, .inr ⟨_, hreads.subset List.mem_cons_self,
            hle.trans hpast, by linarith⟩⟩
  · exact ⟨x, i, kept_of_store h hstore, hresult, .inl rfl⟩

theorem reachable_fresh_asked : ∃ tr c, Run asked tr c ∧
    (c.procs false).result = some ⟨true, none⟩ ∧ ∃ x j, KeptBy (database ['d']) tr j x ∧
      x.result = ⟨true, none⟩ ∧
      (j = false ∨ ∃ t, ⟨.now, t⟩ ∈ own false tr ∧ x.monotonicAt ≤ t ∧
        t < x.monotonicAt + (database ['d']).ttlSeconds) := by
  obtain ⟨tr, c, hrun, hr⟩ := exists_run askedTogether asked
    (fun x => (x.2.procs false).result = some ⟨true, none⟩) (by decide +kernel)
  exact ⟨tr, c, hrun, hr, reachable_fresh hrun hr⟩

end Runs

end Meridian.Health
