import Meridian.Clients.Breaker

/-!
# Probes of a downstream that is down

What the answers of `Breaker.lean` mean for an outage.

* `probes_spaced`: while nothing succeeds, the calls let through to a tripped downstream are at least
  30 seconds apart, whatever else is in flight.
* `Out u i tr` is a caller that was let through and has not reported. A half-open breaker has one
  (`out_of_probing`), and while somebody is out it recovers once that call ends.
* `stuck`: a half-open breaker whose calls have all ended was left by one that ended in an exception
  outside `httpx.HTTPError`, and no call is let through ever again.
-/

namespace Meridian.Clients

open Interleave Python

section Outage

variable {ι : Type} {u : Text} {tr old mid : List (Entry process ι)}

/-- Failures before and failures since are failures in a row. -/
theorem failing_append (hfail : ∀ x ∈ reports u mid, x.1 = false) :
    failing u (mid ++ tr) = (reports u mid).length + failing u tr := by
  unfold failing
  rw [reports, List.filterMap_append, List.takeWhile_append_of_pos]
  · rw [List.length_append]
    rfl
  · intro x hx
    simp [hfail x hx]

/-- With somebody let through before, nobody is out only after a report. -/
theorem report_of_not_probing {e : Entry process ι} (he : admits u e = true)
    (hidle : probing u (mid ++ e :: tr) = false) : reports u mid ≠ [] := by
  induction mid with
  | nil =>
    have hnone : report u e = none := by
      unfold admits at he
      split at he
      · rfl
      · cases he
    simp [probing, hnone, he] at hidle
  | cons x mid ih =>
    cases hx : report u x with
    | some y => simp [reports, hx]
    | none =>
      rw [List.cons_append, probing, hx] at hidle
      rw [reports_silent hx]
      exact ih (by simp at hidle; exact hidle.2)

end Outage

section Runs

variable {ι : Type} [DecidableEq ι] {token : Text} {calls : ι → Call} {clock : ℚ}
  {wire : Request → Reply} {tr : List (Entry process ι)} {u : Text}
  {c c₀ : Config process ι (Except Failure Answer)}

theorem step_clock_le {c c' : Config process ι (Except Failure Answer)} {e : Entry process ι}
    (h : Step c e c') : e.pre.clock ≤ e.post.clock := by
  cases h with
  | @call i s k r w hi hx =>
    cases s <;> cases hx <;> exact le_rfl
  | env v =>
    cases v with
    | elapse d => exact le_add_of_nonneg_right d.2
    | rewire f => exact le_rfl

/-- The clock does not go back. -/
theorem clock_le (h : Run c₀ tr c) {e : Entry process ι} (he : e ∈ tr) :
    e.pre.clock ≤ c.world.clock := by
  induction h with
  | nil => cases he
  | cons h hs ih =>
    have hstep := step_clock_le hs
    rcases List.mem_cons.mp he with rfl | he
    · rwa [← hs.post_eq]
    · have hold := ih he
      rw [← hs.pre_eq] at hold
      exact hold.trans (hs.post_eq ▸ hstep)

/-- **Probes are spaced**: once a downstream has failed five times in a row, two calls let through to it
with no success between them are at least the cooldown apart. -/
theorem probes_spaced (h : Run (start token calls clock wire) tr c) {e₁ e₂ : Entry process ι}
    {mid old : List (Entry process ι)} (hs : e₂ :: (mid ++ e₁ :: old) <:+ tr)
    (h₁ : admits u e₁ = true) (h₂ : admits u e₂ = true)
    (hdown : failureThreshold ≤ failing u old) (hfail : ∀ x ∈ reports u mid, x.1 = false) :
    e₁.pre.clock + cooldownSeconds ≤ e₂.pre.clock := by
  obtain ⟨c₁, c₂, hrun, hstep⟩ := h.entry hs
  have hanswer : ByHistory (mid ++ e₁ :: old) e₂ := ((recorded_run h).2.suffix hs).1
  have hfive : failureThreshold ≤ failing u (mid ++ e₁ :: old) := by
    rw [failing_append hfail, failing_silent]
    · omega
    · unfold admits at h₁
      split at h₁
      · rfl
      · cases h₁
  have hpass : Passes u (mid ++ e₁ :: old) e₂.pre.clock := by
    unfold admits at h₂
    split at h₂
    · obtain rfl := of_decide_eq_true h₂
      exact hanswer.mp rfl
    · cases h₂
  rcases hpass with hlow | ⟨hidle, x, hx, hold⟩
  · omega
  · -- the last report was made after the first of the two calls
    have hmid := report_of_not_probing h₁ hidle
    obtain ⟨y, rest, hy⟩ := List.exists_cons_of_ne_nil hmid
    have hxy : x = y := by
      rw [reports, List.filterMap_append, ← reports, hy] at hx
      exact (Option.some.inj hx).symm
    subst hxy
    have hlater : e₁.pre.clock ≤ x.2 := by
      obtain ⟨e, he, hreport⟩ := List.mem_filterMap.mp (hy ▸ List.mem_cons_self : x ∈ reports u mid)
      obtain ⟨a, b, rfl⟩ := List.append_of_mem he
      obtain ⟨c₃, c₄, hrun', hstep'⟩ := hrun.entry (show e :: (b ++ e₁ :: old) <:+ _ from ⟨a, by simp⟩)
      have hle := clock_le hrun' (e := e₁) (by simp)
      rw [← hstep'.pre_eq] at hle
      unfold report at hreport
      split at hreport
      · split at hreport
        · cases hreport
          exact hle
        · cases hreport
      · cases hreport
    linarith

/-- Two calls let through to a tripped downstream, with three steps between them. -/
def probedTwice (u : Text) : List (Entry process ι) → Bool
  | e₂ :: x :: y :: z :: e₁ :: old => admits u e₁ && admits u e₂ &&
    failureThreshold ≤ failing u old && (reports u [x, y, z]).all fun r => !r.1
  | _ => false

theorem probes_spaced_down : ∃ tr c e₁ e₂, Run down tr c ∧ e₁ ∈ tr ∧ e₂ ∈ tr ∧
    admits kycUrl e₁ = true ∧ admits kycUrl e₂ = true ∧
    e₁.pre.clock + cooldownSeconds ≤ e₂.pre.clock := by
  obtain ⟨tr, c, hrun, htwice⟩ := exists_run
    (tripping ++ [.call 5, .call 5, halfMinute, .call 6]) down
    (fun x => probedTwice kycUrl x.1 = true) (by decide +kernel)
  replace htwice : probedTwice kycUrl tr = true := htwice
  unfold probedTwice at htwice
  split at htwice
  · rename_i e₂ x y z e₁ old
    simp only [Bool.and_eq_true, decide_eq_true_eq, List.all_eq_true, Bool.not_eq_true'] at htwice
    obtain ⟨⟨⟨h₁, h₂⟩, hdown⟩, hfail⟩ := htwice
    have hs : e₂ :: ([x, y, z] ++ e₁ :: old) <:+ e₂ :: x :: y :: z :: e₁ :: old := List.suffix_rfl
    exact ⟨_, c, e₁, e₂, hrun, by simp, by simp, h₁, h₂,
      probes_spaced hrun hs h₁ h₂ hdown hfail⟩
  · cases htwice

end Runs

/-! ## Calls that do not come back -/

/-- The caller was let through. -/
def admitted (u : Text) : (s : Stmt) × s.Res := ⟨.beforeCall u, .ok ()⟩

/-- The caller has reported. -/
def told (u : Text) (ok : Bool) : (s : Stmt) × s.Res := ⟨.afterCall u ok, ()⟩

/-- The caller was let through and has not reported. -/
def Out {ι : Type} [DecidableEq ι] (u : Text) (i : ι) (tr : List (Entry process ι)) : Prop :=
  admitted u ∈ own i tr ∧ ∀ ok, told u ok ∉ own i tr

/-- A call asks first, and reports only what was let through. -/
def Disciplined (u : Text) (l : Log process) : Stmt → Prop
  | .beforeCall v => v = u ∧ l = []
  | .afterCall v _ => v = u ∧ admitted u ∈ l
  | .send _ => True

/-- A call that was let through ends with a report, or in an exception outside `httpx.HTTPError`. -/
def Ends {α : Type} (u : Text) (l : Log process) (r : Except Failure α) : Prop :=
  admitted u ∈ l → (∃ ok, told u ok ∈ l) ∨ r = .error .otherError

/-- The statement is a request. -/
def Sends (s : Stmt) : Prop := ∃ q, s = .send q

section Obeying

variable {u : Text}

theorem sent_obeys (q : Request) (l : Log process) :
    Prog.Obeys (fun _ => Sends) (fun l' _ => l <:+ l') l (sent q) := by
  refine ⟨⟨q, rfl⟩, fun r => ?_⟩
  cases r <;> exact List.suffix_cons _ l

theorem withBreaker_obeys (make : Prog process Made)
    (hmake : ∀ l, Prog.Obeys (fun _ => Sends) (fun l' _ => l <:+ l') l make) :
    Prog.Obeys (Disciplined u) (Ends u) [] (withBreaker u make) := by
  refine ⟨⟨rfl, rfl⟩, fun r => ?_⟩
  rcases r with e | ⟨⟩
  · intro hin
    have hsame := List.mem_singleton.mp hin
    cases hsame
  · refine (obeys_bind make _).mpr ((hmake _).mono (fun l s hs => ?_) fun l m hl => ?_)
    · obtain ⟨q, rfl⟩ := hs
      trivial
    · have hin : admitted u ∈ l := hl.subset List.mem_cons_self
      cases m with
      | returned r => exact ⟨⟨rfl, hin⟩, fun _ _ => .inl ⟨_, List.mem_cons_self⟩⟩
      | statusError r => exact ⟨⟨rfl, hin⟩, fun _ _ => .inl ⟨_, List.mem_cons_self⟩⟩
      | httpError => exact ⟨⟨rfl, hin⟩, fun _ _ => .inl ⟨_, List.mem_cons_self⟩⟩
      | otherError => exact fun _ => .inr rfl

/-- What is done with the answer does not hide an exception. -/
theorem Ends.mapped {α β : Type} {l : Log process} {r : Except Failure α} (h : Ends u l r)
    (f : Except Failure α → Except Failure β) (hf : f (.error .otherError) = .error .otherError) :
    Ends u l (f r) := by
  intro hin
  rcases h hin with hreport | rfl
  · exact .inl hreport
  · exact .inr hf

theorem call_obeys (token : Text) (call : Call) :
    Prog.Obeys (Disciplined call.baseUrl) (Ends call.baseUrl) [] (call.prog token) := by
  cases call with
  | post u p v =>
    refine (obeys_bind _ _).mpr ((withBreaker_obeys _ fun l => ?_).mono (fun _ _ h => h)
      fun l r h => h.mapped (fun r => r.bind Response.decode) rfl)
    exact (obeys_bind _ _).mpr ((sent_obeys _ l).mono (fun _ _ h => h) fun _ _ h => h)
  | postRaw u p v =>
    exact (obeys_bind _ _).mpr ((withBreaker_obeys _ (sent_obeys _)).mono (fun _ _ h => h)
      fun l r h => (obeys_ret _).mpr (h.mapped (Except.map Answer.raw) rfl))
  | get u p =>
    exact (obeys_bind _ _).mpr ((withBreaker_obeys _ (sent_obeys _)).mono (fun _ _ h => h)
      fun l r h => (obeys_ret _).mpr (h.mapped (Except.map Answer.raw) rfl))

end Obeying

section Stuck

variable {ι : Type} [DecidableEq ι] {token : Text} {calls : ι → Call} {clock : ℚ}
  {wire : Request → Reply} {tr : List (Entry process ι)} {u : Text}
  {c : Config process ι (Except Failure Answer)}

theorem Out.silent {i : ι} {e : Entry process ι} (h : Out u i tr) (he : report u e = none) :
    Out u i (e :: tr) := by
  cases e with
  | env e w w' => exact h
  | call j s r w w' =>
    unfold Out
    rw [own_call]
    split
    · refine ⟨List.mem_cons_of_mem _ h.1, fun ok hin => ?_⟩
      rcases List.mem_cons.mp hin with hnew | hold
      · cases hnew
        simp [report] at he
      · exact h.2 ok hold
    · exact h

/-- Somebody is out while the history says that somebody was let through since the last report. -/
theorem out_of_probing (h : Run (start token calls clock wire) tr c) (hp : probing u tr = true) :
    ∃ i, Out u i tr := by
  refine Run.invariant (φ := fun i => Disciplined (calls i).baseUrl)
    (Q := fun i => Ends (calls i).baseUrl) (C := fun _ _ => True)
    (I := fun tr _ => probing u tr = true → ∃ i, Out u i tr)
    (fun i => call_obeys token (calls i)) (fun h => absurd h Bool.false_ne_true) ?_ ?_ h
    (along_true tr) hp
  · intro tr c i s r w _ hI hφ _ _ hp
    cases hreport : report u (.call i s r c.world w) with
    | some x => simp [probing, hreport] at hp
    | none =>
      rw [probing_silent hreport, Bool.or_eq_true] at hp
      rcases hp with hadmits | hp
      · unfold admits at hadmits
        split at hadmits
        · rename_i heq
          cases heq
          obtain rfl := of_decide_eq_true hadmits
          refine ⟨i, ?_⟩
          rw [Out, own_call_self, hφ.2]
          refine ⟨List.mem_cons_self, fun ok hin => ?_⟩
          have hsame := List.mem_singleton.mp hin
          cases hsame
        · cases hadmits
      · obtain ⟨j, hj⟩ := hI hp
        exact ⟨j, hj.silent hreport⟩
  · intro tr c e _ hI _ hp
    exact hI hp

/-- A half-open breaker waits for somebody. -/
theorem out_of_halfOpen (h : Run (start token calls clock wire) tr c)
    (hhalf : (c.world.breakers u).state = .halfOpen) : ∃ i, Out u i tr := by
  have hrec := (recorded_run h).1 u
  refine out_of_probing h ?_
  rcases lt_or_ge (failing u tr) failureThreshold with hlow | hhigh
  · rw [(hrec.closed hlow).1] at hhalf
    cases hhalf
  · rw [(hrec.tripped hhigh).2.1] at hhalf
    by_contra hp
    rw [if_neg hp] at hhalf
    cases hhalf

/-- Every call that was let through has ended. -/
def AllBack (u : Text) (tr : List (Entry process ι)) (c : Config process ι (Except Failure Answer)) :
    Prop :=
  ∀ i, admitted u ∈ own i tr → (c.procs i).result.isSome

/-- A half-open breaker whose calls have ended stays as it is for one more step. -/
theorem stuck_step (h : Run (start token calls clock wire) tr c) {e : Entry process ι}
    {c' : Config process ι (Except Failure Answer)} (hs : Step c e c') (hback : AllBack u tr c)
    (hhalf : (c.world.breakers u).state = .halfOpen) :
    (c'.world.breakers u).state = .halfOpen ∧ AllBack u (e :: tr) c' ∧ admits u e = false := by
  cases hs with
  | env v => cases v <;> exact ⟨hhalf, hback, rfl⟩
  | @call i s k r w hi hx =>
    have hrunning : admitted u ∉ own i tr := fun hin => by
      have hsome := hback i hin
      rw [hi] at hsome
      cases hsome
    have hkeep (hnew : admitted u ≠ ⟨s, r⟩) :
        AllBack u (.call i s r c.world w :: tr) (c.advance i (k r) w) := by
      intro j hin
      by_cases hij : i = j
      · subst hij
        rw [own_call_self] at hin
        exact absurd ((List.mem_cons.mp hin).resolve_left hnew) hrunning
      · rw [own_call_ne hij] at hin
        rw [advance_ne (Ne.symm hij)]
        exact hback j hin
    have hdisc := Run.issued (fun i => call_obeys token (calls i)) (h.cons (.call hi hx))
      List.suffix_rfl
    cases s with
    | send q =>
      cases hx
      exact ⟨hhalf, hkeep (fun hsame => by cases hsame), rfl⟩
    | afterCall v ok =>
      obtain ⟨rfl, hin⟩ := hdisc
      cases hx
      have hne : u ≠ (calls i).baseUrl := fun hsame => hrunning (hsame ▸ hin)
      refine ⟨?_, hkeep (fun hsame => by cases hsame), rfl⟩
      rw [advance_world, withBreaker_ne _ hne]
      exact hhalf
    | beforeCall v =>
      obtain ⟨rfl, rfl⟩ := Prod.mk.inj (Option.some.inj hx)
      by_cases huv : u = v
      · subst huv
        have hask : (c.world.breakers u).beforeCall u c.world.clock =
            (.error ⟨"circuit half-open probe in progress for ".toList ++ u⟩,
              c.world.breakers u) := by
          simp [Breaker.beforeCall, hhalf]
        refine ⟨?_, hkeep fun hsame => ?_, ?_⟩
        · rw [advance_world, withBreaker_self, hask]
          exact hhalf
        · rw [hask] at hsame
          cases hsame
        · rw [hask]
          rfl
      · refine ⟨?_, hkeep fun hsame => ?_, admits_ne (Ne.symm huv) _⟩
        · rw [advance_world, withBreaker_ne _ huv]
          exact hhalf
        · exact huv (Stmt.beforeCall.inj (congrArg Sigma.fst hsame))

/-- **A breaker that is left half-open stays so.** Once every call that was let through has ended, a
half-open breaker was left by one that ended in an exception outside `httpx.HTTPError`, and whatever
happens next no call to the downstream is let through. -/
theorem stuck (h : Run (start token calls clock wire) tr c) (hback : AllBack u tr c)
    (hhalf : (c.world.breakers u).state = .halfOpen) :
    (∃ i, Out u i tr ∧ (c.procs i).result = some (.error .otherError)) ∧
    ∀ tr' c', Run c tr' c' → (c'.world.breakers u).state = .halfOpen ∧
      ∀ e ∈ tr', admits u e = false := by
  constructor
  · obtain ⟨i, hout⟩ := out_of_halfOpen h hhalf
    obtain ⟨a, ha⟩ := Option.isSome_iff_exists.mp (hback i hout.1)
    refine ⟨i, hout, ?_⟩
    have hbase : (calls i).baseUrl = u := by
      obtain ⟨w, w', tr', hs⟩ := exists_of_mem_own hout.1
      exact (Run.issued (fun i => call_obeys token (calls i)) h hs).1.symm
    have hends := Run.returned (fun i => call_obeys token (calls i)) h (Prog.eq_ret_of_result ha)
    rw [hbase] at hends
    rcases hends hout.1 with ⟨ok, hin⟩ | rfl
    · exact absurd hin (hout.2 ok)
    · exact ha
  · intro tr' c' hrun
    suffices hall : (c'.world.breakers u).state = .halfOpen ∧ AllBack u (tr' ++ tr) c' ∧
        ∀ e ∈ tr', admits u e = false from ⟨hall.1, hall.2.2⟩
    induction hrun with
    | nil => exact ⟨hhalf, hback, List.forall_mem_nil _⟩
    | cons hrun hs ih =>
      obtain ⟨hhalf', hback', hnone⟩ := ih
      obtain ⟨hhalf'', hback'', hlast⟩ := stuck_step (h.trans hrun) hs hback' hhalf'
      exact ⟨hhalf'', hback'', List.forall_mem_cons.mpr ⟨hlast, hnone⟩⟩

end Stuck

/-- The call that is let through after half a minute runs into an exception of its own. -/
theorem stuck_down : ∃ tr c, Run down tr c ∧ (c.world.breakers kycUrl).state = .halfOpen ∧
    ∀ tr' c', Run c tr' c' → (c'.world.breakers kycUrl).state = .halfOpen ∧
      ∀ e ∈ tr', admits kycUrl e = false := by
  obtain ⟨tr, c, hrun, hback, hasked, hhalf⟩ := exists_run
    (tripping ++ [.env (.rewire fun _ => .otherError), .call 5]) down
    (fun x => (∀ i, i < 6 → (x.2.procs i).result.isSome) ∧
      (∀ i, 6 ≤ i → (own i x.1).length = 0) ∧
      (x.2.world.breakers kycUrl).state = .halfOpen) (by decide +kernel)
  refine ⟨tr, c, hrun, hhalf, (stuck hrun (fun i hin => ?_) hhalf).2⟩
  rcases lt_or_ge i 6 with hlow | hhigh
  · exact hback i hlow
  · exact absurd (List.length_pos_of_mem hin) (by rw [hasked i hhigh]; exact lt_irrefl 0)

end Meridian.Clients
