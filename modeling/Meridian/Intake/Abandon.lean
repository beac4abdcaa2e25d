import Meridian.Intake.Locks

/-!
# What abandoning deletes

Any number of calls in any order, of which those that abandon are about one application.

* `kept_run`: the locks hold in every run, and so does what each call has read and deleted.
* **`abandon_spares`**: a step deletes nothing, or it is the commit of an abandoning call and deletes
  the application, with its applicant and the applicant's checks unless another application has it.
  The deletion leaves no decision, event or offer behind. It leaves a loan behind exactly when
  `/board` has inserted one since the call's own probe.
-/

namespace Meridian.Intake

open Python Relational Interleave
open Origination (Outcome)

variable {ι : Type} [DecidableEq ι] {S : Supply} {hmac : Text → Text → Text} {w w' : World ι}

/-! ## What a call's own statements delete -/

section Own

variable {i : ι} {a : Int} {r : Inertness} {t t' : Transaction ι}

theorem within_ok {α : Type} {f : Transaction ι → Option (Except DbError α × World ι)} {v : α}
    (h : w.within i f = some (.ok v, w')) : ∃ t, w.transaction i = some t ∧ f t = some (.ok v, w') := by
  unfold World.within at h
  cases ht : w.transaction i with
  | none =>
    rw [ht] at h
    cases h
  | some t =>
    rw [ht] at h
    exact ⟨t, rfl, h⟩

/-- A session has one transaction. -/
theorem Locked.transaction_eq (hL : Locked w) (ht : w.transaction i = some t)
    (ht' : t' ∈ w.transactions) (hs : t'.session = i) : t' = t := by
  obtain ⟨hsession, hmem⟩ := transaction_session ht
  by_contra hne
  have : Std.Symm fun t t' : Transaction ι => t.session ≠ t'.session := ⟨fun _ _ h => h.symm⟩
  exact hL.sessions.forall ht' hmem hne (hs.trans hsession.symm)

/-- The session's transaction after a statement of it. -/
theorem eq_of_setTransaction {T : Transaction ι} (ht' : t' ∈ (w.setTransaction T).transactions)
    (hs : t'.session = i) (hT : T.session = i) : t' = T := by
  subst hT
  rcases List.mem_cons.mp ht' with heq | hother
  · exact heq
  · exact absurd hs (session_ne hother)

/-- `DELETE FROM applications` -/
theorem deleteApplication_target (hL : Locked w) (hk : Known w a r.applicantId)
    (hstage : ∀ t ∈ w.transactions, t.session = i →
      Stage w a r.applicantId t (connected i a r : Log (intake ι S)))
    (hx : (w.within i fun t => w.deleteApplication t a) = some (.ok (), w'))
    (ht' : t' ∈ w'.transactions) (hs : t'.session = i) :
    Stage w' a r.applicantId t' (deleted i a r : Log (intake ι S)) := by
  obtain ⟨t, ht, hx⟩ := within_ok hx
  obtain ⟨hsession, hmem⟩ := transaction_session ht
  obtain ⟨happs, hkyc, hp⟩ := hstage t hmem hsession
  unfold World.deleteApplication at hx
  split_ifs at hx with hlock happ href
  · cases hx
    obtain rfl := hL.transaction_eq ht ht' hs
    refine ⟨.inr ⟨happs, fun x hx hid => ?_⟩, hkyc, hp⟩
    exact World.application_ne_none.mpr ⟨x, hx, hid⟩ happ
  · cases hx
  · cases hx
    obtain rfl := eq_of_setTransaction ht' hs hsession
    obtain ⟨x, hx, hid⟩ := World.application_ne_none.mp happ
    refine ⟨.inl ⟨by rw [happs], ?_⟩, hkyc, hp⟩
    rcases hk.row with hrow | ⟨hno, -⟩
    · exact hrow
    · exact absurd hid (hno x hx)

/-- `SELECT 1 FROM applications` -/
theorem otherApplication_stage (hL : Locked w) {p : Int} (ho : r.applicantId = some p)
    (hstage : ∀ t ∈ w.transactions, t.session = i →
      Stage w a r.applicantId t (deleted i a r : Log (intake ι S))) {other : Bool}
    (hx : (w.within i fun t => some (.ok (w.otherApplication t p), w)) = some (.ok other, w'))
    (ht' : t' ∈ w'.transactions) (hs : t'.session = i) :
    Stage w' a r.applicantId t' (looked i a r p other : Log (intake ι S)) := by
  obtain ⟨t, ht, hx⟩ := within_ok hx
  cases hx
  obtain rfl := hL.transaction_eq ht ht' hs
  obtain ⟨htarget, hkyc, hp⟩ := hstage t' ht' hs
  cases hother : w.otherApplication t' p with
  | true =>
    refine ⟨htarget, hkyc, hp, fun q hq => ?_⟩
    obtain rfl : q = p := Option.some.inj (hq.symm.trans ho)
    obtain ⟨x, hmem, hsome⟩ := List.any_eq_true.mp hother
    obtain ⟨hxp, hnot⟩ := of_decide_eq_true hsome
    refine ⟨x, hmem, fun hid => ?_, hxp⟩
    rcases htarget with ⟨happs, -⟩ | ⟨-, hno⟩
    · rw [happs, hid] at hnot
      exact hnot (List.mem_singleton_self _)
    · exact hno x hmem hid
  | false =>
    refine ⟨htarget, hkyc, hp, fun q hq x hmem hxp => ?_⟩
    obtain rfl : q = p := Option.some.inj (hq.symm.trans ho)
    by_contra hnot
    have hany : w.otherApplication t' q = true :=
      List.any_eq_true.mpr ⟨x, hmem, decide_eq_true ⟨hxp, hnot⟩⟩
    rw [hother] at hany
    cases hany

/-- `DELETE FROM kyc_checks` -/
theorem deleteKyc_cleared {p : Int} (ho : r.applicantId = some p)
    (hstage : ∀ t ∈ w.transactions, t.session = i →
      Stage w a r.applicantId t (looked i a r p false : Log (intake ι S)))
    (hx : (w.within i fun t => w.deleteKyc t p) = some (.ok (), w'))
    (ht' : t' ∈ w'.transactions) (hs : t'.session = i) :
    Stage w' a r.applicantId t' (cleared i a r p : Log (intake ι S)) := by
  obtain ⟨t, ht, hx⟩ := within_ok hx
  obtain ⟨hsession, hmem⟩ := transaction_session ht
  obtain ⟨htarget, hkyc, hp, halone⟩ := hstage t hmem hsession
  unfold World.deleteKyc at hx
  split_ifs at hx
  cases hx
  obtain rfl := eq_of_setTransaction ht' hs hsession
  refine ⟨htarget, fun id hid => ?_, hp, halone⟩
  dsimp only at hid
  rw [hkyc, List.append_nil] at hid
  obtain ⟨k, hk, rfl⟩ := List.mem_map.mp hid
  obtain ⟨hrow, hkp⟩ := List.mem_filter.mp hk
  refine ⟨w.kycChecks.below k hrow, fun k' hk' hid' => ⟨p, ho, ?_⟩⟩
  rw [w.kycChecks.eq_of_pk hk' hrow hid']
  exact of_decide_eq_true hkp

/-- `DELETE FROM applicants` -/
theorem deleteApplicant_removed (hL : Locked w) {p : Int} (ho : r.applicantId = some p)
    (hstage : ∀ t ∈ w.transactions, t.session = i →
      Stage w a r.applicantId t (cleared i a r p : Log (intake ι S)))
    (hx : (w.within i fun t => w.deleteApplicant t p) = some (.ok (), w'))
    (ht' : t' ∈ w'.transactions) (hs : t'.session = i) :
    Stage w' a r.applicantId t' (removed i a r p : Log (intake ι S)) := by
  obtain ⟨t, ht, hx⟩ := within_ok hx
  obtain ⟨hsession, hmem⟩ := transaction_session ht
  obtain ⟨htarget, hcleared, hp, halone⟩ := hstage t hmem hsession
  unfold World.deleteApplicant at hx
  split_ifs at hx with hlock happ href
  · cases hx
    obtain rfl := hL.transaction_eq ht ht' hs
    refine ⟨htarget, hcleared, fun q hq => .inr ⟨hp, fun y hy hid => ?_⟩, halone⟩
    obtain rfl : q = p := Option.some.inj (hq.symm.trans ho)
    exact World.applicant_ne_none.mpr ⟨y, hy, hid⟩ happ
  · cases hx
  · cases hx
    obtain rfl := eq_of_setTransaction ht' hs hsession
    refine ⟨htarget, hcleared, fun q hq => .inl ?_, halone⟩
    obtain rfl : q = p := Option.some.inj (hq.symm.trans ho)
    dsimp only
    rw [hp]

/-- **The stage follows the statements** of the call. -/
theorem stage_own {l : Log (intake ι S)} {s : Stmt ι} {x : s.Res} (hL : Locked w)
    (hk : ∀ r, ⟨.probe a, some r⟩ ∈ l → Known w a r.applicantId)
    (hstage : ∀ r, ⟨.probe a, some r⟩ ∈ l → ∀ t ∈ w.transactions, t.session = i →
      Stage w a r.applicantId t l)
    (hs : Shape i a l s) (hx : w.exec S s = some (x, w')) (ht' : t' ∈ w'.transactions)
    (hsession : t'.session = i) (hr : ⟨.probe a, some r⟩ ∈ (⟨s, x⟩ :: l : Log (intake ι S))) :
    Stage w' a r.applicantId t' (⟨s, x⟩ :: l) := by
  cases s with
  | connect j =>
    obtain ⟨rfl, r', -, rfl⟩ := hs
    cases hx
    obtain rfl := eq_of_setTransaction ht' hsession rfl
    exact ⟨rfl, rfl, rfl⟩
  | deleteApplication j b =>
    obtain ⟨rfl, rfl, r', -, rfl⟩ := hs
    cases x with
    | error e => trivial
    | ok u =>
      obtain rfl : r = r' := by simpa [connected, probed] using hr
      have hmem : ⟨.probe b, some r⟩ ∈ (connected j b r : Log (intake ι S)) := by
        simp [connected, probed]
      exact deleteApplication_target hL (hk r hmem) (hstage r hmem) hx ht' hsession
  | otherApplication j p =>
    obtain ⟨rfl, r', -, ho, rfl⟩ := hs
    cases x with
    | error e => trivial
    | ok other =>
      obtain rfl : r = r' := by simpa [deleted, connected, probed] using hr
      have hmem : ⟨.probe a, some r⟩ ∈ (deleted j a r : Log (intake ι S)) := by
        simp [deleted, connected, probed]
      exact otherApplication_stage hL ho (hstage r hmem) hx ht' hsession
  | deleteKyc j p =>
    obtain ⟨rfl, r', -, ho, rfl⟩ := hs
    cases x with
    | error e => trivial
    | ok u =>
      obtain rfl : r = r' := by simpa [looked, deleted, connected, probed] using hr
      have hmem : ⟨.probe a, some r⟩ ∈ (looked j a r p false : Log (intake ι S)) := by
        simp [looked, deleted, connected, probed]
      exact deleteKyc_cleared ho (hstage r hmem) hx ht' hsession
  | deleteApplicant j p =>
    obtain ⟨rfl, r', -, ho, rfl⟩ := hs
    cases x with
    | error e => trivial
    | ok u =>
      obtain rfl : r = r' := by simpa [cleared, looked, deleted, connected, probed] using hr
      have hmem : ⟨.probe a, some r⟩ ∈ (cleared j a r p : Log (intake ι S)) := by
        simp [cleared, looked, deleted, connected, probed]
      exact deleteApplicant_removed hL ho (hstage r hmem) hx ht' hsession
  | _ => trivial

end Own

/-! ## Every run -/

/-- A statement of a transaction. -/
def Stmt.sessioned : Stmt ι → Bool
  | connect _ | deleteApplication _ _ | otherApplication _ _ | deleteKyc _ _ | deleteApplicant _ _
  | commit _ | rollback _ => true
  | _ => false

/-- What a call keeps to: only abandoning has a transaction, and a loan is boarded by `/board` or
after an approval was read. -/
def Keeps (i : ι) (t : Task) (l : Log (intake ι S)) : Stmt ι → Prop
  | .insertLoan a _ _ _ _ _ => (∃ b, t = .board b ∧ b.appId = a) ∨ Approved a l
  | s => s.sessioned = true → ∃ a, t = .abandon a ∧ Shape i a l s

theorem keeps_free {i : ι} {t : Task} : Free (Keeps (S := S) i t) := by
  intro l s hs
  cases s with
  | insertLoan => cases hs
  | connect | deleteApplication | otherApplication | deleteKyc | deleteApplicant | commit
    | rollback => cases hs
  | _ =>
    intro h
    cases h

/-- **Every call keeps to it.** -/
theorem task_keeps (i : ι) (t : Task) :
    (t.prog hmac i).Obeys (Keeps i t) (Ended hmac t) ([] : Log (intake ι S)) := by
  refine task_obeys i t keeps_free (fun _ _ _ _ _ _ _ => ?_) (fun _ _ _ _ => ?_)
    (fun _ _ _ _ _ _ _ h => h) (fun _ _ _ _ => ?_) fun appId l s ht h => ?_
  · rintro ⟨⟩
  · rintro ⟨⟩
  · rintro ⟨⟩
  · cases s with
    | insertLoan => cases h
    | _ => exact fun _ => ⟨appId, ht, h⟩

section Runs

variable {i : ι} {a : Int} {r : Inertness} {T : Transaction ι} {task : Task} {tasks : ι → Task}
  {w₀ : World ι} {tr tr' : List (Entry (intake ι S) ι)} {c : Interleave.Config (intake ι S) ι Answer}

/-- The locks, and what each call has read and deleted. -/
structure Kept (a : Int) (tr : List (Entry (intake ι S) ι)) (w : World ι) : Prop where
  locked : Locked w
  known : ∀ i r, ⟨.probe a, some r⟩ ∈ own i tr → Known w a r.applicantId
  stage : ∀ i r, ⟨.probe a, some r⟩ ∈ own i tr → ∀ t ∈ w.transactions, t.session = i →
    Stage w a r.applicantId t (own i tr)

omit [DecidableEq ι] in
theorem whole_probe [DecidableEq ι] {l : Log (intake ι S)} (h : Whole i a r l) :
    ⟨.probe a, some r⟩ ∈ l := by
  unfold Whole at h
  split at h
  · subst h
    simp [deleted, connected, probed]
  · rcases h with rfl | rfl <;> simp [removed, cleared, looked, deleted, connected, probed]

/-- A call commits what it has wholly deleted. -/
theorem Keeps.commit {j : ι} {l : Log (intake ι S)} (h : Keeps i task l (.commit j))
    (htask : ∀ b, task = .abandon b → b = a) : j = i ∧ ∃ r, r.Inert ∧ Whole i a r l := by
  obtain ⟨b, hb, hshape⟩ := h rfl
  obtain rfl := htask b hb
  exact hshape

/-- The commit of a call. -/
theorem Kept.commit (hK : Kept a tr w) (hwhole : Whole i a r (own i tr))
    (ht : w.transaction i = some T) :
    (Deletes a w (w.apply T) ∨ Spares w (w.apply T)) ∧ ∀ b ∈ T.applications, b = a := by
  obtain ⟨hsession, hmem⟩ := transaction_session ht
  have hprobe := whole_probe hwhole
  have hstage := hK.stage i r hprobe T hmem hsession
  exact ⟨commit_outcome hK.locked hmem (hK.known i r hprobe) hstage hwhole,
    only_of_whole hstage hwhole⟩

/-- What a statement of session `i` leaves of the other sessions' transactions. -/
structure Passes (i : ι) (a : Int) (w w' : World ι) : Prop where
  transactions : ∀ t ∈ w'.transactions, t.session ≠ i → t ∈ w.transactions
  carries : ∀ o, Known w a o → ∀ t ∈ w'.transactions, t.session ≠ i → Carries w w' a o t
  known : ∀ o, Known w a o → Known w' a o

omit [DecidableEq ι] in
theorem Growth.passes (hg : Growth w w') : Passes i a w w' where
  transactions _ ht _ := hg.transactions.subset ht
  carries _ hk _ _ _ := hg.carries hk
  known _ hk := hk.growth hg

omit [DecidableEq ι] in
theorem passes_of_transactions {ts : List (Transaction ι)}
    (hs : ∀ t ∈ ts, t.session ≠ i → t ∈ w.transactions) :
    Passes i a w { w with transactions := ts } where
  transactions := hs
  carries _ _ _ _ _ := ⟨id, id, id, id, id⟩
  known _ hk := ⟨hk.old, hk.oldApplicant, hk.row⟩

/-- **A statement of a call passes by the other transactions.** -/
theorem Kept.passes (hK : Kept a tr w) {s : Stmt ι} {x : s.Res} (h : Effect w ⟨s, x⟩ w')
    (hs : Keeps i task (own i tr) s) (htask : ∀ b, task = .abandon b → b = a) :
    Passes i a w w' := by
  rcases h.trichotomy with hg | ⟨ts, hm, rfl⟩ | ⟨j, T, ht, hx, rfl⟩
  · exact hg.passes
  · refine passes_of_transactions fun t ht hne => ?_
    have own : ∀ {j : ι} {t' : Transaction ι}, t ∈ t' :: w.others j → j = i → t'.session = j →
        t ∈ w.transactions := by
      rintro j t' hmem rfl hsession
      rcases List.mem_cons.mp hmem with rfl | hmem
      · exact absurd hsession hne
      · exact mem_others hmem
    cases hm with
    | connect j =>
      obtain ⟨b, -, hj, -⟩ := hs rfl
      exact own ht hj rfl
    | rollback j => exact mem_others ht
    | application hT =>
      obtain ⟨b, -, hj, -⟩ := hs rfl
      exact own ht hj (transaction_session hT).1
    | kyc hT =>
      obtain ⟨b, -, hj, -⟩ := hs rfl
      exact own ht hj (transaction_session hT).1
    | applicant hT =>
      obtain ⟨b, -, hj, -⟩ := hs rfl
      exact own ht hj (transaction_session hT).1
  · cases hx
    obtain ⟨rfl, r, -, hwhole⟩ := hs.commit htask
    obtain ⟨hout, honly⟩ := hK.commit hwhole ht
    have hother : ∀ {t}, t ∈ (w.apply T).transactions → t ∈ w.others j := by
      intro t hmem
      have hmem : t ∈ w.others T.session := hmem
      rwa [(transaction_session ht).1] at hmem
    refine ⟨fun t hmem _ => mem_others (hother hmem), fun o _ t hmem _ => ?_,
      fun o hk => hk.apply hout⟩
    exact apply_carries (fun b hb => hK.locked.not_mem ht hb (hother hmem)) honly

/-- What a call has read since still holds. -/
theorem Kept.known_call (hK : Kept a tr w) (hp : Passes i a w w') {s : Stmt ι} {x : s.Res}
    (hx : w.exec S s = some (x, w')) (j : ι) (r : Inertness)
    (hr : ⟨.probe a, some r⟩ ∈ own j (.call i s x w w' :: tr)) : Known w' a r.applicantId := by
  rw [own_call] at hr
  split at hr
  · rcases List.mem_cons.mp hr with heq | hr
    · cases heq
      obtain ⟨hread, rfl⟩ := Prod.mk.inj (Option.some.inj hx)
      exact known_of_probe hK.locked hread
    · exact hp.known _ (hK.known j r hr)
  · exact hp.known _ (hK.known j r hr)

theorem Kept.call (hK : Kept a tr w) {s : Stmt ι} {x : s.Res} (hs : Keeps i task (own i tr) s)
    (htask : ∀ b, task = .abandon b → b = a) (hx : w.exec S s = some (x, w')) :
    Kept a (.call i s x w w' :: tr) w' := by
  have heffect := exec_effect hx
  have hp := hK.passes heffect hs htask
  refine ⟨hK.locked.step heffect, hK.known_call hp hx, fun j r hr t ht hsession => ?_⟩
  by_cases hij : i = j
  · subst hij
    rw [own_call_self] at hr ⊢
    by_cases hsess : s.sessioned = true
    · have hshape : Shape i a (own i tr) s := by
        cases s with
        | insertLoan => cases hsess
        | _ =>
          obtain ⟨b, hb, hshape⟩ := hs hsess
          rwa [htask b hb] at hshape
      exact stage_own hK.locked (hK.known i) (hK.stage i) hshape hx ht hsession hr
    · cases s with
      | connect | deleteApplication | otherApplication | deleteKyc | deleteApplicant =>
        exact absurd rfl hsess
      | _ => trivial
  · rw [own_call_ne hij] at hr ⊢
    have hne : t.session ≠ i := by
      rw [hsession]
      exact Ne.symm hij
    have hmem := hp.transactions t ht hne
    exact (hK.stage j r hr t hmem hsession).carry (hp.carries _ (hK.known j r hr) t ht hne)

/-- **The locks hold in every run**, and so does what each call has read and deleted. -/
theorem kept_run (htasks : ∀ i b, tasks i = .abandon b → b = a) (h0 : Locked w₀)
    (h : Run (start S hmac tasks w₀) tr c) : Kept a tr c.world := by
  refine Run.invariant (φ := fun i => Keeps i (tasks i)) (Q := fun i => Ended hmac (tasks i))
    (C := fun _ _ => True) (I := Kept a) (fun i => task_keeps i (tasks i)) ?_ ?_ ?_ h (along_true tr)
  · refine ⟨h0, fun i r hr => ?_, fun i r hr => ?_⟩ <;> cases hr
  · rintro tr c i s x w - hK hs hx -
    exact hK.call hs (htasks i) hx
  · rintro tr c e - hK -
    have hg := env_growth e c.world
    refine ⟨hK.locked.env e, fun i r hr => (hK.known i r hr).growth hg, fun i r hr t ht hsession => ?_⟩
    have hmem := hg.transactions.subset ht
    exact (hK.stage i r hr t hmem hsession).carry (hg.carries (hK.known i r hr))

/-! ## What a deletion leaves behind -/

/-- No row of the three tables is gone. -/
structure Intact (w w' : World ι) : Prop where
  applications : ∀ x ∈ w.applications.rows,
    ∃ x' ∈ w'.applications.rows, x'.id = x.id ∧ x'.applicantId = x.applicantId
  applicants : ∀ q ∈ w.applicants.rows, q ∈ w'.applicants.rows
  kycChecks : ∀ k ∈ w.kycChecks.rows, k ∈ w'.kycChecks.rows

omit [DecidableEq ι] in
theorem Growth.intact (h : Growth w w') : Intact w w' := ⟨h.kept, h.applicants, h.kyc⟩

omit [DecidableEq ι] in
theorem Spares.intact (h : Spares w w') : Intact w w' where
  applications x hx := ⟨x, by rwa [h.1], rfl, rfl⟩
  applicants q hq := by rwa [h.2.1]
  kycChecks k hk := by rwa [h.2.2]

/-- Who commits a deletion has deleted the application. -/
theorem deleting_of_deletes (h : Deletes a w (w.apply T)) (ht : w.transaction i = some T) :
    w.Deleting a := by
  obtain ⟨x, hx, rfl, happs, -⟩ := h
  refine ⟨T, (transaction_session ht).2, ?_⟩
  by_contra hnot
  have hmem : x ∈ (w.apply T).applications.rows := List.mem_filter.mpr ⟨hx, by simpa using hnot⟩
  rw [happs] at hmem
  exact of_decide_eq_true (List.mem_filter.mp hmem).2 rfl

def Stmt.isProbe : Stmt ι → Bool
  | probe _ => true
  | _ => false

/-- The step inserts a loan for the application. -/
def InsertsLoan (a : Int) : Entry (intake ι S) ι → Prop
  | .call _ (.insertLoan b _ _ _ _ _) (.ok _) _ _ => b = a
  | _ => False

/-- A call of `/board` has inserted a loan for the application. -/
def BoardedDirectly (tasks : ι → Task) (a : Int) (seg : List (Entry (intake ι S) ι)) : Prop :=
  ∃ j b name p ap nr m loanId w w', tasks j = .board b ∧
    .call j (.insertLoan a name p ap nr m) (.ok loanId) w w' ∈ seg

omit [DecidableEq ι] in
theorem not_boarded {r : Inertness} (h : w.inertness a = some r) (hr : r.Inert) : ¬ w.Boarded a := by
  unfold World.inertness at h
  obtain ⟨x, -, rfl⟩ := Option.map_eq_some_iff.mp h
  rintro ⟨l, hl, hid⟩
  have hnil := List.eq_nil_of_length_eq_zero hr.2.2
  exact List.filter_eq_nil_iff.mp hnil l hl (decide_eq_true hid)

/-- A loan is there when it was, or when the step inserts it. -/
theorem boarded_step {c c' : Interleave.Config (intake ι S) ι Answer} {e : Entry (intake ι S) ι}
    (h : Step c e c') : c'.world.Boarded a ↔ InsertsLoan a e ∨ c.world.Boarded a := by
  cases h with
  | env v =>
    have hsame : (World.env v c.world).loans = c.world.loans := (env_quiet v c.world).loans
    constructor
    · rintro ⟨l, hl, hid⟩
      rw [show ((intake ι S).env v c.world).loans = c.world.loans from hsame] at hl
      exact .inr ⟨l, hl, hid⟩
    · rintro (hins | ⟨l, hl, hid⟩)
      · exact hins.elim
      refine ⟨l, ?_, hid⟩
      rwa [show ((intake ι S).env v c.world).loans = c.world.loans from hsame]
  | @call i s k x w hi hx =>
    have heffect := exec_effect hx
    constructor
    · rintro ⟨l, hl, hid⟩
      rcases heffect.loans with hrows | ⟨b, n, p, ap, nr, m, heq, hrows⟩
      · rw [advance_world, hrows] at hl
        exact .inr ⟨l, hl, hid⟩
      · rw [advance_world, hrows] at hl
        rcases List.mem_cons.mp hl with rfl | hl
        · cases heq
          exact .inl (Option.some.inj hid)
        · exact .inr ⟨l, hl, hid⟩
    · rintro (hins | ⟨l, hl, hid⟩)
      · cases s with
        | insertLoan b n p ap nr m =>
          cases x with
          | error e => cases hins
          | ok loanId =>
            obtain rfl : b = a := hins
            refine ⟨⟨loanId, some b, n, p, ap, nr, m⟩, ?_, rfl⟩
            rw [advance_world, insertLoan_ok (Option.some.inj hx)]
            exact List.mem_cons_self
        | _ => cases hins
      · exact ⟨l, heffect.kept_loan hl, hid⟩

/-- The log of a call that commits has one probe. -/
theorem whole_isProbe {l : Log (intake ι S)} (h : Whole i a r l) :
    ∀ x ∈ l, x.1.isProbe = true → x = ⟨.probe a, some r⟩ := by
  unfold Whole at h
  split at h
  · subst h
    simp [deleted, connected, probed, Stmt.isProbe]
  · rcases h with rfl | rfl <;>
      simp [removed, cleared, looked, deleted, connected, probed, Stmt.isProbe]

/-- **A loan that is there when the call commits was inserted since its probe.** -/
theorem boarded_since (h : Run (start S hmac tasks w₀) tr c) (hr : r.Inert)
    (hwhole : Whole i a r (own i tr)) :
    c.world.Boarded a ↔ ∃ e ∈ after i Stmt.isProbe tr, InsertsLoan a e := by
  refine Run.window (P := fun seg (w : World ι) => w.Boarded a ↔ ∃ e ∈ seg, InsertsLoan a e) h
    ⟨_, whole_probe hwhole, rfl⟩ ?_ ?_
  · intro x hx hp v v' hexec
    obtain rfl := whole_isProbe hwhole x hx hp
    obtain ⟨hread, rfl⟩ := Prod.mk.inj (Option.some.inj hexec)
    refine iff_of_false (not_boarded hread hr) ?_
    rintro ⟨e, he, -⟩
    cases he
  · intro seg e c c' hstep ih
    rw [boarded_step hstep, ih]
    simp

/-- An approval that was read is a decision from then on. -/
theorem Approved.decided (h : Run (start S hmac tasks w₀) tr c) (happ : Approved a (own i tr)) :
    (c.world.decisions a).isSome = true := by
  obtain ⟨v, hv, hout⟩ := happ
  refine h.established (P := fun w : World ι => (w.decisions a).isSome = true) hv ?_ ?_ ?_
  · intro v v' hx
    obtain ⟨hread, rfl⟩ := Prod.mk.inj (Option.some.inj hx)
    obtain ⟨row, -, rfl⟩ := Option.map_eq_some_iff.mp hread
    have hout : v.decisions a = some .approve := hout
    rw [hout]
    rfl
  · intro s v x v' hd hx
    exact (exec_effect hx).kept_decision hd
  · intro e v hd
    rwa [show ((intake ι S).env e v).decisions = v.decisions from (env_quiet e v).decisions]

/-- A loan that was inserted for an undecided application was inserted by `/board`. -/
theorem boarded_directly (h : Run (start S hmac tasks w₀) tr c)
    (hundecided : (c.world.decisions a).isSome = false) {seg : List (Entry (intake ι S) ι)}
    (hseg : seg <+: tr) :
    (∃ e ∈ seg, InsertsLoan a e) ↔ BoardedDirectly tasks a seg := by
  constructor
  · rintro ⟨e, he, hins⟩
    obtain ⟨front, tr', rfl⟩ := List.append_of_mem (hseg.subset he)
    have hs : e :: tr' <:+ front ++ e :: tr' := ⟨front, rfl⟩
    cases e with
    | env v w w' => exact hins.elim
    | call j s x w w' =>
      cases s with
      | insertLoan b n p ap nr m =>
        cases x with
        | error e => exact hins.elim
        | ok loanId =>
          obtain rfl : b = a := hins
          rcases h.issued (fun i => task_keeps i (tasks i)) hs with ⟨body, htask, -⟩ | happ
          · exact ⟨j, body, n, p, ap, nr, m, loanId, w, w', htask, he⟩
          · have hlater : Approved b (own j (front ++ .call j (.insertLoan b n p ap nr m)
                (.ok loanId) w w' :: tr')) := by
              obtain ⟨v, hv, hout⟩ := happ
              obtain ⟨v₁, v₂, tr'', hsuf⟩ := exists_of_mem_own hv
              exact ⟨v, mem_own_of_suffix (hsuf.trans ((List.suffix_cons _ _).trans hs)), hout⟩
            rw [hlater.decided h] at hundecided
            cases hundecided
      | _ => exact hins.elim
  · rintro ⟨j, b, n, p, ap, nr, m, loanId, w, w', -, he⟩
    exact ⟨_, he, rfl⟩

/-- **Abandoning spares what is live, but for the loans of `/board`**: a step deletes no row, or it is
the commit of an abandoning call and deletes the application with its unshared applicant and that
applicant's checks; then no decision, event or offer refers to the application, and a loan does
exactly when `/board` has inserted one since the call's probe. -/
theorem abandon_spares (S : Supply) (hmac : Text → Text → Text) {tasks : ι → Task} {a : Int}
    (htasks : ∀ i b, tasks i = .abandon b → b = a) {w₀ : World ι} (h0 : Locked w₀)
    {tr : List (Entry (intake ι S) ι)} {c : Interleave.Config (intake ι S) ι Answer}
    (h : Run (start S hmac tasks w₀) tr c) {e : Entry (intake ι S) ι}
    {tr' : List (Entry (intake ι S) ι)} (hs : e :: tr' <:+ tr) :
    Intact e.pre e.post ∨ ∃ i, tasks i = .abandon a ∧
      e = .call i (.commit i) (.ok ()) e.pre e.post ∧ Deletes a e.pre e.post ∧
      ¬ World.Referenced e.pre a ∧
      (World.Boarded e.pre a ↔ BoardedDirectly tasks a (after i Stmt.isProbe tr')) := by
  obtain ⟨c₁, c₂, h₁, hst⟩ := h.entry hs
  cases hst with
  | env v => exact .inl (env_growth v c₁.world).intact
  | @call i s k x w hi hx =>
    rcases (exec_effect hx).trichotomy with hg | ⟨ts, hm, rfl⟩ | ⟨j, T, ht, heq, rfl⟩
    · exact .inl hg.intact
    · exact .inl ⟨fun y hy => ⟨y, hy, rfl, rfl⟩, fun q hq => hq, fun q hq => hq⟩
    · cases heq
      have hK := kept_run htasks h0 h₁
      have hissued := h.issued (fun i => task_keeps i (tasks i)) hs
      obtain ⟨b, htask, -⟩ := hissued rfl
      obtain rfl := htasks i b htask
      obtain ⟨rfl, r, hr, hwhole⟩ := hissued.commit (htasks i)
      rcases (hK.commit hwhole ht).1 with hdel | hspares
      · have hfree : ¬ c₁.world.Referenced b :=
          fun href => hK.locked.free b href (deleting_of_deletes hdel ht)
        have hundecided : (c₁.world.decisions b).isSome = false := by
          by_contra hdec
          exact hfree (.inl (by rwa [Bool.not_eq_false] at hdec))
        refine .inr ⟨j, htask, rfl, hdel, hfree, ?_⟩
        exact (boarded_since h₁ hr hwhole).trans
          (boarded_directly h₁ hundecided (after_isPrefix _ _ _))
      · exact .inl hspares.intact

end Runs

/-! ## A boarded application that is abandoned -/

omit [DecidableEq ι] in
theorem locked_initial (config : Config) : Locked (World.initial config : World ι) where
  application x hx := by cases hx
  kyc k hk := by cases hk
  free a _ := by
    rintro ⟨t, ht, -⟩
    cases ht
  sessions := .nil
  apart t ht := by cases ht
  closed t ht := by cases ht

/-- An application is submitted and abandoned, and boarded by hand. -/
def abandonAndBoard : Call → Task
  | .first => .submit sampleApplication
  | .second => .abandon 1
  | .third => .board ⟨1, "Ann".toList, .ofRat 1000, .ofRat 7.99, 12⟩
  | .fourth => .cipCheck (some 1)

theorem abandonAndBoard_abandon (i : Call) (b : Int) (h : abandonAndBoard i = .abandon b) : b = 1 := by
  cases i <;> cases h
  rfl

/-- Nothing happens to the application between the probe and the commit. -/
def abandonedInPeace : List (Pick (intake Call sampleSupply) Call) :=
  List.replicate 4 (.call .first) ++ [.call .fourth] ++ List.replicate 7 (.call .second)

/-- The application is there before the last step of the history and gone after it. -/
def GoneLast (a : Int) : List (Entry (intake Call sampleSupply) Call) → Bool
  | [] => false
  | e :: _ => (World.application e.pre a).isSome && (World.application e.post a).isNone

theorem abandon_spares_sample : ∃ tr c e tr',
    Run (start sampleSupply sampleHmac abandonAndBoard (.initial sampleConfig)) tr c ∧
    e :: tr' <:+ tr ∧ Deletes 1 e.pre e.post ∧ ¬ World.Referenced e.pre 1 := by
  obtain ⟨tr, c, hrun, hgone⟩ := exists_run abandonedInPeace
    (start sampleSupply sampleHmac abandonAndBoard (.initial sampleConfig))
    (fun x => GoneLast 1 x.1 = true) (by decide +kernel)
  cases tr with
  | nil => cases hgone
  | cons e tr' =>
    obtain ⟨hthere, hgone⟩ := Bool.and_eq_true_iff.mp hgone
    rcases abandon_spares sampleSupply sampleHmac abandonAndBoard_abandon
      (locked_initial sampleConfig) hrun (List.suffix_refl _) with hintact | ⟨i, -, -, hdel, href, -⟩
    · obtain ⟨x, hx⟩ := Option.isSome_iff_exists.mp hthere
      obtain ⟨hmem, hid⟩ := World.application_eq.mp hx
      obtain ⟨x', hmem', hid', -⟩ := hintact.applications x hmem
      have hno := Option.isNone_iff_eq_none.mp hgone
      exact absurd hno (World.application_ne_none.mpr ⟨x', hmem', hid'.trans hid⟩)
    · exact ⟨_, c, e, tr', hrun, List.suffix_refl _, hdel, href⟩

/-- `/board` inserts the loan between the probe and the deletion. -/
def boardedInBetween : List (Pick (intake Call sampleSupply) Call) :=
  List.replicate 4 (.call .first) ++ [.call .second] ++ List.replicate 2 (.call .third) ++
    List.replicate 6 (.call .second)

/-- **A boarded application is deleted.** -/
theorem boarded_is_abandoned : ∃ tr c e tr',
    Run (start sampleSupply sampleHmac abandonAndBoard (.initial sampleConfig)) tr c ∧
    e :: tr' <:+ tr ∧ World.application e.pre 1 ≠ none ∧ World.application e.post 1 = none ∧
    World.Boarded e.pre 1 := by
  obtain ⟨tr, c, hrun, hgone, hloan⟩ := exists_run boardedInBetween
    (start sampleSupply sampleHmac abandonAndBoard (.initial sampleConfig))
    (fun x => GoneLast 1 x.1 = true ∧ ∀ e ∈ x.1.head?, World.Boarded e.pre 1) (by decide +kernel)
  cases tr with
  | nil => cases hgone
  | cons e tr' =>
    obtain ⟨hthere, hgone⟩ := Bool.and_eq_true_iff.mp hgone
    refine ⟨_, c, e, tr', hrun, List.suffix_refl _, ?_, ?_, hloan e rfl⟩
    · exact Option.isSome_iff_ne_none.mp hthere
    · exact Option.isNone_iff_eq_none.mp hgone

end Meridian.Intake
