import Meridian.Intake.Discipline

/-!
# What an open transaction has deleted

`Locked` is what the foreign keys and the locks of the open transactions keep true of the tables;
`Stage` is what a transaction of `abandon_application` has deleted, by the statement its session
issued last.

* `Effect.trichotomy`: only a commit deletes a row; any other step lets the rows grow, or moves a
  transaction on.
* `Locked.step`: `Locked` holds after every step.
* **`commit_outcome`**: a commit deletes all the call is there to delete, or nothing.
-/

namespace Meridian.Intake

open Relational Interleave
open Origination (Outcome)

variable {ι : Type} {w w' : World ι}

/-- The foreign keys to `applicants`, and what the open transactions rest on. -/
structure Locked (w : World ι) : Prop where
  application : ∀ x ∈ w.applications.rows, ∀ p, x.applicantId = some p →
    ∃ q ∈ w.applicants.rows, q.id = p
  kyc : ∀ k ∈ w.kycChecks.rows, ∀ p, k.applicantId = some p → ∃ q ∈ w.applicants.rows, q.id = p
  /-- nobody deletes what is referred to -/
  free : ∀ a, w.Referenced a → ¬ w.Deleting a
  sessions : w.transactions.Pairwise fun t t' => t.session ≠ t'.session
  /-- an application is deleted by one transaction -/
  apart : ∀ t ∈ w.transactions, ∀ t' ∈ w.transactions, ∀ a, a ∈ t.applications →
    a ∈ t'.applications → t = t'
  /-- who deletes an applicant deletes all that refers to it -/
  closed : ∀ t ∈ w.transactions, ∀ p ∈ t.applicants, p < w.applicants.next ∧
    (∀ x ∈ w.applications.rows, x.applicantId = some p → x.id ∈ t.applications) ∧
    ∀ k ∈ w.kycChecks.rows, k.applicantId = some p → k.id ∈ t.kycChecks

/-- A step that deletes nothing: every row stays, and a new one has a new key. -/
structure Growth (w w' : World ι) : Prop where
  kept : ∀ x ∈ w.applications.rows,
    ∃ x' ∈ w'.applications.rows, x'.id = x.id ∧ x'.applicantId = x.applicantId
  came : ∀ x' ∈ w'.applications.rows,
    (∃ x ∈ w.applications.rows, x.id = x'.id ∧ x.applicantId = x'.applicantId) ∨
    (x'.id = w.applications.next ∧ x'.applicantId = some w.applicants.next ∧
      ∃ q ∈ w'.applicants.rows, q.id = w.applicants.next)
  applicants : ∀ q ∈ w.applicants.rows, q ∈ w'.applicants.rows
  newApplicant : ∀ q ∈ w'.applicants.rows, q ∈ w.applicants.rows ∨ q.id = w.applicants.next
  kyc : ∀ k ∈ w.kycChecks.rows, k ∈ w'.kycChecks.rows
  newKyc : ∀ k ∈ w'.kycChecks.rows, k ∈ w.kycChecks.rows ∨ k.id = w.kycChecks.next ∧
    ∀ p, k.applicantId = some p → (∃ q ∈ w.applicants.rows, q.id = p) ∧
      ∀ t ∈ w.transactions, p ∉ t.applicants
  next : w.applications.next ≤ w'.applications.next ∧ w.applicants.next ≤ w'.applicants.next ∧
    w.kycChecks.next ≤ w'.kycChecks.next
  transactions : w'.transactions.Sublist w.transactions

variable [DecidableEq ι] {S : Supply} {x : Answered ι}

omit [DecidableEq ι] in
theorem growth_of_eq (happ : w'.applications = w.applications) (hp : w'.applicants = w.applicants)
    (hk : w'.kycChecks.rows = w.kycChecks.rows) (hn : w.kycChecks.next ≤ w'.kycChecks.next)
    (ht : w'.transactions.Sublist w.transactions) : Growth w w' where
  kept x hx := ⟨x, by rwa [happ], rfl, rfl⟩
  came x hx := .inl ⟨x, by rwa [← happ], rfl, rfl⟩
  applicants q hq := by rwa [hp]
  newApplicant q hq := .inl (by rwa [← hp])
  kyc k h := by rwa [hk]
  newKyc k h := .inl (by rwa [← hk])
  next := ⟨by rw [happ], by rw [hp], hn⟩
  transactions := ht

/-- **Only a commit deletes**: any other step lets the rows grow, or moves a transaction on. -/
theorem Effect.trichotomy (h : Effect w x w') : Growth w w' ∨
    (∃ ts, Moved w x ts ∧ w' = { w with transactions := ts }) ∨
    ∃ i t, w.transaction i = some t ∧ x = ⟨.commit i, .ok ()⟩ ∧ w' = w.apply t := by
  cases h with
  | submit name amount termMonths token expiresAt =>
    left
    have hp := insertNext_rows w.applicants (fun id => ⟨id, name⟩) fun _ => rfl
    have ha := insertNext_rows w.applications (fun id =>
      ⟨id, some w.applicants.next, amount, termMonths, submitted, some token, some expiresAt⟩)
      fun _ => rfl
    unfold World.insertApplication
    refine ⟨?_, ?_, ?_, ?_, fun k hk => hk, fun k hk => .inl hk, ?_, .refl _⟩
    · intro x hx
      dsimp only
      rw [ha.1]
      exact ⟨x, List.mem_cons_of_mem _ hx, rfl, rfl⟩
    · intro x hx
      dsimp only at hx ⊢
      rw [ha.1] at hx
      rw [hp.1]
      rcases List.mem_cons.mp hx with rfl | hx
      · exact .inr ⟨rfl, rfl, _, List.mem_cons_self, rfl⟩
      · exact .inl ⟨x, hx, rfl, rfl⟩
    · intro q hq
      dsimp only
      rw [hp.1]
      exact List.mem_cons_of_mem _ hq
    · intro q hq
      dsimp only at hq
      rw [hp.1] at hq
      rcases List.mem_cons.mp hq with rfl | hq
      · exact .inr rfl
      · exact .inl hq
    · dsimp only
      rw [ha.2, hp.2]
      omega
  | @fund appId _ =>
    left
    have hrow : ∀ x : ApplicationRow, (World.fundRow appId x).id = x.id ∧
        (World.fundRow appId x).applicantId = x.applicantId := by
      intro x
      rcases fundRow_eq appId x with heq | ⟨-, heq⟩ <;> rw [heq] <;> exact ⟨rfl, rfl⟩
    refine ⟨?_, ?_, fun q hq => hq, fun q hq => .inl hq, fun k hk => hk, fun k hk => .inl hk, ?_,
      .refl _⟩
    · intro x hx
      exact ⟨_, List.mem_map_of_mem hx, hrow x⟩
    · intro x' hx'
      obtain ⟨x, hx, rfl⟩ := List.mem_map.mp hx'
      exact .inl ⟨x, hx, (hrow x).1.symm, (hrow x).2.symm⟩
    · exact ⟨le_rfl, le_rfl, le_rfl⟩
  | @check p hfree happ t ht =>
    left
    refine ⟨fun x hx => ⟨x, hx, rfl, rfl⟩, fun x hx => .inl ⟨x, hx, rfl, rfl⟩, fun q hq => hq,
      fun q hq => .inl hq, ?_, ?_, ?_, .refl _⟩
    · intro k hk
      dsimp only
      rw [ht.1]
      exact List.mem_cons_of_mem _ hk
    · intro k hk
      dsimp only at hk
      rw [ht.1] at hk
      rcases List.mem_cons.mp hk with rfl | hk
      · exact .inr ⟨rfl, fun q hq => ⟨World.applicant_ne_none.mp (happ q hq), hfree q hq⟩⟩
      · exact .inl hk
    · dsimp only
      rw [ht.2]
      omega
  | unchecked => exact .inl (growth_of_eq rfl rfl rfl (by simp) (.refl _))
  | move h => exact .inr (.inl ⟨_, h, rfl⟩)
  | commit ht => exact .inr (.inr ⟨_, _, ht, rfl, rfl⟩)
  | _ => exact .inl (growth_of_eq rfl rfl rfl le_rfl (.refl _))

omit [DecidableEq ι] in
theorem Locked.growth (hL : Locked w) (hg : Growth w w')
    (hfree : ∀ a, w'.Referenced a → ¬ w'.Deleting a) : Locked w' where
  application x' hx' p hp := by
    rcases hg.came x' hx' with ⟨x, hx, -, hsame⟩ | ⟨-, hnew, hq⟩
    · obtain ⟨q, hq, hid⟩ := hL.application x hx p (hsame.trans hp)
      exact ⟨q, hg.applicants q hq, hid⟩
    · rw [hnew] at hp
      cases hp
      exact hq
  kyc k hk p hp := by
    rcases hg.newKyc k hk with hk | ⟨-, hnew⟩
    · obtain ⟨q, hq, hid⟩ := hL.kyc k hk p hp
      exact ⟨q, hg.applicants q hq, hid⟩
    · obtain ⟨⟨q, hq, hid⟩, -⟩ := hnew p hp
      exact ⟨q, hg.applicants q hq, hid⟩
  free := hfree
  sessions := hL.sessions.sublist hg.transactions
  apart t ht t' ht' := hL.apart t (hg.transactions.subset ht) t' (hg.transactions.subset ht')
  closed t ht p hp := by
    have ht := hg.transactions.subset ht
    obtain ⟨hlt, happ, hkyc⟩ := hL.closed t ht p hp
    refine ⟨lt_of_lt_of_le hlt hg.next.2.1, ?_, ?_⟩
    · intro x' hx' hxp
      rcases hg.came x' hx' with ⟨x, hx, hid, hsame⟩ | ⟨-, hnew, -⟩
      · rw [← hid]
        exact happ x hx (hsame.trans hxp)
      · rw [hnew] at hxp
        cases hxp
        exact absurd hlt (lt_irrefl _)
    · intro k hk hkp
      rcases hg.newKyc k hk with hk | ⟨-, hnew⟩
      · exact hkyc k hk hkp
      · exact absurd hp ((hnew p hkp).2 t ht)

theorem session_ne {i : ι} {t : Transaction ι} (h : t ∈ w.others i) : t.session ≠ i :=
  of_decide_eq_true (List.mem_filter.mp h).2

/-- A transaction that stays open in the place of its session's last one. -/
theorem Locked.move (hL : Locked w) {i : ι} {t' : Transaction ι} (hsession : t'.session = i)
    (hfree : ∀ a, w.Referenced a → a ∉ t'.applications)
    (hold : ∀ a ∈ t'.applications, ∀ t ∈ w.others i, a ∉ t.applications)
    (hclosed : ∀ p ∈ t'.applicants, p < w.applicants.next ∧
      (∀ x ∈ w.applications.rows, x.applicantId = some p → x.id ∈ t'.applications) ∧
      ∀ k ∈ w.kycChecks.rows, k.applicantId = some p → k.id ∈ t'.kycChecks) :
    Locked { w with transactions := t' :: w.others i } where
  application := hL.application
  kyc := hL.kyc
  free a hr := by
    rintro ⟨t, ht, ha⟩
    rcases List.mem_cons.mp ht with rfl | ht
    · exact hfree a hr ha
    · exact hL.free a hr ⟨t, mem_others ht, ha⟩
  sessions := by
    refine List.pairwise_cons.mpr ⟨fun t ht => ?_, hL.sessions.sublist List.filter_sublist⟩
    rw [hsession]
    exact (session_ne ht).symm
  apart t₁ h₁ t₂ h₂ a ha₁ ha₂ := by
    rcases List.mem_cons.mp h₁ with rfl | hother₁
    · rcases List.mem_cons.mp h₂ with rfl | hother₂
      · rfl
      · exact absurd ha₂ (hold a ha₁ t₂ hother₂)
    · rcases List.mem_cons.mp h₂ with rfl | hother₂
      · exact absurd ha₁ (hold a ha₂ t₁ hother₁)
      · exact hL.apart t₁ (mem_others hother₁) t₂ (mem_others hother₂) a ha₁ ha₂
  closed t ht := by
    rcases List.mem_cons.mp ht with rfl | ht
    · exact hclosed
    · exact hL.closed t (mem_others ht)

/-- Another transaction has deleted none of a transaction's applications. -/
theorem Locked.not_mem (hL : Locked w) {i : ι} {t t' : Transaction ι} {a : Int}
    (ht : w.transaction i = some t) (ha : a ∈ t.applications) (ht' : t' ∈ w.others i) :
    a ∉ t'.applications := by
  intro ha'
  obtain ⟨hsession, hmem⟩ := transaction_session ht
  obtain rfl := hL.apart t hmem t' (mem_others ht') a ha ha'
  exact session_ne ht' hsession

theorem Locked.not_referenced (hL : Locked w) {i : ι} {t : Transaction ι} {a : Int}
    (ht : w.transaction i = some t) (hr : w.Referenced a) : a ∉ t.applications :=
  fun ha => hL.free a hr ⟨t, (transaction_session ht).2, ha⟩

theorem Locked.moved (hL : Locked w) {ts : List (Transaction ι)} (h : Moved w x ts) :
    Locked { w with transactions := ts } := by
  cases h with
  | connect i =>
    refine hL.move rfl (fun _ _ h => ?_) (fun _ h => ?_) fun _ h => ?_ <;> cases h
  | rollback i =>
    exact hL.growth (growth_of_eq rfl rfl rfl le_rfl List.filter_sublist)
      fun a hr ⟨t, ht, ha⟩ => hL.free a hr ⟨t, mem_others ht, ha⟩
  | @application i a t ht hfree happ href =>
    have hsession := transaction_session ht
    refine hL.move hsession.1 ?_ ?_ ?_
    · rintro b hr hb
      rcases List.mem_cons.mp hb with rfl | hb
      · exact href hr
      · exact hL.not_referenced ht hr hb
    · rintro b hb t' ht'
      rcases List.mem_cons.mp hb with rfl | hb
      · exact hfree t' ht'
      · exact hL.not_mem ht hb ht'
    · intro p hp
      obtain ⟨hlt, happs, hkyc⟩ := hL.closed t hsession.2 p hp
      exact ⟨hlt, fun x hx hxp => List.mem_cons_of_mem _ (happs x hx hxp), hkyc⟩
  | @kyc i p t ht =>
    have hsession := transaction_session ht
    refine hL.move hsession.1 (fun a hr => show a ∉ t.applications from hL.not_referenced ht hr)
      (fun _ hb _ => hL.not_mem ht hb) ?_
    intro q hq
    obtain ⟨hlt, happs, hkyc⟩ := hL.closed t hsession.2 q hq
    exact ⟨hlt, happs, fun k hk hkp => List.mem_append_right _ (hkyc k hk hkp)⟩
  | @applicant i p t ht happ hother hkyc =>
    have hsession := transaction_session ht
    refine hL.move hsession.1 (fun a hr => show a ∉ t.applications from hL.not_referenced ht hr)
      (fun _ hb _ => hL.not_mem ht hb) ?_
    intro q hq
    rcases List.mem_cons.mp hq with rfl | hq
    · obtain ⟨r, hr, rfl⟩ := World.applicant_ne_none.mp happ
      refine ⟨w.applicants.below r hr, ?_, ?_⟩
      · intro x hx hxp
        by_contra hnot
        have hany : w.otherApplication t r.id = true :=
          List.any_eq_true.mpr ⟨x, hx, decide_eq_true ⟨hxp, hnot⟩⟩
        rw [hother] at hany
        cases hany
      · intro k hk hkp
        exact hkyc k.id (List.mem_map_of_mem (List.mem_filter.mpr ⟨hk, decide_eq_true hkp⟩))
    · exact hL.closed t hsession.2 q hq

/-- What refers to an applicant goes with it. -/
theorem Locked.apply (hL : Locked w) {i : ι} {t : Transaction ι} (ht : w.transaction i = some t) :
    Locked (w.apply t) := by
  obtain ⟨rfl, hmem⟩ := transaction_session ht
  have hkept : ∀ {q : ApplicantRow}, q ∈ w.applicants.rows → q.id ∉ t.applicants →
      q ∈ (w.apply t).applicants.rows := by
    intro q hq hnot
    exact List.mem_filter.mpr ⟨hq, by simpa using hnot⟩
  refine ⟨?_, ?_, ?_, hL.sessions.sublist List.filter_sublist, ?_, ?_⟩
  · intro x hx p hp
    obtain ⟨hx, hnot⟩ := List.mem_filter.mp hx
    obtain ⟨q, hq, rfl⟩ := hL.application x hx p hp
    refine ⟨q, hkept hq fun hdel => ?_, rfl⟩
    have hin := (hL.closed t hmem q.id hdel).2.1 x hx hp
    simp [hin] at hnot
  · intro k hk p hp
    obtain ⟨hk, hnot⟩ := List.mem_filter.mp hk
    obtain ⟨q, hq, rfl⟩ := hL.kyc k hk p hp
    refine ⟨q, hkept hq fun hdel => ?_, rfl⟩
    have hin := (hL.closed t hmem q.id hdel).2.2 k hk hp
    simp [hin] at hnot
  · rintro a hr ⟨t', ht', ha⟩
    exact hL.free a hr ⟨t', mem_others ht', ha⟩
  · intro t₁ h₁ t₂ h₂
    exact hL.apart t₁ (mem_others h₁) t₂ (mem_others h₂)
  · intro t' ht' p hp
    obtain ⟨hlt, happ, hkyc⟩ := hL.closed t' (mem_others ht') p hp
    exact ⟨hlt, fun x hx => happ x (List.mem_filter.mp hx).1,
      fun k hk => hkyc k (List.mem_filter.mp hk).1⟩

/-- **The locks hold after every statement.** -/
theorem Locked.step (hL : Locked w) (h : Effect w x w') : Locked w' := by
  rcases h.trichotomy with hg | ⟨ts, hm, rfl⟩ | ⟨i, t, ht, -, rfl⟩
  · exact hL.growth hg (h.free hL.free)
  · exact hL.moved hm
  · exact hL.apply ht

theorem env_growth (e : Env ι) (w : World ι) : Growth w (w.env e) := by
  have hq := env_quiet e w
  exact growth_of_eq hq.applications hq.applicants (by rw [hq.kycChecks]) (by rw [hq.kycChecks])
    hq.transactions

theorem Locked.env (hL : Locked w) (e : Env ι) : Locked (w.env e) := by
  have hq := env_quiet e w
  refine hL.growth (env_growth e w) ?_
  rintro a hr ⟨t, ht, ha⟩
  unfold World.Referenced at hr
  rw [hq.decisions, hq.events, hq.offers] at hr
  exact hL.free a hr ⟨t, hq.transactions.subset ht, ha⟩

/-! ## What an open transaction has deleted -/

/-- What a call has read of the application with its probe, as the tables have it since. -/
structure Known (w : World ι) (a : Int) (applicantId : Option Int) : Prop where
  old : a < w.applications.next
  oldApplicant : ∀ p, applicantId = some p → p < w.applicants.next
  row : (∃ x ∈ w.applications.rows, x.id = a ∧ x.applicantId = applicantId) ∨
    (∀ x ∈ w.applications.rows, x.id ≠ a) ∧ ∀ p, applicantId = some p →
      (∃ x ∈ w.applications.rows, x.applicantId = some p) ∨
      (∀ q ∈ w.applicants.rows, q.id ≠ p) ∧ ∀ k ∈ w.kycChecks.rows, k.applicantId ≠ some p

/-- The transaction has deleted the application, or it was gone. -/
def Target (w : World ι) (a : Int) (applicantId : Option Int) (t : Transaction ι) : Prop :=
  (t.applications = [a] ∧ ∃ x ∈ w.applications.rows, x.id = a ∧ x.applicantId = applicantId) ∨
    t.applications = [] ∧ ∀ x ∈ w.applications.rows, x.id ≠ a

/-- Another application has the applicant. -/
def Shared (w : World ι) (a : Int) (applicantId : Option Int) : Prop :=
  ∀ p, applicantId = some p → ∃ x ∈ w.applications.rows, x.id ≠ a ∧ x.applicantId = some p

/-- No application has the applicant, besides what the transaction has deleted. -/
def Alone (w : World ι) (applicantId : Option Int) (t : Transaction ι) : Prop :=
  ∀ p, applicantId = some p → ∀ x ∈ w.applications.rows, x.applicantId = some p →
    x.id ∈ t.applications

/-- The checks the transaction has deleted are the applicant's. -/
def Cleared (w : World ι) (applicantId : Option Int) (t : Transaction ι) : Prop :=
  ∀ id ∈ t.kycChecks, id < w.kycChecks.next ∧
    ∀ k ∈ w.kycChecks.rows, k.id = id → ∃ p, applicantId = some p ∧ k.applicantId = some p

/-- The transaction has deleted the applicant, or it was gone. -/
def Removed (w : World ι) (applicantId : Option Int) (t : Transaction ι) : Prop :=
  ∀ p, applicantId = some p →
    t.applicants = [p] ∨ t.applicants = [] ∧ ∀ q ∈ w.applicants.rows, q.id ≠ p

/-- What a transaction has deleted, by the statement its session issued last. -/
def Stage (w : World ι) (a : Int) (o : Option Int) (t : Transaction ι) :
    Log (intake ι S) → Prop
  | ⟨.connect _, _⟩ :: _ => t.applications = [] ∧ t.kycChecks = [] ∧ t.applicants = []
  | ⟨.deleteApplication _ _, .ok _⟩ :: _ => Target w a o t ∧ t.kycChecks = [] ∧ t.applicants = []
  | ⟨.otherApplication _ _, .ok true⟩ :: _ =>
    Target w a o t ∧ t.kycChecks = [] ∧ t.applicants = [] ∧ Shared w a o
  | ⟨.otherApplication _ _, .ok false⟩ :: _ =>
    Target w a o t ∧ t.kycChecks = [] ∧ t.applicants = [] ∧ Alone w o t
  | ⟨.deleteKyc _ _, .ok _⟩ :: _ =>
    Target w a o t ∧ Cleared w o t ∧ t.applicants = [] ∧ Alone w o t
  | ⟨.deleteApplicant _ _, .ok _⟩ :: _ =>
    Target w a o t ∧ Cleared w o t ∧ Removed w o t ∧ Alone w o t
  | _ => True

/-- The parts of a `Stage` that speak of the tables stay true. -/
structure Carries (w w' : World ι) (a : Int) (o : Option Int) (t : Transaction ι) : Prop where
  target : Target w a o t → Target w' a o t
  shared : Shared w a o → Shared w' a o
  alone : Alone w o t → Alone w' o t
  cleared : Cleared w o t → Cleared w' o t
  removed : Removed w o t → Removed w' o t

omit [DecidableEq ι] in
theorem Stage.carry {a : Int} {o : Option Int} {t : Transaction ι} [DecidableEq ι]
    {l : Log (intake ι S)} (h : Stage w a o t l) (hc : Carries w w' a o t) : Stage w' a o t l := by
  unfold Stage at h ⊢
  split at h
  · exact h
  · exact ⟨hc.target h.1, h.2⟩
  · exact ⟨hc.target h.1, h.2.1, h.2.2.1, hc.shared h.2.2.2⟩
  · exact ⟨hc.target h.1, h.2.1, h.2.2.1, hc.alone h.2.2.2⟩
  · exact ⟨hc.target h.1, hc.cleared h.2.1, h.2.2.1, hc.alone h.2.2.2⟩
  · exact ⟨hc.target h.1, hc.cleared h.2.1, hc.removed h.2.2.1, hc.alone h.2.2.2⟩
  · trivial

section Carrying

variable {a : Int} {o : Option Int} {t t' : Transaction ι}

omit [DecidableEq ι] in
/-- A key that was drawn is not drawn again. -/
theorem Growth.absent (hg : Growth w w') (hlt : a < w.applications.next)
    (h : ∀ x ∈ w.applications.rows, x.id ≠ a) : ∀ x ∈ w'.applications.rows, x.id ≠ a := by
  intro x' hx'
  rcases hg.came x' hx' with ⟨x, hx, hid, -⟩ | ⟨hid, -⟩
  · rw [← hid]
    exact h x hx
  · rw [hid]
    exact hlt.ne'

omit [DecidableEq ι] in
theorem Growth.absentApplicant (hg : Growth w w') {p : Int} (hlt : p < w.applicants.next)
    (h : ∀ q ∈ w.applicants.rows, q.id ≠ p) : ∀ q ∈ w'.applicants.rows, q.id ≠ p := by
  intro q hq
  rcases hg.newApplicant q hq with hq | hid
  · exact h q hq
  · rw [hid]
    exact hlt.ne'

omit [DecidableEq ι] in
theorem Growth.carries (hg : Growth w w') (hk : Known w a o) : Carries w w' a o t where
  target := by
    rintro (⟨happs, x, hx, hid, ho⟩ | ⟨happs, hno⟩)
    · obtain ⟨x', hx', hid', ho'⟩ := hg.kept x hx
      exact .inl ⟨happs, x', hx', hid'.trans hid, ho'.trans ho⟩
    · exact .inr ⟨happs, hg.absent hk.old hno⟩
  shared h p hp := by
    obtain ⟨x, hx, hne, hxp⟩ := h p hp
    obtain ⟨x', hx', hid, ho⟩ := hg.kept x hx
    exact ⟨x', hx', hid ▸ hne, ho.trans hxp⟩
  alone h p hp x' hx' hxp := by
    rcases hg.came x' hx' with ⟨x, hx, hid, ho⟩ | ⟨-, hnew, -⟩
    · rw [← hid]
      exact h p hp x hx (ho.trans hxp)
    · rw [hnew] at hxp
      cases hxp
      exact absurd (hk.oldApplicant _ hp) (lt_irrefl _)
  cleared h id hid := by
    obtain ⟨hlt, hall⟩ := h id hid
    refine ⟨lt_of_lt_of_le hlt hg.next.2.2, fun k hkyc hkid => ?_⟩
    rcases hg.newKyc k hkyc with hkyc | ⟨hnew, -⟩
    · exact hall k hkyc hkid
    · rw [← hkid, hnew] at hlt
      exact absurd hlt (lt_irrefl _)
  removed h p hp := by
    rcases h p hp with hone | ⟨hnil, hno⟩
    · exact .inl hone
    · exact .inr ⟨hnil, hg.absentApplicant (hk.oldApplicant p hp) hno⟩

/-- Another transaction's commit, which deletes at most the application. -/
theorem apply_carries (hfree : ∀ b ∈ t.applications, b ∉ t'.applications)
    (honly : ∀ b ∈ t.applications, b = a) : Carries w (w.apply t) a o t' where
  target := by
    rintro (⟨happs, x, hx, hid, ho⟩ | ⟨happs, hno⟩)
    · refine .inl ⟨happs, x, List.mem_filter.mpr ⟨hx, ?_⟩, hid, ho⟩
      have hnot : x.id ∉ t.applications := by
        intro hmem
        refine hfree x.id hmem ?_
        rw [happs, hid]
        exact List.mem_singleton_self _
      simpa using hnot
    · exact .inr ⟨happs, fun x hx => hno x (List.mem_filter.mp hx).1⟩
  shared h p hp := by
    obtain ⟨x, hx, hne, hxp⟩ := h p hp
    refine ⟨x, List.mem_filter.mpr ⟨hx, ?_⟩, hne, hxp⟩
    have hnot : x.id ∉ t.applications := fun hmem => hne (honly x.id hmem)
    simpa using hnot
  alone h p hp x hx := h p hp x (List.mem_filter.mp hx).1
  cleared h id hid := ⟨(h id hid).1, fun k hk => (h id hid).2 k (List.mem_filter.mp hk).1⟩
  removed h p hp := by
    rcases h p hp with hone | ⟨hnil, hno⟩
    · exact .inl hone
    · exact .inr ⟨hnil, fun q hq => hno q (List.mem_filter.mp hq).1⟩

end Carrying

/-! ## What a commit deletes -/

/-- The application is deleted, with its applicant and the applicant's checks unless another
application has the applicant, and nothing else is. -/
def Deletes (a : Int) (w w' : World ι) : Prop :=
  ∃ x ∈ w.applications.rows, x.id = a ∧
    w'.applications.rows = w.applications.rows.filter (fun y => y.id ≠ a) ∧
    ((Shared w a x.applicantId ∧ w'.applicants.rows = w.applicants.rows ∧
        w'.kycChecks.rows = w.kycChecks.rows) ∨
      ∃ p, x.applicantId = some p ∧
        (∀ y ∈ w.applications.rows, y.applicantId = some p → y.id = a) ∧
        w'.applicants.rows = w.applicants.rows.filter (fun q => q.id ≠ p) ∧
        w'.kycChecks.rows = w.kycChecks.rows.filter fun k => k.applicantId ≠ some p)

/-- No row of the three tables is deleted. -/
def Spares (w w' : World ι) : Prop :=
  w'.applications.rows = w.applications.rows ∧ w'.applicants.rows = w.applicants.rows ∧
    w'.kycChecks.rows = w.kycChecks.rows

section Commits

variable {a : Int} {i : ι} {t : Transaction ι} {r : Inertness} {l : Log (intake ι S)}

/-- A filter that keeps every row. -/
theorem filter_eq_self {α : Type} {rows : List α} {p : α → Bool} (h : ∀ x ∈ rows, p x = true) :
    rows.filter p = rows := List.filter_eq_self.mpr h

theorem apply_applications (happs : t.applications = [a]) :
    (w.apply t).applications.rows = w.applications.rows.filter fun y => y.id ≠ a := by
  unfold World.apply
  rw [Relational.Serial.delete_rows, happs]
  refine List.filter_congr fun y _ => ?_
  simp

theorem apply_none (happs : t.applications = []) :
    (w.apply t).applications.rows = w.applications.rows := by
  unfold World.apply
  rw [Relational.Serial.delete_rows, happs]
  exact filter_eq_self fun y _ => by simp

theorem apply_kept (hkyc : t.kycChecks = []) (hp : t.applicants = []) :
    (w.apply t).applicants.rows = w.applicants.rows ∧
      (w.apply t).kycChecks.rows = w.kycChecks.rows := by
  unfold World.apply
  rw [Relational.Serial.delete_rows, Relational.Serial.delete_rows, hkyc, hp]
  exact ⟨filter_eq_self fun q _ => by simp, filter_eq_self fun k _ => by simp⟩

/-- A commit that deletes no applicant. -/
theorem outcome_of_kept {o : Option Int} (htarget : Target w a o t) (hkyc : t.kycChecks = [])
    (hp : t.applicants = []) (hshared : Shared w a o) :
    Deletes a w (w.apply t) ∨ Spares w (w.apply t) := by
  obtain ⟨happlicants, hchecks⟩ := apply_kept (w := w) hkyc hp
  rcases htarget with ⟨happs, x, hx, rfl, rfl⟩ | ⟨happs, -⟩
  · exact .inl ⟨x, hx, rfl, apply_applications happs, .inl ⟨hshared, happlicants, hchecks⟩⟩
  · exact .inr ⟨apply_none happs, happlicants, hchecks⟩

/-- A commit that deletes the applicant. -/
theorem outcome_of_removed (hL : Locked w) (ht : t ∈ w.transactions) {p : Int}
    (hk : Known w a (some p)) (htarget : Target w a (some p) t) (hcleared : Cleared w (some p) t)
    (hremoved : Removed w (some p) t) (halone : Alone w (some p) t) :
    Deletes a w (w.apply t) ∨ Spares w (w.apply t) := by
  rcases htarget with ⟨happs, x, hx, rfl, hxp⟩ | ⟨happs, hno⟩
  · left
    have hone : t.applicants = [p] := by
      rcases hremoved p rfl with hone | ⟨-, hno⟩
      · exact hone
      · obtain ⟨q, hq, hid⟩ := hL.application x hx p hxp
        exact absurd hid (hno q hq)
    have hchecks : ∀ k ∈ w.kycChecks.rows, k.id ∈ t.kycChecks ↔ k.applicantId = some p := by
      intro k hkyc
      constructor
      · intro hmem
        obtain ⟨q, hq, hkq⟩ := (hcleared k.id hmem).2 k hkyc rfl
        cases hq
        exact hkq
      · intro hkp
        exact (hL.closed t ht p (by rw [hone]; exact List.mem_singleton_self _)).2.2 k hkyc hkp
    refine ⟨x, hx, rfl, apply_applications happs, .inr ⟨p, hxp, ?_, ?_, ?_⟩⟩
    · intro y hy hyp
      have hmem := halone p rfl y hy hyp
      rw [happs] at hmem
      exact List.mem_singleton.mp hmem
    · unfold World.apply
      rw [Relational.Serial.delete_rows, hone]
      refine List.filter_congr fun q _ => ?_
      simp
    · unfold World.apply
      rw [Relational.Serial.delete_rows]
      refine List.filter_congr fun k hkyc => ?_
      simp [hchecks k hkyc]
  · right
    have hgone : (∀ q ∈ w.applicants.rows, q.id ≠ p) ∧
        ∀ k ∈ w.kycChecks.rows, k.applicantId ≠ some p := by
      rcases hk.row with ⟨x, hx, hid, -⟩ | ⟨-, hall⟩
      · exact absurd hid (hno x hx)
      · rcases hall p rfl with ⟨x, hx, hxp⟩ | hgone
        · have hmem := halone p rfl x hx hxp
          rw [happs] at hmem
          cases hmem
        · exact hgone
    refine ⟨apply_none happs, ?_, ?_⟩
    · unfold World.apply
      rw [Relational.Serial.delete_rows]
      refine filter_eq_self fun q hq => ?_
      have hnot : q.id ∉ t.applicants := by
        rcases hremoved p rfl with hone | ⟨hnil, -⟩
        · rw [hone, List.mem_singleton]
          exact hgone.1 q hq
        · rw [hnil]
          exact List.not_mem_nil
      simpa using hnot
    · unfold World.apply
      rw [Relational.Serial.delete_rows]
      refine filter_eq_self fun k hkyc => ?_
      have hnot : k.id ∉ t.kycChecks := by
        intro hmem
        obtain ⟨q, hq, hkq⟩ := (hcleared k.id hmem).2 k hkyc rfl
        cases hq
        exact hgone.2 k hkyc hkq
      simpa using hnot

/-- **A commit deletes all it is there to delete, or nothing.** -/
theorem commit_outcome (hL : Locked w) (ht : t ∈ w.transactions) (hk : Known w a r.applicantId)
    (hstage : Stage w a r.applicantId t l) (hwhole : Whole i a r l) :
    Deletes a w (w.apply t) ∨ Spares w (w.apply t) := by
  unfold Whole at hwhole
  cases hp : r.applicantId with
  | none =>
    rw [hp] at hwhole hstage
    subst hwhole
    obtain ⟨htarget, hkyc, happlicants⟩ := hstage
    exact outcome_of_kept htarget hkyc happlicants fun p hp => by cases hp
  | some p =>
    rw [hp] at hwhole hstage hk
    rcases hwhole with rfl | rfl
    · obtain ⟨htarget, hkyc, happlicants, hshared⟩ := hstage
      exact outcome_of_kept htarget hkyc happlicants hshared
    · obtain ⟨htarget, hcleared, hremoved, halone⟩ := hstage
      exact outcome_of_removed hL ht hk htarget hcleared hremoved halone

/-- A transaction that may be committed deletes at most the application. -/
theorem only_of_whole (hstage : Stage w a r.applicantId t l) (hwhole : Whole i a r l) :
    ∀ b ∈ t.applications, b = a := by
  have htarget : Target w a r.applicantId t := by
    unfold Whole at hwhole
    split at hwhole
    · subst hwhole
      exact hstage.1
    · rcases hwhole with rfl | rfl
      · exact hstage.1
      · exact hstage.1
  rintro b hb
  rcases htarget with ⟨happs, -⟩ | ⟨happs, -⟩
  · rw [happs] at hb
    exact List.mem_singleton.mp hb
  · rw [happs] at hb
    cases hb

end Commits

/-! ## What a call knows -/

section Knowing

variable {a : Int} {o : Option Int}

omit [DecidableEq ι] in
theorem Known.growth (hk : Known w a o) (hg : Growth w w') : Known w' a o where
  old := lt_of_lt_of_le hk.old hg.next.1
  oldApplicant p hp := lt_of_lt_of_le (hk.oldApplicant p hp) hg.next.2.1
  row := by
    rcases hk.row with ⟨x, hx, hid, ho⟩ | ⟨hno, hall⟩
    · obtain ⟨x', hx', hid', ho'⟩ := hg.kept x hx
      exact .inl ⟨x', hx', hid'.trans hid, ho'.trans ho⟩
    · refine .inr ⟨hg.absent hk.old hno, fun p hp => ?_⟩
      rcases hall p hp with ⟨x, hx, hxp⟩ | ⟨hgone, hchecks⟩
      · obtain ⟨x', hx', -, ho'⟩ := hg.kept x hx
        exact .inl ⟨x', hx', ho'.trans hxp⟩
      · refine .inr ⟨hg.absentApplicant (hk.oldApplicant p hp) hgone, fun k hkyc hkp => ?_⟩
        rcases hg.newKyc k hkyc with hkyc | ⟨-, hnew⟩
        · exact hchecks k hkyc hkp
        · obtain ⟨⟨q, hq, hid⟩, -⟩ := hnew p hkp
          exact hgone q hq hid

theorem Known.apply (hk : Known w a o) {t : Transaction ι}
    (hout : Deletes a w (w.apply t) ∨ Spares w (w.apply t)) : Known (w.apply t) a o where
  old := hk.old
  oldApplicant := hk.oldApplicant
  row := by
    rcases hout with ⟨x, hx, rfl, happs, hrest⟩ | ⟨happs, happlicants, hchecks⟩
    · have ho : x.applicantId = o := by
        rcases hk.row with ⟨y, hy, hid, ho⟩ | ⟨hno, -⟩
        · rw [w.applications.eq_of_pk hx hy hid.symm]
          exact ho
        · exact absurd rfl (hno x hx)
      right
      constructor
      · intro y hy
        rw [happs] at hy
        exact of_decide_eq_true (List.mem_filter.mp hy).2
      · intro p hp
        rcases hrest with ⟨hshared, -, -⟩ | ⟨q, hq, -, happlicants, hchecks⟩
        · left
          obtain ⟨y, hy, hne, hyp⟩ := hshared p (ho.trans hp)
          refine ⟨y, ?_, hyp⟩
          rw [happs]
          exact List.mem_filter.mpr ⟨hy, decide_eq_true hne⟩
        · right
          obtain rfl : q = p := Option.some.inj (hq.symm.trans (ho.trans hp))
          rw [happlicants, hchecks]
          exact ⟨fun y hy => of_decide_eq_true (List.mem_filter.mp hy).2,
            fun k hk => of_decide_eq_true (List.mem_filter.mp hk).2⟩
    · rw [happs, happlicants, hchecks]
      exact hk.row

omit [DecidableEq ι] in
theorem known_of_probe (hL : Locked w) {r : Inertness} (h : w.inertness a = some r) :
    Known w a r.applicantId := by
  unfold World.inertness at h
  obtain ⟨x, hx, rfl⟩ := Option.map_eq_some_iff.mp h
  obtain ⟨hmem, rfl⟩ := World.application_eq.mp hx
  refine ⟨w.applications.below x hmem, fun p hp => ?_, .inl ⟨x, hmem, rfl, rfl⟩⟩
  obtain ⟨q, hq, rfl⟩ := hL.application x hmem p hp
  exact w.applicants.below q hq

end Knowing

end Meridian.Intake
