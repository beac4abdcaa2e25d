import Meridian.Ledger.Discipline
import Meridian.Ledger.Effects

/-!
# One payment per idempotency key

The runs of any family of calls in both services, with any crashes and any passage of time.

* `key_released`: a step that takes a key from its row takes it from an expired row that is
  `failed`, `settled`, `returned`, or `captured` with an application row.
* `key_safety`: one row per key, and a second row under a key only after such a step.
* `claim_outcome`: what `claim_or_branch` answers is what it did to the table.
-/

namespace Meridian.Ledger

open Python Relational Interleave

variable {ι : Type} [DecidableEq ι]

/-- The payment `id` holds the key. -/
def Holds (w : World) (key : Text) (id : Int) : Prop :=
  ∃ p ∈ w.payments.rows, p.id = id ∧ p.key = some key

/-- The row may lose its key: it expired, and either its status ends the intent or it is `captured`
with an application row. -/
def Releasable (w : World) (p : Payment) : Prop :=
  w.expired p = true ∧
    (p.status = .failed ∨ p.status = .settled ∨ p.status = .returned ∨
      p.status = .captured ∧ w.Applied p.id)

/-- The step adds the row. -/
def Inserts (e : Entry ledger ι) (p : Payment) : Prop :=
  p ∈ e.post.payments.rows ∧ ∀ q ∈ e.pre.payments.rows, q.id ≠ p.id

/-! ## Keys -/

theorem releasable_of_retires {w : World} {key : Text} {p : Payment} (h : w.retires key p = true) :
    Releasable w p := by
  simp only [World.retires, Bool.and_eq_true, Bool.or_eq_true, decide_eq_true_eq] at h
  obtain ⟨⟨⟨-, hexp⟩, hst⟩, happ⟩ := h
  refine ⟨hexp, ?_⟩
  cases hs : p.status with
  | failed | settled | returned => simp
  | captured => simpa [hs] using happ
  | processing | submitted | capturedUnapplied | other => simp [hs, Status.retirable] at hst

/-- **A key is taken only from a row that may lose it.** -/
theorem key_released {s : Stmt} {r : s.Res} {w w' : World} (h : w.exec s = some (r, w'))
    {p : Payment} (hp : p ∈ w.payments.rows) {key : Text} (hk : p.key = some key)
    (hn : ¬ Holds w' key p.id) : Releasable w p := by
  rcases exec_payments h with ⟨a, -, hrows, -⟩ | ⟨k, -, hrows, -⟩ | ⟨st, id, -, hrows, -⟩ |
    ⟨-, -, hrows, -⟩
  · exact absurd ⟨p, by rw [hrows]; exact List.mem_cons_of_mem _ hp, rfl, hk⟩ hn
  · by_cases hret : w.retires k p = true
    · exact releasable_of_retires hret
    · refine absurd ⟨p, ?_, rfl, hk⟩ hn
      rw [hrows]
      exact List.mem_map.mpr ⟨p, hp, by rw [World.retireRow, if_neg hret]⟩
  · refine absurd ⟨World.finalizeRow st id p, ?_, by simp, by simpa using hk⟩ hn
    rw [hrows]
    exact List.mem_map_of_mem hp
  · exact absurd ⟨p, by rwa [hrows], rfl, hk⟩ hn

theorem env_payments (w : World) (v : Env) : (w.env v).payments = w.payments :=
  (w.env_frame v).2.2.1

/-- `key_released` for a step of a run. -/
theorem step_released {c c' : Config ledger ι Answer} {e : Entry ledger ι} (h : Step c e c')
    {p : Payment} (hp : p ∈ e.pre.payments.rows) {key : Text} (hk : p.key = some key)
    (hn : ¬ Holds e.post key p.id) : Releasable e.pre p := by
  rcases h.cases_on with ⟨i, s, r, -, hx⟩ | ⟨v, -, hv⟩
  · exact key_released hx hp hk hn
  · refine absurd ⟨p, ?_, rfl, hk⟩ hn
    rw [hv]
    exact (env_payments e.pre v).symm ▸ hp

/-- A row is added under a key only while no row holds it. -/
theorem inserts_free {c c' : Config ledger ι Answer} {e : Entry ledger ι} (h : Step c e c')
    {q : Payment} (hq : Inserts e q) {key : Text} (hk : q.key = some key) (id : Int) :
    ¬ Holds e.pre key id := by
  obtain ⟨hmem, hnew⟩ := hq
  rcases h.cases_on with ⟨i, s, r, -, hx⟩ | ⟨v, -, hv⟩
  · rcases exec_payments hx with ⟨a, -, hrows, -, -, hfree⟩ | ⟨k, -, hrows, -⟩ |
      ⟨st, id, -, hrows, -⟩ | ⟨-, -, hrows, -⟩
    · rw [hrows] at hmem
      rcases List.mem_cons.mp hmem with rfl | hmem
      · rintro ⟨p, hp, -, hpk⟩
        exact hfree p hp (hpk.trans hk.symm)
      · exact absurd rfl (hnew q hmem)
    · rw [hrows] at hmem
      obtain ⟨p, hp, rfl⟩ := List.mem_map.mp hmem
      exact absurd (World.retireRow_id _ _ _).symm (hnew p hp)
    · rw [hrows] at hmem
      obtain ⟨p, hp, rfl⟩ := List.mem_map.mp hmem
      exact absurd (World.finalizeRow_id _ _ _).symm (hnew p hp)
    · rw [hrows] at hmem
      exact absurd rfl (hnew q hmem)
  · rw [hv] at hmem
    rw [show (ledger.env v e.pre).payments = _ from env_payments e.pre v] at hmem
    exact absurd rfl (hnew q hmem)

/-- **No second capture under a key while the first is unresolved.** In every reachable state one
row at most holds a key; a step that takes a row's key takes it from a row that expired and ended,
so never from one that is `processing`, `captured_unapplied`, or `captured` and unapplied; and
before a second row is inserted under a key such a step has retired the first. -/
theorem key_safety (d : Deployment) (tasks : ι → Task) (w₀ : World)
    {tr : List (Entry ledger ι)} {c : Config ledger ι Answer}
    (h : Run (start d tasks w₀) tr c) :
    (∀ p ∈ c.world.payments.rows, ∀ q ∈ c.world.payments.rows, ∀ key,
      p.key = some key → q.key = some key → p = q) ∧
    (∀ e tr', e :: tr' <:+ tr → ∀ p ∈ e.pre.payments.rows, ∀ key, p.key = some key →
      ¬ Holds e.post key p.id → Releasable e.pre p) ∧
    (∀ e tr', e :: tr' <:+ tr → ∀ p ∈ e.pre.payments.rows, ∀ key, p.key = some key →
      p.status = .processing ∨ p.status = .capturedUnapplied ∨
        p.status = .captured ∧ ¬ e.pre.Applied p.id → Holds e.post key p.id) ∧
    (∀ tr₁ tr₂ e c₁, tr = e :: (tr₂ ++ tr₁) → Run (start d tasks w₀) tr₁ c₁ → Run c₁ (e :: tr₂) c →
      ∀ key id q, Holds c₁.world key id → Inserts e q → q.key = some key →
        ∃ e' tr', e' :: tr' <:+ tr₂ ∧ ¬ Holds e'.post key id ∧
          ∃ p ∈ e'.pre.payments.rows, p.id = id ∧ p.key = some key ∧ Releasable e'.pre p) := by
  have released : ∀ e tr', e :: tr' <:+ tr → ∀ p ∈ e.pre.payments.rows, ∀ key, p.key = some key →
      ¬ Holds e.post key p.id → Releasable e.pre p := fun e tr' hs p hp key hk hn => by
    obtain ⟨c₁, c₂, -, hst⟩ := h.entry hs
    exact step_released hst hp hk hn
  refine ⟨fun p hp q hq key hpk hqk => ?_, released, fun e tr' hs p hp key hk hst => ?_,
    fun tr₁ tr₂ e c₁ _ _ h₂ key id q hold hins hqk => ?_⟩
  · exact c.world.payments.toTable.eq_of_clash (clashOn_comm _) hp hq
      (clashOn_iff.mpr ⟨key, hpk, hqk⟩)
  · by_contra hn
    obtain ⟨-, hrel⟩ := released e tr' hs p hp key hk hn
    rcases hst with hst | hst | ⟨hst, happ⟩
    · simp [hst] at hrel
    · simp [hst] at hrel
    · simp [hst, happ] at hrel
  · obtain ⟨c₂, h₂, hst⟩ := h₂.uncons
    have hfree := inserts_free hst hins hqk id
    rw [hst.pre_eq] at hfree
    obtain ⟨e', tr', hs, hpre, hpost⟩ := h₂.dropped (P := fun w => Holds w key id) hold hfree
    obtain ⟨c₃, c₄, -, hst'⟩ := h₂.entry hs
    obtain ⟨p, hp, rfl, hpk⟩ := hpre
    exact ⟨e', tr', hs, hpost, p, hp, rfl, hpk, step_released hst' hp hpk hpost⟩

/-- Boarding loan 1, and two charges of one intent at servicing. -/
def chargeTwice : Caller → Task
  | .first => .board none 1000
  | .second => .serviceCharge sampleCharge
  | .third => .serviceCharge sampleCharge

/-- The second charge comes 25 hours later, retires the first one's key and claims it. -/
def reclaimAfterExpiry : List (Pick ledger Caller) :=
  [.call .first, .call .first, .call .second, .call .second, .call .second,
    .env (.tick 90000000000), .call .third, .call .third, .call .third, .call .third]

theorem reclaimed_safe : ∃ tr c, Run (start sampleDeployment chargeTwice World.fresh) tr c ∧
    c.world.payments.rows.length = 2 ∧
    ∀ p ∈ c.world.payments.rows, ∀ q ∈ c.world.payments.rows, ∀ key,
      p.key = some key → q.key = some key → p = q := by
  refine ⟨_, _, run_of_playAll reclaimAfterExpiry (by decide +kernel), by decide +kernel, ?_⟩
  exact (key_safety sampleDeployment chargeTwice World.fresh
    (run_of_playAll reclaimAfterExpiry (by decide +kernel))).1

/-! ## What a claim did to the table -/

/-- The ids of the rows a step adds. -/
def newIds (w w' : World) : List Int :=
  (w'.payments.rows.map Payment.id).filter fun id => !(w.payments.rows.map Payment.id).contains id

/-- The ids of the rows one caller's statements have added. -/
def insertedBy (i : ι) : List (Entry ledger ι) → List Int
  | [] => []
  | .call j _ _ w w' :: tr => if j = i then newIds w w' ++ insertedBy i tr else insertedBy i tr
  | .env _ _ _ :: tr => insertedBy i tr

/-- The row a claim that won inserted. -/
def wonId : Answered → Option Int
  | ⟨.claim _, .ok r⟩ => r
  | _ => none

theorem wonId_eq_some {x : Answered} {id : Int} (h : wonId x = some id) :
    ∃ a, x = ⟨.claim a, .ok (some id)⟩ := by
  unfold wonId at h
  split at h
  · rename_i a r
    exact ⟨a, by rw [h]⟩
  · cases h

theorem newIds_map {w w' : World} {g : Payment → Payment} (hg : ∀ p, (g p).id = p.id)
    (h : w'.payments.rows = w.payments.rows.map g) : newIds w w' = [] := by
  rw [newIds, h, List.map_map, List.filter_eq_nil_iff]
  intro id hid
  obtain ⟨p, hp, rfl⟩ := List.mem_map.mp hid
  simpa [hg] using ⟨p, hp, rfl⟩

theorem newIds_same {w w' : World} (h : w'.payments.rows = w.payments.rows) : newIds w w' = [] :=
  newIds_map (g := id) (fun _ => rfl) (by rw [h, List.map_id])

/-- A statement adds the row of a claim that won, or none. -/
theorem newIds_exec {s : Stmt} {r : s.Res} {w w' : World} (h : w.exec s = some (r, w')) :
    newIds w w' = (wonId ⟨s, r⟩).toList := by
  have hnone : (∀ a id, (⟨s, r⟩ : Answered) ≠ ⟨.claim a, .ok (some id)⟩) →
      wonId ⟨s, r⟩ = none := fun hne => by
    cases hw : wonId ⟨s, r⟩ with
    | none => rfl
    | some id =>
      obtain ⟨a, ha⟩ := wonId_eq_some hw
      exact absurd ha (hne a id)
  rcases exec_payments h with ⟨a, hsr, hrows, -⟩ | ⟨k, rfl, hrows, -⟩ | ⟨st, id, rfl, hrows, -⟩ |
    ⟨hne, -, hrows, -⟩
  · have hfresh : w.payments.next ∉ w.payments.rows.map Payment.id := fun hmem => by
      obtain ⟨p, hp, hid⟩ := List.mem_map.mp hmem
      exact absurd hid (w.payments.below p hp).ne
    rw [hsr]
    simp only [newIds, hrows, List.map_cons, wonId, Option.toList]
    rw [List.filter_cons_of_pos (by simpa using hfresh), List.cons.injEq, List.filter_eq_nil_iff]
    exact ⟨rfl, fun id hid => by simpa using hid⟩
  · exact newIds_map (World.retireRow_id w k) hrows
  · exact newIds_map (World.finalizeRow_id st id) hrows
  · rw [hnone hne, newIds_same hrows]
    rfl

/-- The rows a caller added are those of the claims its own log shows as won. -/
theorem insertedBy_eq {d : Deployment} {tasks : ι → Task} {w₀ : World}
    {tr : List (Entry ledger ι)} {c : Config ledger ι Answer} (h : Run (start d tasks w₀) tr c)
    (i : ι) : insertedBy i tr = (own i tr).filterMap wonId := by
  induction h with
  | nil => rfl
  | @cons tr c e c' h hs ih =>
    cases hs with
    | env v => exact ih
    | @call j s k r w hj hx =>
      have hnew := newIds_exec hx
      rw [own_call, insertedBy]
      split
      · rw [List.filterMap_cons, hnew, ih]
        cases wonId ⟨s, r⟩ <;> rfl
      · exact ih

theorem filterMap_lost {a : Intent} {l : Log ledger} (h : Lost a l) : l.filterMap wonId = [] := by
  rw [List.filterMap_eq_nil_iff]
  intro x hx
  cases hw : wonId x with
  | none => rfl
  | some id =>
    obtain ⟨a', rfl⟩ := wonId_eq_some hw
    obtain ⟨hst, hne⟩ := h _ hx
    rcases hst with hst | hst | hst
    · cases hst
      exact absurd rfl (hne id)
    · cases hst
    · cases hst

/-- **A claim's answer matches the table.** Whatever the other callers do between its statements,
`claim_or_branch` adds exactly one row, the `processing` row of its own key and fingerprint, when
it answers `CLAIMED` with that row's id, and no row otherwise; and it answers `REPLAY` only for a
row it read under its key while that row had its fingerprint and a terminal status. -/
theorem claim_outcome (d : Deployment) (tasks : ι → Task) (w₀ : World)
    {tr : List (Entry ledger ι)} {c : Config ledger ι Answer}
    (h : Run (start d tasks w₀) tr c) {i : ι} {a : Intent} (hi : tasks i = .claimOrBranch a)
    {r : Claim} (hr : c.procs i = .ret (.claim r)) :
    (insertedBy i tr = match r with | .claimed id => [id] | _ => []) ∧
    (∀ id, r = .claimed id → ∃ w w' tr', .call i (.claim a) (.ok (some id)) w w' :: tr' <:+ tr ∧
      ∃ p, Inserts (ι := ι) (.call i (.claim a) (.ok (some id)) w w') p ∧ p.id = id ∧
        p.status = .processing ∧ p.key = some a.key ∧ p.fingerprint = some a.fingerprint) ∧
    (∀ e, r = .replay e → ∃ w w' tr', .call i (.readByKey a.key) (some e) w w' :: tr' <:+ tr ∧
      ∃ p ∈ w.payments.rows, p.id = e.id ∧ p.key = some a.key ∧
        p.fingerprint = some a.fingerprint ∧ p.status = e.status ∧ p.status.terminal = true) := by
  obtain ⟨r', hr', hcl⟩ : ∃ r', Answer.claim r = .claim r' ∧ Claimed a (own i tr) r' := by
    have := h.returned (fun j => task_obeys d (tasks j)) hr
    rwa [hi] at this
  cases hr'
  refine ⟨?_, ?_, ?_⟩
  · rw [insertedBy_eq h]
    cases r with
    | claimed id =>
      obtain ⟨l', hl, hlost⟩ := hcl
      simp [hl, wonId, filterMap_lost hlost]
    | replay e => exact filterMap_lost hcl.1
    | fingerprintMismatch e => exact filterMap_lost hcl.1
    | inFlight e =>
      cases e with
      | none => exact filterMap_lost hcl
      | some e => exact filterMap_lost hcl.1
    | raised e => exact filterMap_lost hcl
  · rintro id rfl
    obtain ⟨l', hl, -⟩ := hcl
    have hwon : ⟨.claim a, .ok (some id)⟩ ∈ own i tr := hl ▸ List.mem_cons_self
    obtain ⟨w, w', tr', hs⟩ := exists_of_mem_own hwon
    obtain ⟨rfl, -, hrows⟩ := exec_claim_won (h.exec hs)
    refine ⟨w, w', tr', hs, a.row w.now w.payments.next, ⟨?_, fun q hq => ?_⟩, rfl, rfl, rfl, rfl⟩
    · exact hrows ▸ List.mem_cons_self
    · exact (w.payments.below q hq).ne
  · rintro e rfl
    obtain ⟨-, hread, hfp, hterm⟩ := hcl
    obtain ⟨w, w', tr', hs⟩ := exists_of_mem_own hread
    obtain ⟨-, p, hp, hk, rfl⟩ := exec_readByKey (h.exec hs)
    exact ⟨w, w', tr', hs, p, hp, rfl, hk, hfp, rfl, hterm⟩

/-- A claim on loan 1 under the key `k`. -/
def sampleIntent : Intent := ⟨1, none, sampleAmount, 1250, ['c', 'a', 'r', 'd'], ['k'], 24, ['f']⟩

/-- Boarding loan 1, and a claim on it. -/
def boardThenClaim : Fin 2 → Task
  | 0 => .board none 1000
  | 1 => .claimOrBranch sampleIntent

theorem claim_inserts : ∃ tr c,
    Run (start sampleDeployment boardThenClaim World.fresh) tr c ∧ insertedBy 1 tr = [1] := by
  refine ⟨_, _, run_of_playAll [.call 0, .call 0, .call 1] (by decide +kernel), ?_⟩
  exact (claim_outcome sampleDeployment boardThenClaim World.fresh
    (run_of_playAll [.call 0, .call 0, .call 1] (by decide +kernel)) rfl
    (r := .claimed 1) (Prog.eq_ret_of_result (by decide +kernel))).1

end Meridian.Ledger
