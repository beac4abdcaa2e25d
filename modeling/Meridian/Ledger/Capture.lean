import Meridian.Ledger.Discipline
import Meridian.Ledger.Effects

/-!
# What a replay says about the balance

`charge` finalizes its row to `captured` before the apply, and downgrades it afterwards when the
apply failed. A replay that reads the row between the two reports money that has not moved
(`replay_unapplied`). Outside that window every replay tells the truth (`replay_truthful`), in any
family of calls of both services, in any order, any of them stopping anywhere.
-/

namespace Meridian.Ledger

open Python Relational Interleave

variable {ι : Type} [DecidableEq ι]

/-! ## Applied payments stay applied -/

theorem applied_exec {s : Stmt} {r : s.Res} {w w' : World} {id : Int} (hw : w.Applied id)
    (h : w.exec s = some (r, w')) : w'.Applied id := by
  obtain ⟨a, ha, hid⟩ := hw
  rcases exec_applications h with ⟨l, p, b, m, -, -, -, hrows⟩ | ⟨-, hsame⟩
  · exact ⟨a, hrows ▸ List.mem_cons_of_mem _ ha, hid⟩
  · exact ⟨a, hsame ▸ ha, hid⟩

theorem applied_env_iff {v : Env} {w : World} {id : Int} :
    (w.env v).Applied id ↔ w.Applied id := by
  unfold World.Applied
  rw [(w.env_frame v).2.2.2]

theorem applied_env {v : Env} {w : World} {id : Int} (hw : w.Applied id) :
    (w.env v).Applied id := applied_env_iff.mpr hw

/-- A statement that does not credit the payment leaves it unapplied. -/
theorem applied_exec_iff {s : Stmt} {r : s.Res} {w w' : World} {id : Int}
    (h : w.exec s = some (r, w')) (hne : ∀ l x, (⟨s, r⟩ : Answered) ≠ ⟨.apply l id, some x⟩) :
    w'.Applied id ↔ w.Applied id := by
  refine ⟨fun ⟨a, ha, hid⟩ => ?_, fun hw => applied_exec hw h⟩
  rcases exec_applications h with ⟨l, p, b, m, hsr, -, -, hrows⟩ | ⟨-, hsame⟩
  · rw [hrows] at ha
    rcases List.mem_cons.mp ha with rfl | ha
    · subst hid
      exact absurd hsr (hne _ _)
    · exact ⟨a, ha, hid⟩
  · exact ⟨a, hsame ▸ ha, hid⟩

/-- An apply that credits leaves its payment applied. -/
theorem applied_of_apply {l id : Int} {x : AppliedRow} {w w' : World}
    (h : w.exec (.apply l id) = some (some x, w')) : w'.Applied id := by
  rcases exec_applications h with ⟨l', p, b, m, hsr, -, -, hrows⟩ | ⟨hne, -⟩
  · cases hsr
    exact ⟨⟨l, id, m⟩, hrows ▸ List.mem_cons_self, rfl⟩
  · exact absurd rfl (hne l id x)

/-- A payment whose application a call read, or whose apply it saw credited, is applied. -/
theorem applied_of_credited {d : Deployment} {tasks : ι → Task} {w₀ : World}
    {tr : List (Entry ledger ι)} {c : Config ledger ι Answer} (h : Run (start d tasks w₀) tr c)
    {i : ι} {l id : Int} (hc : Credited (own i tr) l id) : c.world.Applied id := by
  have hexec : ∀ (s : Stmt) (w : World) (r : s.Res) (w' : World), w.Applied id →
      w.exec s = some (r, w') → w'.Applied id := fun s w r w' hw hx => applied_exec hw hx
  rcases hc with ⟨row, hmem⟩ | ⟨prior, hmem⟩
  · exact h.established (P := fun w : World => w.Applied id) hmem (fun w w' hx => applied_of_apply hx)
      hexec fun v w hw => applied_env hw
  · refine h.established (P := fun w : World => w.Applied id) hmem (fun w w' hx => ?_) hexec
      fun v w hw => applied_env hw
    obtain ⟨rfl, happ⟩ := exec_alreadyApplied hx
    exact happ

/-! ## Replays -/

/-- Replies that claim money moved for a replayed payment, by either service. -/
def ReplaysMoney : Answer → Int → Prop
  | .charged (.ok r), id => r.idempotency = .replay ∧ r.paymentId = some id ∧
      (r.status = .row .captured ∨ r.appliedAmount ≠ .zero)
  | .serviced (.ok r), id => r.idempotency = .replay ∧ r.paymentId = some id ∧ r.amount ≠ .zero
  | _, _ => False

/-- Every replay that claims money moved is of an applied payment. -/
def ReplayTruthful (c : Config ledger ι Answer) : Prop :=
  ∀ i r id, c.procs i = .ret r → ReplaysMoney r id → c.world.Applied id

/-- A charge has finalized the payment to `captured` and neither its apply nor its downgrade has
followed. -/
def windowOpen (id : Int) : List (Entry ledger ι) → Bool
  | [] => false
  | .call _ (.finalize status id') _ _ _ :: tr =>
    if id' = id then decide (status = .captured) else windowOpen id tr
  | .call _ (.apply _ id') (some _) _ _ :: tr => if id' = id then false else windowOpen id tr
  | _ :: tr => windowOpen id tr

/-- The key a step reads, and the world it reads in. -/
def keyRead : Entry ledger ι → Option (Text × World)
  | .call _ (.readByKey key) _ w _ => some (key, w)
  | _ => none

/-- The step is no read of a key whose row is in its window. -/
def OutsideWindow (tr : List (Entry ledger ι)) (e : Entry ledger ι) : Prop :=
  ∀ x ∈ keyRead e, ∀ p ∈ x.2.payments.rows, p.key = some x.1 → windowOpen p.id tr = false

instance (tr : List (Entry ledger ι)) (e : Entry ledger ι) : Decidable (OutsideWindow tr e) :=
  inferInstanceAs (Decidable (∀ x ∈ keyRead e, ∀ p ∈ x.2.payments.rows, p.key = some x.1 →
    windowOpen p.id tr = false))

/-- No row holds a key for money that has not moved: no charge is under way. -/
def Settled (w : World) : Prop :=
  ∀ p ∈ w.payments.rows, p.key.isSome → p.status = .captured → w.Applied p.id

theorem settled_fresh : Settled World.fresh := fun _ hp => absurd hp List.not_mem_nil

omit [DecidableEq ι] in
theorem windowOpen_call {i : ι} {s : Stmt} {r : s.Res} {w w' : World}
    {tr : List (Entry ledger ι)} {id : Int} (hf : ∀ status, s ≠ .finalize status id)
    (ha : ∀ l x, (⟨s, r⟩ : Answered) ≠ ⟨.apply l id, some x⟩) :
    windowOpen id (.call i s r w w' :: tr) = windowOpen id tr := by
  cases s with
  | finalize status id' =>
    exact if_neg fun he => hf status (by rw [he])
  | apply l id' =>
    cases r with
    | none => rfl
    | some x => exact if_neg fun he => ha l x (by subst he; rfl)
  | _ => rfl

/-- A keyed `captured` row is applied or in its window. -/
def Tracked (tr : List (Entry ledger ι)) (w : World) : Prop :=
  ∀ p ∈ w.payments.rows, p.key.isSome → p.status = .captured →
    w.Applied p.id ∨ windowOpen p.id tr = true

omit [DecidableEq ι] in
theorem tracked_call {tr : List (Entry ledger ι)} {i : ι} {s : Stmt} {r : s.Res} {w w' : World}
    (hI : Tracked tr w) (h : w.exec s = some (r, w')) : Tracked (.call i s r w w' :: tr) w' := by
  -- what held of a row survives any statement but a finalize of it
  have keep : ∀ p ∈ w.payments.rows, p.key.isSome → p.status = .captured →
      (∀ status, s ≠ .finalize status p.id) →
      w'.Applied p.id ∨ windowOpen p.id (.call i s r w w' :: tr) = true := fun p hp hk hst hf => by
    by_cases ha : ∃ l x, (⟨s, r⟩ : Answered) = ⟨.apply l p.id, some x⟩
    · obtain ⟨l, x, hsr⟩ := ha
      cases hsr
      exact .inl (applied_of_apply h)
    · rw [windowOpen_call hf fun l x he => ha ⟨l, x, he⟩]
      exact (hI p hp hk hst).imp_left fun hw => applied_exec hw h
  intro q hq hk hst
  rcases exec_payments h with ⟨a, hsr, hrows, -⟩ | ⟨key, rfl, hrows, -⟩ | ⟨status, id, rfl, hrows, -⟩
    | ⟨-, hf, hrows, -⟩
  · rw [hrows] at hq
    cases hsr
    rcases List.mem_cons.mp hq with rfl | hq
    · cases hst
    · exact keep q hq hk hst (by simp)
  · rw [hrows] at hq
    obtain ⟨p, hp, rfl⟩ := List.mem_map.mp hq
    obtain ⟨k, hk⟩ := Option.isSome_iff_exists.mp hk
    rw [World.retireRow_id]
    refine keep p hp (by rw [World.retireRow_key hk]; rfl) ?_ (by simp)
    unfold World.retireRow at hst
    split at hst <;> exact hst
  · rw [hrows] at hq
    obtain ⟨p, hp, rfl⟩ := List.mem_map.mp hq
    rw [World.finalizeRow_id]
    rw [World.finalizeRow_key] at hk
    by_cases hid : p.id = id
    · rw [World.finalizeRow, if_pos hid] at hst
      exact .inr ((if_pos hid.symm).trans (decide_eq_true hst))
    · rw [World.finalizeRow, if_neg hid] at hst
      exact keep p hp hk hst fun st he => hid (by cases he; rfl)
  · rw [hrows] at hq
    exact keep q hq hk hst fun st => hf st q.id

theorem tracked {d : Deployment} {tasks : ι → Task} {w₀ : World} (h0 : Settled w₀)
    {tr : List (Entry ledger ι)} {c : Config ledger ι Answer} (h : Run (start d tasks w₀) tr c) :
    Tracked tr c.world := by
  refine Run.invariant (C := fun _ _ => True) (fun i => task_obeys d (tasks i))
    (fun p hp hk hst => .inl (h0 p hp hk hst)) (fun tr c i s r w _ hI _ hx _ => tracked_call hI hx)
    (fun tr c v _ hI _ p hp hk hst => ?_) h (along_true tr)
  have hp : p ∈ c.world.payments.rows := (c.world.env_frame v).2.2.1 ▸ hp
  exact (hI p hp hk hst).imp_left applied_env

/-- **Outside the window, replays never claim money that did not move.** -/
theorem replay_truthful (d : Deployment) (tasks : ι → Task) (w₀ : World) (h0 : Settled w₀)
    {tr : List (Entry ledger ι)} {c : Config ledger ι Answer}
    (h : Run (start d tasks w₀) tr c) (hC : Along OutsideWindow tr) : ReplayTruthful c := by
  -- a row read as captured was applied then, and stays so
  have hread : ∀ i a e, Read a (own i tr) e → e.status = .captured → c.world.Applied e.id := by
    intro i a e hmem hst
    obtain ⟨w, w', tr', hs⟩ := exists_of_mem_own hmem
    obtain ⟨rfl, p, hp, hk, rfl⟩ := exec_readByKey (h.exec hs)
    obtain ⟨c₁, c₂, h₁, hstep⟩ := h.entry hs
    have hI := tracked h0 h₁
    rw [← hstep.pre_eq] at hI
    have hclosed := (hC.suffix hs).1 (a.key, _) rfl p hp hk
    have happ := (hI p hp (by rw [hk]; rfl) hst).resolve_right (by rw [hclosed]; simp)
    exact h.persist (P := fun w : World => w.Applied p.id)
      (fun s w r w' hw hx => applied_exec hw hx) (fun v w hw => applied_env hw) hs happ
  have hamount : ∀ e : KeyRow, replayedAmount e ≠ .zero → e.status = .captured := fun e hne => by
    by_contra hst
    exact hne (if_neg fun h => hst h.1)
  intro i r id hret hmoney
  have hans := h.returned (fun j => task_obeys d (tasks j)) hret
  cases r with
  | charged r =>
    cases r with
    | error e => cases hmoney
    | ok r =>
      obtain ⟨hreplay, hid, hmoved⟩ := hmoney
      obtain ⟨a, e, hmem, hpid, hst, hamt⟩ := hans.charged.2 hreplay
      cases hid.symm.trans hpid
      refine hread i a e hmem (hmoved.elim (fun hcap => ?_) fun hne => hamount e (hamt ▸ hne))
      exact ReplyStatus.row.inj (hst.symm.trans hcap)
  | serviced r =>
    cases r with
    | error e => cases hmoney
    | ok r =>
      obtain ⟨hreplay, hid, hmoved⟩ := hmoney
      obtain ⟨a, e, hmem, hpid, hamt⟩ := hans.serviced hreplay
      cases hid.symm.trans hpid
      exact hread i a e hmem (hamount e (hamt ▸ hmoved))
  | _ => cases hmoney

/-- Boarding loan 1, and two charges of one intent. -/
def doubleCharge : Caller → Task
  | .first => .board none 1000
  | .second => .charge sampleCharge
  | .third => .charge sampleCharge

/-- The second charge claims and reads right after the first has finalized its row. -/
def readInWindow : List (Pick ledger Caller) :=
  [.call .first, .call .first, .call .second, .call .second, .call .third, .call .third]

/-- **A replay in the window claims money that has not moved**: the second charge answers
`captured` and 12.5 while no application row exists. -/
theorem replay_unapplied : ∃ tr c, Run (start sampleDeployment doubleCharge World.fresh) tr c ∧
    ¬ ReplayTruthful c := by
  refine ⟨_, _, run_of_playAll readInWindow (by decide +kernel), fun htruth => ?_⟩
  refine absurd (htruth .third (.charged (.ok ⟨some 1, 1, .row .captured, sampleAmount, .replay⟩)) 1
    (Prog.eq_ret_of_result (by decide +kernel)) ⟨rfl, rfl, .inl rfl⟩) (by decide +kernel)

/-- Servicing's charge of the same intent, and a retry of it. -/
def chargeAndRetry : Caller → Task
  | .first => .board none 1000
  | .second => .serviceCharge sampleCharge
  | .third => .serviceCharge sampleCharge

/-- The retry starts when the first charge has applied. -/
def retryAfterApply : List (Pick ledger Caller) :=
  [.call .first, .call .first, .call .second, .call .second, .call .second, .call .third,
    .call .third]

theorem retry_truthful : ∃ tr c, Run (start sampleDeployment chargeAndRetry World.fresh) tr c ∧
    c.world.Applied 1 := by
  refine ⟨_, _, run_of_playAll retryAfterApply (by decide +kernel), ?_⟩
  exact replay_truthful sampleDeployment chargeAndRetry World.fresh settled_fresh
    (run_of_playAll retryAfterApply (by decide +kernel)) (by decide +kernel) .third
    (.serviced (.ok ⟨1, sampleAmount, none, some 1, .replay, none⟩)) 1
    (Prog.eq_ret_of_result (by decide +kernel)) ⟨rfl, rfl, by decide⟩

end Meridian.Ledger
