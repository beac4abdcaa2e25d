import Meridian.Ledger.Capture

/-!
# What a final status says about the balance

payment-service's `charge` leaves its row `captured` when servicing confirmed the apply and
downgrades it to `captured_unapplied` when the HTTP call failed in any way. The call can fail after
the apply has committed (`timeout_after_apply`), and it can fail before a delayed request is
applied; then the row says `captured_unapplied` of a payment that is applied.

* `claims`: only the call that claimed a payment finalizes it, so the row has the status that call
  last gave it.
* `honest`: the outcome of an exchange matches the applications table, in runs where no failure is
  reported for a payment that is or will be applied (`NoFalseFailure`).
* `status_truthful`: in those runs the row of every finished charge tells the truth.
-/

namespace Meridian.Ledger

open Python Relational Interleave

variable {ι : Type} [DecidableEq ι]

/-! ## Only the claimer finalizes -/

section Claimer

variable {d : Deployment} {tasks : ι → Task} {w₀ : World} {tr : List (Entry ledger ι)}
  {c : Config ledger ι Answer}

theorem next_le_exec {s : Stmt} {r : s.Res} {w w' : World} (h : w.exec s = some (r, w')) :
    w.payments.next ≤ w'.payments.next := by
  rcases exec_payments h with ⟨a, -, -, hnext, -⟩ | ⟨k, -, -, hnext⟩ | ⟨st, id, -, -, hnext⟩ |
    ⟨-, -, -, hnext⟩ <;> omega

/-- A claimed id is below the sequence. -/
theorem won_lt (h : Run (start d tasks w₀) tr c) {i : ι} {id : Int} (hw : Won (own i tr) id) :
    id < c.world.payments.next := by
  obtain ⟨a, ha⟩ := hw
  refine h.established (P := fun w : World => id < w.payments.next) ha (fun w w' hx => ?_)
    (fun s w r w' hlt hx => lt_of_lt_of_le hlt (next_le_exec hx))
    fun v w hlt => by rwa [show (ledger.env v w).payments = _ from (w.env_frame v).2.2.1]
  obtain ⟨rfl, hnext, -⟩ := exec_claim_won hx
  omega

/-- What the history says of claims and statuses: one caller per payment, whose row has the status
that caller last gave it. -/
structure Claims (tr : List (Entry ledger ι)) (w : World) : Prop where
  one : ∀ i j id, Won (own i tr) id → Won (own j tr) id → i = j
  row : ∀ i id, Won (own i tr) id → ∃ p ∈ w.payments.rows, p.id = id ∧
    p.status = (lastStatus id (own i tr)).getD .processing
  unset : ∀ i id, ¬ Won (own i tr) id → lastStatus id (own i tr) = none

omit [DecidableEq ι] in
theorem lastStatus_self {status : Status} {l : Log ledger} {id : Int} :
    lastStatus id (⟨.finalize status id, ()⟩ :: l) = some status := if_pos rfl

omit [DecidableEq ι] in
theorem lastStatus_skip {x : Answered} {l : Log ledger} {id : Int}
    (h : ∀ status, x.1 ≠ .finalize status id) : lastStatus id (x :: l) = lastStatus id l := by
  obtain ⟨s, r⟩ := x
  cases s with
  | finalize status id' => exact if_neg fun he => h status (by rw [he])
  | _ => rfl

theorem won_cons {x : Answered} {l : Log ledger} {id : Int}
    (h : ∀ a, x ≠ ⟨.claim a, .ok (some id)⟩) : Won (x :: l) id ↔ Won l id := by
  refine ⟨fun ⟨a, ha⟩ => ?_, fun ⟨a, ha⟩ => ⟨a, List.mem_cons_of_mem _ ha⟩⟩
  rcases List.mem_cons.mp ha with rfl | ha
  · exact absurd rfl (h a)
  · exact ⟨a, ha⟩

/-- A statement that neither wins a claim nor finalizes leaves the history's say alone. -/
theorem claims_skip {s : Stmt} {r : s.Res} {w w' v v' : World} {j : ι} (hI : Claims tr w)
    (hclaim : ∀ a id, (⟨s, r⟩ : Answered) ≠ ⟨.claim a, .ok (some id)⟩)
    (hfin : ∀ status id, s ≠ .finalize status id)
    (hrows : ∀ p ∈ w.payments.rows, ∃ q ∈ w'.payments.rows, q.id = p.id ∧ q.status = p.status) :
    Claims (.call j s r v v' :: tr) w' := by
  have hwon : ∀ i id, Won (own i (.call j s r v v' :: tr)) id ↔ Won (own i tr) id := fun i id => by
    rw [own_call]
    split
    · exact won_cons fun a => hclaim a id
    · exact Iff.rfl
  have hlast : ∀ i id, lastStatus id (own i (.call j s r v v' :: tr)) = lastStatus id (own i tr) :=
    fun i id => by
      rw [own_call]
      split
      · exact lastStatus_skip fun st => hfin st id
      · rfl
  refine ⟨fun i k id hi hk => ?_, fun i id hi => ?_, fun i id hi => ?_⟩
  · exact hI.one i k id ((hwon i id).mp hi) ((hwon k id).mp hk)
  · obtain ⟨p, hp, hid, hst⟩ := hI.row i id ((hwon i id).mp hi)
    obtain ⟨q, hq, hqid, hqst⟩ := hrows p hp
    exact ⟨q, hq, hqid.trans hid, by rw [hqst, hst, hlast]⟩
  · rw [hlast]
    exact hI.unset i id fun hw => hi ((hwon i id).mpr hw)

/-- A claim that wins makes its caller the only one for the new id. -/
theorem claims_won {a : Intent} {w v v' : World} {j : ι} (hrun : Run (start d tasks w₀) tr c)
    (hI : Claims tr c.world)
    (hrows : w.payments.rows =
      a.row c.world.now c.world.payments.next :: c.world.payments.rows) :
    Claims (.call j (.claim a) (.ok (some c.world.payments.next)) v v' :: tr) w := by
  obtain ⟨n, hn⟩ : ∃ n, n = c.world.payments.next := ⟨_, rfl⟩
  rw [← hn] at hrows ⊢
  have hnew : ∀ i, ¬ Won (own i tr) n := fun i hw => absurd (won_lt hrun hw) (by omega)
  have hown : ∀ i id, Won (own i (.call j (.claim a) (.ok (some n)) v v' :: tr)) id →
      Won (own i tr) id ∨ id = n ∧ j = i := fun i id hw => by
    rw [own_call] at hw
    split at hw
    · rename_i hji
      by_cases hid : id = n
      · exact .inr ⟨hid, hji⟩
      · refine .inl ((won_cons fun a' he => hid ?_).mp hw)
        cases he
        rfl
    · exact .inl hw
  have hlast : ∀ i id, lastStatus id (own i (.call j (.claim a) (.ok (some n)) v v' :: tr)) =
      lastStatus id (own i tr) := fun i id => by
    rw [own_call]
    split
    · exact lastStatus_skip (by simp)
    · rfl
  refine ⟨fun i k id hi hk => ?_, fun i id hi => ?_, fun i id hi => ?_⟩
  · rcases hown i id hi with hi' | ⟨hid, hji⟩
    · rcases hown k id hk with hk' | ⟨hid, -⟩
      · exact hI.one i k id hi' hk'
      · exact absurd (hid ▸ hi') (hnew i)
    · rcases hown k id hk with hk' | ⟨-, hjk⟩
      · exact absurd (hid ▸ hk') (hnew k)
      · exact hji.symm.trans hjk
  · rw [hlast, hrows]
    rcases hown i id hi with hi | ⟨rfl, rfl⟩
    · obtain ⟨p, hp, hid, hst⟩ := hI.row i id hi
      exact ⟨p, List.mem_cons_of_mem _ hp, hid, hst⟩
    · exact ⟨_, List.mem_cons_self, rfl, by rw [hI.unset j id (hnew j)]; rfl⟩
  · rw [hlast]
    refine hI.unset i id fun hw => hi ?_
    obtain ⟨a', ha'⟩ := hw
    refine ⟨a', ?_⟩
    rw [own_call]
    split
    · exact List.mem_cons_of_mem _ ha'
    · exact ha'

/-- A finalize sets the status of a payment its caller claimed. -/
theorem claims_finalize {status : Status} {id : Int} {w w' v v' : World} {j : ι}
    (hI : Claims tr w) (hφ : Won (own j tr) id)
    (hrows : w'.payments.rows = w.payments.rows.map (World.finalizeRow status id)) :
    Claims (.call j (.finalize status id) () v v' :: tr) w' := by
  have hwon : ∀ i id', Won (own i (.call j (.finalize status id) () v v' :: tr)) id' ↔
      Won (own i tr) id' := fun i id' => by
    rw [own_call]
    split
    · exact won_cons (by simp)
    · exact Iff.rfl
  have hlast : ∀ i id', (j = i → id ≠ id') →
      lastStatus id' (own i (.call j (.finalize status id) () v v' :: tr)) =
        lastStatus id' (own i tr) := fun i id' hne => by
    rw [own_call]
    split
    · rename_i hji
      exact lastStatus_skip fun st he => hne hji (by cases he; rfl)
    · rfl
  refine ⟨fun i k id' hi hk => ?_, fun i id' hi => ?_, fun i id' hi => ?_⟩
  · exact hI.one i k id' ((hwon i id').mp hi) ((hwon k id').mp hk)
  · have hi := (hwon i id').mp hi
    obtain ⟨p, hp, hid, hst⟩ := hI.row i id' hi
    refine ⟨World.finalizeRow status id p, hrows ▸ List.mem_map_of_mem hp, by simpa using hid, ?_⟩
    by_cases he : id = id'
    · subst he
      rw [hI.one i j id hi hφ, own_call_self, World.finalizeRow, if_pos hid]
      rw [lastStatus_self]
      rfl
    · rw [hlast i id' fun _ => he, World.finalizeRow, if_neg fun h => he (h.symm.trans hid), hst]
  · have hi : ¬ Won (own i tr) id' := fun h => hi ((hwon i id').mpr h)
    rw [hlast i id' fun hji he => hi (by rw [← hji, ← he]; exact hφ)]
    exact hI.unset i id' hi

theorem claims_call {s : Stmt} {r : s.Res} {w : World} {j : ι} (hrun : Run (start d tasks w₀) tr c)
    (hI : Claims tr c.world) (hφ : Allowed (own j tr) s) (hx : c.world.exec s = some (r, w)) :
    Claims (.call j s r c.world w :: tr) w := by
  rcases exec_payments hx with ⟨a, hsr, hrows, -⟩ | ⟨k, rfl, hrows, -⟩ |
    ⟨status, id, rfl, hrows, -⟩ | ⟨hclaim, hfin, hrows, -⟩
  · cases hsr
    exact claims_won hrun hI hrows
  · refine claims_skip hI (by simp) (by simp) fun p hp => ⟨c.world.retireRow k p, ?_, by simp, ?_⟩
    · exact hrows ▸ List.mem_map_of_mem hp
    · unfold World.retireRow
      split <;> rfl
  · exact claims_finalize hI hφ hrows
  · exact claims_skip hI hclaim hfin fun p hp => ⟨p, hrows ▸ hp, rfl, rfl⟩

/-- **Only the claimer finalizes**, in every run. -/
theorem claims (h : Run (start d tasks w₀) tr c) : Claims tr c.world := by
  refine Run.invariant (C := fun _ _ => True) (fun i => task_obeys d (tasks i))
    ⟨fun _ _ _ ⟨_, ha⟩ => absurd ha List.not_mem_nil, fun _ _ ⟨_, ha⟩ => absurd ha List.not_mem_nil,
      fun _ _ _ => rfl⟩
    (fun tr c i s r w hrun hI hφ hx _ => claims_call hrun hI hφ hx)
    (fun tr c v _ hI _ => ⟨hI.one, fun i id hi => ?_, hI.unset⟩) h (along_true tr)
  obtain ⟨p, hp, hid, hst⟩ := hI.row i id hi
  exact ⟨p, (c.world.env_frame v).2.2.1.symm ▸ hp, hid, hst⟩

/-! ## Exchanges -/

/-- A later form of an exchange: the same call, and an outcome once there stays. -/
structure Later (e e' : Exchange) : Prop where
  id : e'.id = e.id
  loanId : e'.loanId = e.loanId
  paymentId : e'.paymentId = e.paymentId
  outcome : ∀ o, e.outcome = some o → e'.outcome = some o

omit [DecidableEq ι] in
theorem Later.refl (e : Exchange) : Later e e := ⟨rfl, rfl, rfl, fun _ h => h⟩

omit [DecidableEq ι] in
theorem later_onExchange {x : Int} {f : Exchange → Exchange} (hf : ∀ e, Later e (f e))
    (e : Exchange) : Later e (World.onExchange x f e) := by
  unfold World.onExchange
  split
  · exact hf e
  · exact .refl e

omit [DecidableEq ι] in
theorem later_exec {s : Stmt} {r : s.Res} {w w' : World} (h : w.exec s = some (r, w'))
    {e : Exchange} (he : e ∈ w.exchanges.rows) : ∃ e' ∈ w'.exchanges.rows, Later e e' := by
  rcases exec_exchanges h with ⟨l, p, -, hrows, -⟩ | ⟨x, e₀, -, -, hrows, -⟩ |
    ⟨x, code, -, hrows, -⟩ | ⟨-, -, hsame⟩
  · exact ⟨e, hrows ▸ List.mem_cons_of_mem _ he, .refl e⟩
  · refine ⟨_, hrows ▸ List.mem_map_of_mem he, ?_⟩
    apply later_onExchange
    exact fun e => ⟨rfl, rfl, rfl, fun _ h => h⟩
  · refine ⟨_, hrows ▸ List.mem_map_of_mem he, ?_⟩
    apply later_onExchange
    exact fun e => ⟨rfl, rfl, rfl, fun _ h => h⟩
  · exact ⟨e, hsame ▸ he, .refl e⟩

omit [DecidableEq ι] in
theorem or_keep {α : Type} {a : Option α} {b o : α} (h : a = some o) : a.or (some b) = some o := by
  rw [h]
  rfl

omit [DecidableEq ι] in
theorem later_env (v : Env) (w : World) {e : Exchange} (he : e ∈ w.exchanges.rows) :
    ∃ e' ∈ (w.env v).exchanges.rows, Later e e' := by
  cases v with
  | tick d => exact ⟨e, he, .refl e⟩
  | giveUp x o ho =>
    refine ⟨_, List.mem_map_of_mem he, ?_⟩
    apply later_onExchange
    exact fun e => ⟨rfl, rfl, rfl, fun _ h => or_keep h⟩
  | loseRequest x =>
    refine ⟨_, List.mem_map_of_mem he, ?_⟩
    apply later_onExchange
    exact fun e => ⟨rfl, rfl, rfl, fun _ h => h⟩
  | loseReply x =>
    refine ⟨_, List.mem_map_of_mem he, ?_⟩
    apply later_onExchange
    exact fun e => ⟨rfl, rfl, rfl, fun _ h => h⟩
  | deliver x =>
    refine ⟨_, List.mem_map_of_mem he, ?_⟩
    apply later_onExchange
    intro e
    cases hr : e.reply with
    | inFlight code => exact ⟨rfl, rfl, rfl, fun _ h => or_keep h⟩
    | none => exact .refl e
    | gone => exact .refl e

/-- The exchange of a call a charge has posted, or a handler has taken. -/
def Concerns (w : World) (x id : Int) : Prop :=
  ∃ e ∈ w.exchanges.rows, e.id = x ∧ e.paymentId = id

omit [DecidableEq ι] in
theorem concerns_exec {s : Stmt} {r : s.Res} {w w' : World} {x id : Int} (hw : Concerns w x id)
    (h : w.exec s = some (r, w')) : Concerns w' x id := by
  obtain ⟨e, he, hx, hid⟩ := hw
  obtain ⟨e', he', hl⟩ := later_exec h he
  exact ⟨e', he', hl.id.trans hx, hl.paymentId.trans hid⟩

omit [DecidableEq ι] in
theorem concerns_env {v : Env} {w : World} {x id : Int} (hw : Concerns w x id) :
    Concerns (w.env v) x id := by
  obtain ⟨e, he, hx, hid⟩ := hw
  obtain ⟨e', he', hl⟩ := later_env v w he
  exact ⟨e', he', hl.id.trans hx, hl.paymentId.trans hid⟩

theorem concerns_of_post (h : Run (start d tasks w₀) tr c) {i : ι} {l id x : Int}
    (hm : ⟨.post l id, x⟩ ∈ own i tr) : Concerns c.world x id := by
  refine h.established (P := fun w : World => Concerns w x id) hm (fun w w' hx => ?_)
    (fun s w r w' hw hx => concerns_exec hw hx) fun v w hw => concerns_env hw
  obtain ⟨hr, rfl⟩ := exec_eq (s := .post l id) rfl hx
  exact ⟨_, (post_spec w l id).1 ▸ List.mem_cons_self, hr.symm, rfl⟩

theorem concerns_of_recv (h : Run (start d tasks w₀) tr c) {i : ι} {l id x : Int}
    (hm : ⟨.recv x, (l, id)⟩ ∈ own i tr) : Concerns c.world x id := by
  refine h.established (P := fun w : World => Concerns w x id) hm (fun w w' hx => ?_)
    (fun s w r w' hw hx => concerns_exec hw hx) fun v w hw => concerns_env hw
  obtain ⟨e, he, -, hr, -⟩ := World.recv_cases w hx
  have hmem := List.mem_of_find?_eq_some he
  have hid : e.id = x := by simpa using List.find?_some he
  cases hr
  exact concerns_exec (s := .recv x) ⟨e, hmem, hid, rfl⟩ hx

/-- An awaited outcome is that of its exchange. -/
theorem outcome_of_await (h : Run (start d tasks w₀) tr c) {i : ι} {x : Int} {o : Outcome}
    (hm : ⟨.await x, o⟩ ∈ own i tr) :
    ∃ e ∈ c.world.exchanges.rows, e.id = x ∧ e.outcome = some o := by
  refine h.established (P := fun w : World => ∃ e ∈ w.exchanges.rows, e.id = x ∧ e.outcome = some o) hm
    (fun w w' hx => ?_) (fun s w r w' hw hx => ?_) fun v w hw => ?_
  · obtain ⟨o', ho, heq⟩ := Option.map_eq_some_iff.mp hx
    cases heq
    obtain ⟨e, he, heo⟩ := Option.bind_eq_some_iff.mp ho
    exact ⟨e, List.mem_of_find?_eq_some he, by simpa using List.find?_some he, heo⟩
  · obtain ⟨e, he, hid, ho⟩ := hw
    obtain ⟨e', he', hl⟩ := later_exec hx he
    exact ⟨e', he', hl.id.trans hid, hl.outcome o ho⟩
  · obtain ⟨e, he, hid, ho⟩ := hw
    obtain ⟨e', he', hl⟩ := later_env v w he
    exact ⟨e', he', hl.id.trans hid, hl.outcome o ho⟩

end Claimer

/-! ## Outcomes and applications -/

/-- The payment a statement has credited. -/
def creditedId : Answered → Option Int
  | ⟨.apply _ id, some _⟩ => some id
  | _ => none

/-- The move ends the client's call with a failure: an exception, or a reply that is none of the
2xx. -/
def reportsFailure : Env → Exchange → Bool
  | .giveUp x _ _, e => e.id = x && e.outcome.isNone
  | .deliver x, e => e.id = x && e.outcome.isNone && match e.reply with
    | .inFlight code => !(Outcome.status code).ok
    | _ => false
  | _, _ => false

/-- No failure is reported for a payment that is applied, and no payment is credited after a
failure has been reported for it. -/
def NoFalseFailure (_ : List (Entry ledger ι)) : Entry ledger ι → Prop
  | .env v w _ => ∀ e ∈ w.exchanges.rows, reportsFailure v e = true → ¬ w.Applied e.paymentId
  | .call _ s r w _ => ∀ id ∈ creditedId ⟨s, r⟩, ∀ e ∈ w.exchanges.rows, e.paymentId = id →
      e.outcome.any (fun o => !o.ok) = false

instance (tr : List (Entry ledger ι)) : ∀ e, Decidable (NoFalseFailure tr e)
  | .env v w _ => inferInstanceAs (Decidable (∀ e ∈ w.exchanges.rows,
      reportsFailure v e = true → ¬ w.Applied e.paymentId))
  | .call _ s r w _ => inferInstanceAs (Decidable (∀ id ∈ creditedId ⟨s, r⟩,
      ∀ e ∈ w.exchanges.rows, e.paymentId = id → e.outcome.any (fun o => !o.ok) = false))

/-- What an exchange has been told, and is about to be told, is the truth about its payment. -/
structure Honest (w : World) (e : Exchange) : Prop where
  reply : ∀ code, e.reply = .inFlight code → (Outcome.status code).ok = true →
    w.Applied e.paymentId
  outcome : ∀ o, e.outcome = some o → (o.ok = true ↔ w.Applied e.paymentId)

omit [DecidableEq ι] in
/-- A statement that leaves an exchange alone leaves it honest. -/
theorem honest_exec {tr : List (Entry ledger ι)} {i : ι} {s : Stmt} {r : s.Res} {w w' : World}
    (h : w.exec s = some (r, w')) (hC : NoFalseFailure tr (.call i s r w w')) {e e' : Exchange}
    (he : e ∈ w.exchanges.rows) (hI : Honest w e) (hid : e'.paymentId = e.paymentId)
    (hreply : e'.reply = e.reply) (hout : e'.outcome = e.outcome) : Honest w' e' := by
  refine ⟨fun code hr hok => ?_, fun o ho => ?_⟩
  · rw [hid]
    exact applied_exec (hI.reply code (hreply ▸ hr) hok) h
  · rw [hout] at ho
    rw [hid]
    by_cases hcred : ∃ l row, (⟨s, r⟩ : Answered) = ⟨.apply l e.paymentId, some row⟩
    · obtain ⟨l, row, hsr⟩ := hcred
      cases hsr
      have hok := hC e.paymentId rfl e he rfl
      rw [ho] at hok
      exact ⟨fun _ => applied_of_apply h, fun _ => by simpa using hok⟩
    · rw [applied_exec_iff h fun l x hx => hcred ⟨l, x, hx⟩]
      exact hI.outcome o ho

section Outcomes

variable {d : Deployment} {tasks : ι → Task} {w₀ : World} {tr : List (Entry ledger ι)}
  {c : Config ledger ι Answer}

theorem honest_call {s : Stmt} {r : s.Res} {w : World} {j : ι} (hrun : Run (start d tasks w₀) tr c)
    (hI : ∀ e ∈ c.world.exchanges.rows, Honest c.world e) (hφ : Allowed (own j tr) s)
    (hx : c.world.exec s = some (r, w)) (hC : NoFalseFailure tr (.call j s r c.world w)) :
    ∀ e ∈ w.exchanges.rows, Honest w e := by
  intro e' he'
  rcases exec_exchanges hx with ⟨l, p, -, hrows, -⟩ | ⟨x, e₀, -, -, hrows, -⟩ |
    ⟨x, code, rfl, hrows, -⟩ | ⟨-, -, hsame⟩
  · rw [hrows] at he'
    rcases List.mem_cons.mp he' with rfl | he'
    · exact ⟨fun _ h => (by cases h), fun _ h => (by cases h)⟩
    · exact honest_exec hx hC he' (hI _ he') rfl rfl rfl
  · rw [hrows] at he'
    obtain ⟨e, he, rfl⟩ := List.mem_map.mp he'
    refine honest_exec hx hC he (hI e he) ?_ ?_ ?_ <;>
      · unfold World.onExchange
        split <;> rfl
  · rw [hrows] at he'
    obtain ⟨e, he, rfl⟩ := List.mem_map.mp he'
    by_cases hid : e.id = x
    · -- the handler answers 200 only for a payment it found applied
      have hon : Honest w e := honest_exec hx hC he (hI e he) rfl rfl rfl
      rw [World.onExchange, if_pos hid]
      refine ⟨fun code' hr hok => ?_, hon.outcome⟩
      cases hr
      obtain ⟨l, p, hrecv, hcred⟩ := hφ
      obtain ⟨e₀, he₀, hx₀, hp₀⟩ := concerns_of_recv hrun hrecv
      have heq : e = e₀ := c.world.exchanges.eq_of_pk he he₀ (hid.trans hx₀.symm)
      subst heq
      exact hp₀ ▸ applied_exec (applied_of_credited hrun (hcred hok)) hx
    · rw [World.onExchange, if_neg hid]
      exact honest_exec hx hC he (hI e he) rfl rfl rfl
  · rw [hsame] at he'
    exact honest_exec hx hC he' (hI _ he') rfl rfl rfl

omit [DecidableEq ι] in
/-- The first outcome counts: a true one, told to a client that has none, is honest. -/
theorem honest_told {w : World} {e : Exchange} (hI : Honest w e) {o o' : Outcome}
    (ho : e.outcome.or (some o) = some o')
    (htrue : e.outcome = none → (o.ok = true ↔ w.Applied e.paymentId)) :
    o'.ok = true ↔ w.Applied e.paymentId := by
  cases he : e.outcome with
  | none =>
    rw [he] at ho
    cases ho
    exact htrue he
  | some o'' =>
    rw [he] at ho
    cases ho
    exact hI.outcome _ he

omit [DecidableEq ι] in
theorem honest_env {v : Env} {w w' : World} (hI : ∀ e ∈ w.exchanges.rows, Honest w e)
    (hC : NoFalseFailure tr (.env v w w')) :
    ∀ e ∈ (w.env v).exchanges.rows, Honest (w.env v) e := by
  -- being applied is the same before and after, so honesty may be shown in `w`
  have hon : ∀ e, Honest w e → Honest (w.env v) e := fun e h =>
    ⟨fun code hr hok => applied_env (h.reply code hr hok),
      fun o ho => (h.outcome o ho).trans applied_env_iff.symm⟩
  intro e' he'
  apply hon
  cases v with
  | tick d => exact hI e' he'
  | giveUp x o hfail =>
    obtain ⟨e, he, rfl⟩ := List.mem_map.mp he'
    by_cases hid : e.id = x
    · rw [World.onExchange, if_pos hid]
      refine ⟨(hI e he).reply, fun o' ho' => honest_told (hI e he) ho' fun hnone => ?_⟩
      have hun := hC e he (by simp [reportsFailure, hid, hnone])
      simp [hfail, hun]
    · rw [World.onExchange, if_neg hid]
      exact hI e he
  | loseRequest x =>
    obtain ⟨e, he, rfl⟩ := List.mem_map.mp he'
    unfold World.onExchange
    split
    · exact ⟨(hI e he).reply, (hI e he).outcome⟩
    · exact hI e he
  | loseReply x =>
    obtain ⟨e, he, rfl⟩ := List.mem_map.mp he'
    unfold World.onExchange
    split
    · refine ⟨fun code hr => ?_, (hI e he).outcome⟩
      simp only at hr
      split at hr <;> cases hr
    · exact hI e he
  | deliver x =>
    obtain ⟨e, he, rfl⟩ := List.mem_map.mp he'
    by_cases hid : e.id = x
    · rw [World.onExchange, if_pos hid]
      cases hr : e.reply with
      | none => exact hI e he
      | gone => exact hI e he
      | inFlight code =>
        refine ⟨fun _ h => (by cases h), fun o' ho' => honest_told (hI e he) ho' fun hnone => ?_⟩
        cases hok : (Outcome.status code).ok with
        | true => exact iff_of_true rfl ((hI e he).reply code hr hok)
        | false =>
          exact iff_of_false (by simp) (hC e he (by simp [reportsFailure, hid, hnone, hr, hok]))
    · rw [World.onExchange, if_neg hid]
      exact hI e he

/-- **Outcomes are honest** in every run without false failures that starts with no call under
way. -/
theorem honest (h0 : w₀.exchanges.rows = []) (h : Run (start d tasks w₀) tr c)
    (hC : Along NoFalseFailure tr) : ∀ e ∈ c.world.exchanges.rows, Honest c.world e :=
  Run.invariant (I := fun _ (w : World) => ∀ e ∈ w.exchanges.rows, Honest w e)
    (fun i => task_obeys d (tasks i))
    (fun _ he => absurd (h0 ▸ he) List.not_mem_nil)
    (fun _ _ _ _ _ _ hrun hI hφ hx hC => honest_call hrun hI hφ hx hC)
    (fun _ _ _ _ hI hC => honest_env hI hC) h hC

end Outcomes

/-! ## The truth of the final status -/

/-- No request or reply about the payment is on its way. -/
def Quiet (w : World) (id : Int) : Prop :=
  ∀ e ∈ w.exchanges.rows, e.paymentId = id → e.request ≠ .inFlight ∧ e.reply.onItsWay = false

instance (w : World) (id : Int) : Decidable (Quiet w id) :=
  inferInstanceAs (Decidable (∀ e ∈ w.exchanges.rows, e.paymentId = id →
    e.request ≠ .inFlight ∧ e.reply.onItsWay = false))

/-- Once the charge that claimed a payment has returned and nothing about it is on its way, its row
is `captured` exactly when it is applied and `captured_unapplied` exactly when it is not. -/
def StatusTruthful (c : Config ledger ι Answer) : Prop :=
  ∀ i r id, c.procs i = .ret (.charged (.ok r)) → r.idempotency = .claimed →
    r.paymentId = some id → Quiet c.world id →
    ∃ p ∈ c.world.payments.rows, p.id = id ∧
      (p.status = .captured ↔ c.world.Applied id) ∧
      (p.status = .capturedUnapplied ↔ ¬ c.world.Applied id)

/-- **Without false failures every final status tells the truth.** -/
theorem status_truthful (d : Deployment) (tasks : ι → Task) (w₀ : World)
    (h0 : w₀.exchanges.rows = []) {tr : List (Entry ledger ι)} {c : Config ledger ι Answer}
    (h : Run (start d tasks w₀) tr c) (hC : Along NoFalseFailure tr) : StatusTruthful c := by
  intro i r id hret hclaimed hid _
  have hans := h.returned (fun j => task_obeys d (tasks j)) hret
  obtain ⟨id', hid', hwon, loanId, x, o, hpost, hawait, hlast⟩ := hans.charged.1 hclaimed
  cases hid.symm.trans hid'
  obtain ⟨p, hp, hpid, hst⟩ := (claims h).row i id hwon
  obtain ⟨e, he, hex, hep⟩ := concerns_of_post h hpost
  obtain ⟨e', he', hex', ho⟩ := outcome_of_await h hawait
  have heq : e = e' := c.world.exchanges.eq_of_pk he he' (hex.trans hex'.symm)
  subst heq
  have htruth := (honest h0 h hC e he).outcome o ho
  rw [hep] at htruth
  rw [hlast] at hst
  refine ⟨p, hp, hpid, ?_, ?_⟩
  · rw [hst, ← htruth]
    cases o.ok <;> simp
  · rw [hst, ← htruth]
    cases o.ok <;> simp

/-! ## A timeout after the apply has committed -/

/-- Boarding loan 1, a charge of payment-service, and servicing's handler of its call. -/
def chargeOverHttp : Caller → Task
  | .first => .board none 1000
  | .second => .charge sampleCharge
  | .third => .applyRoute 1

/-- The handler's answer arrives. -/
def answerArrives : List (Pick ledger Caller) :=
  [.call .first, .call .first, .call .second, .call .second, .call .second, .call .third,
    .call .third, .call .third, .env (.deliver 1), .call .second]

theorem answered_truthful : ∃ tr c,
    Run (start sampleDeployment chargeOverHttp World.fresh) tr c ∧
    ∃ p ∈ c.world.payments.rows, p.id = 1 ∧ (p.status = .captured ↔ c.world.Applied 1) ∧
      (p.status = .capturedUnapplied ↔ ¬ c.world.Applied 1) := by
  refine ⟨_, _, run_of_playAll answerArrives (by decide +kernel), ?_⟩
  exact status_truthful sampleDeployment chargeOverHttp World.fresh rfl
    (run_of_playAll answerArrives (by decide +kernel)) (by decide +kernel) .second
    ⟨some 1, 1, .row .captured, sampleAmount, .claimed⟩ 1
    (Prog.eq_ret_of_result (by decide +kernel)) rfl rfl (by decide +kernel)

/-- The client times out while the handler has applied the payment but not answered yet. -/
def timeoutInHandler : List (Pick ledger Caller) :=
  [.call .first, .call .first, .call .second, .call .second, .call .second, .call .third,
    .call .third, .env (.giveUp 1 .exception rfl), .call .third, .env (.loseReply 1), .call .second,
    .call .second]

/-- **A lost answer makes the status lie**: the row ends `captured_unapplied` though the payment is
applied and nothing is on its way. -/
theorem timeout_after_apply : ∃ tr c,
    Run (start sampleDeployment chargeOverHttp World.fresh) tr c ∧ ¬ StatusTruthful c := by
  refine ⟨_, _, run_of_playAll timeoutInHandler (by decide +kernel), fun htruth => ?_⟩
  exact absurd (htruth .second ⟨some 1, 1, .row .capturedUnapplied, .zero, .claimed⟩ 1
    (Prog.eq_ret_of_result (by decide +kernel)) rfl rfl (by decide +kernel)) (by decide +kernel)

end Meridian.Ledger
