import Meridian.Ledger.Discipline
import Meridian.Ledger.Movements

/-!
# The balance equation

Every operation writes or guards the one `balances` row of a loan, several of them in separate
autocommitted statements. Whatever their interleaving, `Books` holds: a balance is the principal
its loan was boarded with, less what the loan's application rows record, plus what the successful
`adjust_balance` calls changed (`balance_equation`). A call whose `apply_payment` refused has
written neither table (`refused_untouched`).
-/

namespace Meridian.Ledger

open Python Relational Interleave

variable {ι : Type} [DecidableEq ι]

/-! ## The equation -/

/-- What a step's successful `adjust_balance` changed a loan's balance by. -/
def adjustment (k : Int) : Entry ledger ι → ℚ
  | .call _ s r w _ => corrected w k ⟨s, r⟩
  | .env _ _ _ => 0

/-- The sum of (new − old) over the successful `adjust_balance` calls on a loan. -/
def adjusted (k : Int) (tr : List (Entry ledger ι)) : ℚ := (tr.map (adjustment k)).sum

/-- The application row repeats its payment's loan and `amount_minor`. -/
def Recorded (w : World) (a : Application) : Prop :=
  ∃ p ∈ w.payments.rows, p.id = a.paymentId ∧ p.loanId = some a.loanId ∧
    p.amountMinor = some a.amountMinor

/-- The money tables agree, given what the adjustments of each loan add up to. -/
structure Books (adj : Int → ℚ) (w : World) : Prop where
  equation : ∀ k b, w.balanceRow k = some b →
    ∃ l, w.loan k = some l ∧ b.balance = l.principal - w.credits k + adj k
  /-- Money is credited only to a loan with a row. -/
  opened : ∀ a ∈ w.applications.rows, (w.balanceRow a.loanId).isSome
  /-- Only a row is adjusted. -/
  unopened : ∀ k, w.balanceRow k = none → adj k = 0
  recorded : ∀ a ∈ w.applications.rows, Recorded w a

theorem books_fresh : Books (fun _ => 0) World.fresh where
  equation k b h := by cases h
  opened a h := by cases h
  unopened _ _ := rfl
  recorded a h := by cases h

section Step

variable {s : Stmt} {r : s.Res} {w w' : World} {adj : Int → ℚ}

/-- A payment keeps its loan and its amount. -/
theorem exec_recorded {a : Application} (ha : Recorded w a) (h : w.exec s = some (r, w')) :
    Recorded w' a := by
  obtain ⟨p, hp, hid, hloan, hminor⟩ := ha
  rcases exec_payments h with ⟨x, -, hrows, -⟩ | ⟨key, -, hrows, -⟩ | ⟨status, id, -, hrows, -⟩ |
    ⟨-, -, hrows, -⟩
  · exact ⟨p, hrows ▸ List.mem_cons_of_mem _ hp, hid, hloan, hminor⟩
  · refine ⟨w.retireRow key p, hrows ▸ List.mem_map_of_mem hp, ?_⟩
    rw [World.retireRow_id]
    unfold World.retireRow
    split <;> exact ⟨hid, hloan, hminor⟩
  · refine ⟨World.finalizeRow status id p, hrows ▸ List.mem_map_of_mem hp, ?_⟩
    rw [World.finalizeRow_id]
    unfold World.finalizeRow
    split <;> exact ⟨hid, hloan, hminor⟩
  · exact ⟨p, hrows ▸ hp, hid, hloan, hminor⟩

/-- No application row, no credit. -/
theorem Books.credits_unopened (hI : Books adj w) {k : Int} (h : w.balanceRow k = none) :
    w.credits k = 0 := by
  have hnone : w.applications.rows.filter (fun a => a.loanId = k) = [] := by
    refine List.filter_eq_nil_iff.mpr fun a ha hk => ?_
    have := hI.opened a ha
    rw [of_decide_eq_true hk, h] at this
    cases this
  rw [World.credits, hnone]
  rfl

/-- **One statement keeps the books**, when a balance opens with its loan's principal. -/
theorem Books.step (hI : Books adj w) (h : w.exec s = some (r, w'))
    (hopen : ∀ k x, s = .insertBalance k x → ∃ l, w.loan k = some l ∧ l.principal = x) :
    Books (fun k => corrected w k ⟨s, r⟩ + adj k) w' := by
  constructor
  · intro k b' hb'
    rcases exec_row h k with ⟨f, hf, hrow⟩ | ⟨x, rfl, hnone, hrow, -⟩ | ⟨hf, hrow⟩
    · rw [hrow] at hb'
      obtain ⟨b, hb, rfl⟩ := Option.map_eq_some_iff.mp hb'
      obtain ⟨l, hl, heq⟩ := hI.equation k b hb
      refine ⟨l, exec_loan h hl, ?_⟩
      rw [figures_balance hf hb, exec_credits h k, heq]
      ring
    · rw [hrow] at hb'
      cases hb'
      obtain ⟨l, hl, hx⟩ := hopen k x rfl
      refine ⟨l, exec_loan h hl, ?_⟩
      rw [exec_credits h k, hI.credits_unopened hnone, hI.unopened k hnone, hx]
      simp [credited, corrected]
    · rw [hrow] at hb'
      obtain ⟨l, hl, heq⟩ := hI.equation k b' hb'
      refine ⟨l, exec_loan h hl, ?_⟩
      rw [exec_credits h k, credited_eq_zero hf, corrected_eq_zero hf, heq]
      ring
  · intro a ha
    rcases exec_applications h with ⟨l, p, b, m, -, he, -, hrows⟩ | ⟨-, hsame⟩
    · rw [hrows] at ha
      rcases List.mem_cons.mp ha with rfl | ha
      · exact exec_row_isSome h (by rw [(World.eligible_cases he).1]; rfl)
      · exact exec_row_isSome h (hI.opened a ha)
    · exact exec_row_isSome h (hI.opened a (hsame ▸ ha))
  · intro k hk
    have hnone : w.balanceRow k = none := by
      by_contra hb
      have := exec_row_isSome h (Option.isSome_iff_ne_none.mpr hb)
      rw [hk] at this
      cases this
    rw [corrected_unopened hnone h, hI.unopened k hnone, add_zero]
  · intro a ha
    rcases exec_applications h with ⟨l, p, b, m, -, he, -, hrows⟩ | ⟨-, hsame⟩
    · rw [hrows] at ha
      rcases List.mem_cons.mp ha with rfl | ha
      · obtain ⟨-, x, hx, hminor, hloan, -⟩ := World.eligible_cases he
        obtain ⟨hmem, hid⟩ := World.payment_mem hx
        exact exec_recorded ⟨x, hmem, hid, hloan, hminor⟩ h
      · exact exec_recorded (hI.recorded a ha) h
    · exact exec_recorded (hI.recorded a (hsame ▸ ha)) h

theorem Books.env (hI : Books adj w) (v : Env) : Books adj (w.env v) := by
  obtain ⟨-, -, hpay, happ⟩ := w.env_frame v
  constructor
  · intro k b hb
    rw [env_row] at hb
    rw [env_loan, World.credits, happ, ← World.credits]
    exact hI.equation k b hb
  · intro a ha
    rw [happ] at ha
    rw [env_row]
    exact hI.opened a ha
  · intro k hk
    rw [env_row] at hk
    exact hI.unopened k hk
  · intro a ha
    rw [happ] at ha
    unfold Recorded
    rw [hpay]
    exact hI.recorded a ha

end Step

theorem exec_insertLoan {a : Option Int} {k : Int} {x : ℚ} {w w' : World}
    (h : w.exec (.insertLoan a x) = some (.ok k, w')) :
    ∃ l, w'.loan k = some l ∧ l.principal = x := by
  rcases exec_loans h with ⟨a, y, hsr, hrows⟩ | ⟨hne, -⟩
  · cases hsr
    exact ⟨⟨w.loans.next, a, x⟩, by rw [World.loan, hrows]; simp, rfl⟩
  · exact absurd rfl (hne a x k)

/-- The loan read by its application is the loan its id names. -/
theorem exec_selectLoan {a k : Int} {x : ℚ} {w w' : World}
    (h : w.exec (.selectLoan a) = some (some (k, x), w')) :
    ∃ l, w'.loan k = some l ∧ l.principal = x := by
  obtain ⟨hr, rfl⟩ := exec_eq rfl h
  obtain ⟨l, hl, hkx⟩ := Option.map_eq_some_iff.mp hr.symm
  cases hkx
  exact ⟨l, w'.loans.find_pk (List.mem_of_find?_eq_some hl), rfl⟩

/-- A balance a call opens is the principal of the loan it boarded or read. -/
theorem opens_with_principal {d : Deployment} {tasks : ι → Task} {w₀ : World}
    {tr : List (Entry ledger ι)} {c : Config ledger ι Answer} (h : Run (start d tasks w₀) tr c)
    {i : ι} {k : Int} {x : ℚ} (ha : Allowed (own i tr) (.insertBalance k x)) :
    ∃ l, c.world.loan k = some l ∧ l.principal = x := by
  have hexec : ∀ (s : Stmt) (w : World) (r : s.Res) (w' : World),
      (∃ l, w.loan k = some l ∧ l.principal = x) → w.exec s = some (r, w') →
      ∃ l, w'.loan k = some l ∧ l.principal = x :=
    fun s w r w' ⟨l, hl, hx⟩ he => ⟨l, exec_loan he hl, hx⟩
  have henv : ∀ (v : Env) (w : World), (∃ l, w.loan k = some l ∧ l.principal = x) →
      ∃ l, (w.env v).loan k = some l ∧ l.principal = x := fun v w hw => by
    rw [env_loan]
    exact hw
  rcases ha with ⟨a, hmem⟩ | ⟨a, hmem⟩
  · refine h.established (P := fun w : World => ∃ l, w.loan k = some l ∧ l.principal = x) hmem
      (fun w w' he => exec_insertLoan he) hexec henv
  · refine h.established (P := fun w : World => ∃ l, w.loan k = some l ∧ l.principal = x) hmem
      (fun w w' he => exec_selectLoan he) hexec henv

theorem books {d : Deployment} {tasks : ι → Task} {w₀ : World} (h0 : Books (fun _ => 0) w₀)
    {tr : List (Entry ledger ι)} {c : Config ledger ι Answer} (h : Run (start d tasks w₀) tr c) :
    Books (fun k => adjusted k tr) c.world := by
  have hnil : Books (fun k => adjusted k ([] : List (Entry ledger ι))) w₀ := h0
  refine Run.invariant (C := fun _ _ => True) (I := fun tr w => Books (fun k => adjusted k tr) w)
    (fun i => task_obeys d (tasks i)) hnil (fun tr c i s r w h hI hs hx _ => ?_)
    (fun tr c v _ hI _ => ?_) h (along_true tr)
  · refine hI.step hx fun k x hsx => ?_
    subst hsx
    exact opens_with_principal h hs
  · have hadj : (fun k => adjusted k (.env v c.world (World.env v c.world) :: tr)) =
        fun k => adjusted k tr := by
      funext k
      simp [adjusted, adjustment]
    rw [hadj]
    exact hI.env v

/-! ## A refused apply -/

/-- A statement that may write `balances` or `payment_applications`. -/
def touches : Answered → Bool
  | ⟨.apply _ _, some _⟩ | ⟨.adjust _ _ _, some _⟩ | ⟨.waive _ _, _⟩ | ⟨.setPastDue _ _, _⟩
  | ⟨.insertBalance _ _, _⟩ => true
  | _ => false

/-- No statement of the log touches either table. -/
def Untouched (l : Log ledger) : Prop := ∀ x ∈ l, touches x = false

/-- The call's `apply_payment` refused. -/
def Refused : Answer → Prop
  | .applied (.error _) => True
  | .responded code => code = 422
  | .serviced (.ok r) => r.status = some .capturedUnapplied
  | _ => False

theorem touches_of_figures {x : Answered} {y : Int × (Balance → Balance)}
    (h : figures x = some y) : touches x = true := by
  unfold figures at h
  split at h
  · rfl
  · rfl
  · rfl
  · rfl
  · cases h

theorem exec_untouched {s : Stmt} {r : s.Res} {w w' : World} (hs : touches ⟨s, r⟩ = false)
    (h : w.exec s = some (r, w')) :
    w'.balances = w.balances ∧ w'.applications = w.applications := by
  constructor
  · rcases exec_balances h with ⟨l, f, hf, -⟩ | ⟨l, x, rfl, -⟩ | ⟨-, hsame⟩
    · rw [touches_of_figures hf] at hs
      cases hs
    · cases hs
    · exact hsame
  · rcases exec_applications h with ⟨l, p, b, m, hsr, -⟩ | ⟨-, hsame⟩
    · cases hsr
      cases hs
    · exact hsame

section Refusals

variable {l : Log ledger} {loanId id : Int}

theorem Untouched.cons {x : Answered} (h : Untouched l) (hx : touches x = false) :
    Untouched (x :: l) := by
  intro y hy
  rcases List.mem_cons.mp hy with rfl | hy
  · exact hx
  · exact h y hy

theorem Lost.untouched {a : Intent} (h : Lost a l) : Untouched l := by
  rintro ⟨s, r⟩ hx
  rcases (h _ hx).1 with hs | hs | hs <;> (cases hs; rfl)

theorem applyPayment_refuses (h : Untouched l) : (applyPayment loanId id).Obeys (fun _ _ => True)
    (fun l' r => ∀ e, r = .error e → Untouched l') l := by
  refine ⟨trivial, fun row => ?_⟩
  cases row with
  | some row => exact nofun
  | none =>
    refine ⟨trivial, fun prior => ?_⟩
    have hread : Untouched (⟨.alreadyApplied id, prior⟩ :: ⟨.apply loanId id, none⟩ :: l) :=
      (h.cons rfl).cons rfl
    cases prior with
    | none => exact fun _ _ => hread
    | some prior =>
      change Prog.Obeys _ _ _ (if prior.loanId ≠ loanId then _ else _)
      split
      · exact fun _ _ => hread
      · exact ⟨trivial, fun _ => nofun⟩

theorem capture_refuses (c : ChargeIn) (h : Untouched l) :
    (Servicing.capture c id).Obeys (fun _ _ => True)
      (fun l' r => r.status = some .capturedUnapplied → Untouched l') l := by
  refine ⟨trivial, fun _ => (obeys_bind (applyPayment c.loanId id) _).mpr ?_⟩
  refine (applyPayment_refuses (h.cons rfl)).mono (fun _ _ h => h) fun l' r hr => ?_
  cases r with
  | ok b => exact nofun
  | error e => exact ⟨trivial, fun _ _ => (hr e rfl).cons rfl⟩

/-- **A refused call touches neither table.** -/
theorem task_refuses (d : Deployment) (t : Task) :
    (t.prog d).Obeys (fun _ _ => True) (fun l r => Refused r → Untouched l) [] := by
  have hnil : Untouched [] := fun _ h => absurd h List.not_mem_nil
  cases t with
  | applyPayment loanId id =>
    refine (obeys_bind (applyPayment loanId id) _).mpr ?_
    refine (applyPayment_refuses hnil).mono (fun _ _ h => h) fun l r hr => ?_
    cases r with
    | ok b => exact nofun
    | error e => exact fun _ => hr e rfl
  | applyRoute x =>
    refine (obeys_bind (Servicing.applyRoute x) _).mpr ⟨trivial, fun r => ?_⟩
    obtain ⟨loanId, id⟩ := r
    refine (obeys_bind (applyPayment loanId id) _).mpr ?_
    refine (applyPayment_refuses (hnil.cons rfl)).mono (fun _ _ h => h) fun l r hr => ?_
    cases r with
    | ok b => exact ⟨trivial, fun _ => nofun⟩
    | error e => exact ⟨trivial, fun _ _ => (hr e rfl).cons rfl⟩
  | serviceCharge c =>
    refine (obeys_bind (Servicing.charge d c) _).mpr ?_
    unfold Servicing.charge
    split
    · exact nofun
    · exact nofun
    · split
      · exact nofun
      · rename_i a _
        refine (obeys_bind (claimOrBranch a) _).mpr ?_
        refine (claimOrBranch_obeys a).mono (fun _ _ _ => trivial) fun l r hr => ?_
        cases r with
        | claimed id =>
          obtain ⟨l', rfl, hlost⟩ := hr
          refine (obeys_bind (Servicing.capture c id) _).mpr ?_
          exact (capture_refuses c (hlost.untouched.cons rfl)).mono (fun _ _ h => h)
            fun l r hr => hr
        | _ => exact nofun
  | _ => exact (obeys_bind _ _).mpr ((obeys_true _).mono (fun _ _ h => h) fun _ _ _ => nofun)

end Refusals

/-- A call that answers a refused apply has, at each of its statements, left both tables alone. -/
theorem refused_untouched {d : Deployment} {tasks : ι → Task} {w₀ : World}
    {tr tr' : List (Entry ledger ι)} {c : Config ledger ι Answer}
    (h : Run (start d tasks w₀) tr c) {i : ι} {a : Answer} (ha : c.procs i = .ret a)
    (href : Refused a) {s : Stmt} {r : s.Res} {w w' : World}
    (hs : .call i s r w w' :: tr' <:+ tr) :
    w'.balances = w.balances ∧ w'.applications = w.applications :=
  exec_untouched (h.returned (fun j => task_refuses d (tasks j)) ha href _ (mem_own_of_suffix hs))
    (h.exec hs)

/-- **The balance equation.** -/
theorem balance_equation (d : Deployment) (tasks : ι → Task) (w₀ : World)
    (h0 : Books (fun _ => 0) w₀) {tr : List (Entry ledger ι)} {c : Config ledger ι Answer}
    (h : Run (start d tasks w₀) tr c) :
    (∀ k b, c.world.balanceRow k = some b → ∃ l, c.world.loan k = some l ∧
      b.balance = l.principal - c.world.credits k + adjusted k tr) ∧
    (c.world.applications.rows.Pairwise fun a a' => a.paymentId ≠ a'.paymentId) ∧
    (∀ a ∈ c.world.applications.rows, Recorded c.world a) ∧
    (∀ i a, c.procs i = .ret a → Refused a → ∀ s r w w' tr', .call i s r w w' :: tr' <:+ tr →
      w'.balances = w.balances ∧ w'.applications = w.applications) := by
  have hI := books h0 h
  refine ⟨hI.equation, c.world.applications.unique.imp fun {a a'} ha hid => ?_, hI.recorded,
    fun i a hret href s r w w' tr' hs => refused_untouched h hret href hs⟩
  have hclash : samePayment a a' = true := clashOn_iff.mpr ⟨a'.paymentId, congrArg some hid, rfl⟩
  rw [ha] at hclash
  cases hclash

/-- Boarding loan 1, a charge of 12.5 through servicing, and a correction of 987.5 to 980. -/
def chargeThenCorrect : Caller → Task
  | .first => .board none 1000
  | .second => .serviceCharge sampleCharge
  | .third => .adjustBalance 1 980 (1975 / 2)

def oneAfterAnother : List (Pick ledger Caller) :=
  [.call .first, .call .first, .call .second, .call .second, .call .second, .call .third]

theorem books_balance : ∃ tr c, Run (start sampleDeployment chargeThenCorrect World.fresh) tr c ∧
    ∃ l, c.world.loan 1 = some l ∧ 980 = l.principal - c.world.credits 1 + adjusted 1 tr := by
  refine ⟨_, _, run_of_playAll oneAfterAnother (by decide +kernel), ?_⟩
  exact (balance_equation sampleDeployment chargeThenCorrect World.fresh books_fresh
    (run_of_playAll oneAfterAnother (by decide +kernel))).1 1 ⟨1, 980, some 0⟩ (by decide +kernel)

end Meridian.Ledger
