import Meridian.Ledger.Services

/-!
# What one call issues and returns on its own

Every call, whatever the others do between its statements, keeps to `Allowed`: it finalizes and
posts only a payment it claimed itself, answers 200 only after its own apply credited or found the
payment applied, writes `past_due` from its own read right before, and opens a balance only with
the principal of the loan it boarded or read. `Answers` says what its answer follows from.

`task_obeys` states both for every task; by `Run.obeys` they hold in every interleaving.
-/

namespace Meridian.Ledger

open Python Interleave

/-- The call claimed the payment itself. -/
def Won (l : Log ledger) (id : Int) : Prop := ∃ a, ⟨.claim a, .ok (some id)⟩ ∈ l

/-- The call's own apply credited the payment, or its read found it applied. -/
def Credited (l : Log ledger) (loanId paymentId : Int) : Prop :=
  (∃ row, ⟨.apply loanId paymentId, some row⟩ ∈ l) ∨
    ∃ prior, ⟨.alreadyApplied paymentId, some prior⟩ ∈ l

/-- What a call may issue after its own statements `l`. -/
def Allowed (l : Log ledger) : Stmt → Prop
  | .finalize _ id | .post _ id => Won l id
  | .respond x code => ∃ loanId paymentId, ⟨.recv x, (loanId, paymentId)⟩ ∈ l ∧
      ((Outcome.status code).ok = true → Credited l loanId paymentId)
  | .setPastDue new loanId => ∃ rows old, l.head? = some ⟨.selectPastDue loanId, rows⟩ ∧
      rows.getD (some 0) = some old ∧ new = old + lateFeeFlat
  | .insertBalance loanId x => (∃ a, ⟨.insertLoan a x, .ok loanId⟩ ∈ l) ∨
      ∃ a, ⟨.selectLoan a, some (loanId, x)⟩ ∈ l
  | _ => True

/-! ## The claim -/

/-- The statements of `claim_or_branch`. -/
def ClaimStmt (a : Intent) (s : Stmt) : Prop :=
  s = .claim a ∨ s = .readByKey a.key ∨ s = .retire a.key

/-- Only statements of `claim_or_branch`, and no claim that won. -/
def Lost (a : Intent) (l : Log ledger) : Prop :=
  ∀ x ∈ l, ClaimStmt a x.1 ∧ ∀ id, x ≠ ⟨.claim a, .ok (some id)⟩

/-- The key's holder as the call read it. -/
def Read (a : Intent) (l : Log ledger) (e : KeyRow) : Prop := ⟨.readByKey a.key, some e⟩ ∈ l

/-- What an answer of `claim_or_branch` follows from. -/
def Claimed (a : Intent) (l : Log ledger) : Claim → Prop
  | .claimed id => ∃ l', l = ⟨.claim a, .ok (some id)⟩ :: l' ∧ Lost a l'
  | .replay e => Lost a l ∧ Read a l e ∧ e.fingerprint = some a.fingerprint ∧ e.status.terminal
  | .fingerprintMismatch e => Lost a l ∧ Read a l e ∧ e.fingerprint ≠ some a.fingerprint
  | .inFlight (some e) => Lost a l ∧ Read a l e ∧ e.status.terminal = false
  | .inFlight none => Lost a l
  | .raised _ => Lost a l

section Claim

variable {a : Intent} {l : Log ledger}

theorem Lost.nil : Lost a [] := fun _ h => absurd h (by simp)

theorem Lost.cons {x : Answered} (h : Lost a l) (hx : ClaimStmt a x.1)
    (hne : ∀ id, x ≠ ⟨.claim a, .ok (some id)⟩) : Lost a (x :: l) := by
  intro y hy
  rcases List.mem_cons.mp hy with rfl | hy
  · exact ⟨hx, hne⟩
  · exact h y hy

theorem Lost.read (h : Lost a l) (r : Option KeyRow) : Lost a (⟨.readByKey a.key, r⟩ :: l) :=
  h.cons (.inr (.inl rfl)) (by simp)

theorem Lost.retire (h : Lost a l) (r : List Int) : Lost a (⟨.retire a.key, r⟩ :: l) :=
  h.cons (.inr (.inr rfl)) (by simp)

theorem Lost.claim (h : Lost a l) {r : Except DbError (Option Int)} (hr : ∀ id, r ≠ .ok (some id)) :
    Lost a (⟨.claim a, r⟩ :: l) :=
  h.cons (.inl rfl) fun id he => hr id (by simpa using he)

theorem settle_claimed {e : KeyRow} (h : Lost a l) (he : Read a l e) :
    Claimed a l (settle a e) := by
  unfold settle
  split
  · rename_i hf
    exact ⟨h, he, hf⟩
  · rename_i hf
    split
    · rename_i ht
      exact ⟨h, he, ht⟩
    · rename_i ht
      exact ⟨h, he, not_not.mp hf, by simpa using ht⟩

/-- One claim: won, lost, or raised. -/
theorem claim_obeys {k : Except DbError (Option Int) → P Claim} (h : Lost a l)
    (hwon : ∀ id, k (.ok (some id)) = .ret (.claimed id))
    (hraised : ∀ e, k (.error e) = .ret (.raised e))
    (hlost : Lost a (⟨.claim a, .ok none⟩ :: l) →
      (k (.ok none)).Obeys (fun _ => ClaimStmt a) (Claimed a) (⟨.claim a, .ok none⟩ :: l)) :
    (Prog.stmt (M := ledger) (.claim a) k).Obeys (fun _ => ClaimStmt a) (Claimed a) l := by
  refine ⟨.inl rfl, fun r => ?_⟩
  rcases r with e | _ | id
  · rw [hraised]
    exact h.claim (by simp)
  · exact hlost (h.claim (by simp))
  · rw [hwon]
    exact ⟨l, rfl, h⟩

theorem reread_obeys {e : KeyRow} (h : Lost a l) (he : Read a l e) :
    (reread a e).Obeys (fun _ => ClaimStmt a) (Claimed a) l := by
  refine ⟨.inr (.inl rfl), fun r => ?_⟩
  cases r with
  | none => exact settle_claimed (h.read none) (List.mem_cons_of_mem _ he)
  | some again => exact settle_claimed (h.read (some again)) List.mem_cons_self

theorem branch_obeys {e : KeyRow} (h : Lost a l) (he : Read a l e) :
    (branch a e).Obeys (fun _ => ClaimStmt a) (Claimed a) l := by
  unfold branch
  split
  · refine ⟨.inr (.inr rfl), fun ids => ?_⟩
    cases ids with
    | nil => exact reread_obeys (h.retire []) (List.mem_cons_of_mem _ he)
    | cons id ids =>
      refine claim_obeys (h.retire _) (fun _ => rfl) (fun _ => rfl) fun hl => ?_
      exact reread_obeys hl (List.mem_cons_of_mem _ (List.mem_cons_of_mem _ he))
  · exact settle_claimed h he

/-- **`claim_or_branch`**: it claims at most once, and every other answer comes from a row it
read. -/
theorem claimOrBranch_obeys (a : Intent) :
    (claimOrBranch a).Obeys (fun _ => ClaimStmt a) (Claimed a) [] := by
  refine claim_obeys Lost.nil (fun _ => rfl) (fun _ => rfl) fun hl => ⟨.inr (.inl rfl), fun r => ?_⟩
  cases r with
  | some e => exact branch_obeys (hl.read _) List.mem_cons_self
  | none =>
    refine claim_obeys (hl.read none) (fun _ => rfl) (fun _ => rfl) fun hl =>
      ⟨.inr (.inl rfl), fun r => ?_⟩
    cases r with
    | some e => exact branch_obeys (hl.read _) List.mem_cons_self
    | none => exact hl.read none

theorem ClaimStmt.allowed {s : Stmt} (h : ClaimStmt a s) (l : Log ledger) : Allowed l s := by
  rcases h with rfl | rfl | rfl <;> trivial

end Claim

/-! ## Applying and charging -/

/-- The status the call has last given to a payment. -/
def lastStatus (id : Int) : Log ledger → Option Status
  | [] => none
  | ⟨.finalize status id', _⟩ :: l => if id' = id then some status else lastStatus id l
  | _ :: l => lastStatus id l

/-- A charge of payment-service that is done with the payment it claimed: the last status it gave
is the one the outcome of its apply call asks for. -/
def Finished (id : Int) (l : Log ledger) : Prop :=
  Won l id ∧ ∃ loanId x o, ⟨.post loanId id, x⟩ ∈ l ∧ ⟨.await x, o⟩ ∈ l ∧
    lastStatus id l = some (if o.ok then .captured else .capturedUnapplied)

/-- What a reply of payment-service's `charge` follows from. -/
def ChargedFrom (l : Log ledger) : Except Raised Charged → Prop
  | .ok reply =>
    (reply.idempotency = .claimed → ∃ id, reply.paymentId = some id ∧ Finished id l) ∧
    (reply.idempotency = .replay → ∃ a e, Read a l e ∧ reply.paymentId = some e.id ∧
      reply.status = .row e.status ∧ reply.appliedAmount = replayedAmount e)
  | .error _ => True

/-- What a reply of servicing's `charge` follows from. -/
def ServicedFrom (l : Log ledger) : Except Raised Serviced → Prop
  | .ok reply => reply.idempotency = .replay → ∃ a e, Read a l e ∧ reply.paymentId = some e.id ∧
      reply.amount = replayedAmount e
  | .error _ => True

section Charge

variable {l : Log ledger} {loanId id : Int}

/-- **`apply_payment`**: it succeeds only when it credited or found the payment applied. -/
theorem applyPayment_obeys (l : Log ledger) (loanId id : Int) :
    (applyPayment loanId id).Obeys Allowed
      (fun l' r => (∀ x ∈ l, x ∈ l') ∧ (∀ b, r = .ok b → Credited l' loanId id)) l := by
  refine ⟨trivial, fun row => ?_⟩
  cases row with
  | some row =>
    exact ⟨fun x hx => List.mem_cons_of_mem _ hx, fun _ _ => .inl ⟨row, List.mem_cons_self⟩⟩
  | none =>
    refine ⟨trivial, fun prior => ?_⟩
    cases prior with
    | none =>
      exact ⟨fun x hx => List.mem_cons_of_mem _ (List.mem_cons_of_mem _ hx), nofun⟩
    | some prior =>
      change Prog.Obeys _ _ _ (if prior.loanId ≠ loanId then _ else _)
      split
      · exact ⟨fun x hx => List.mem_cons_of_mem _ (List.mem_cons_of_mem _ hx),
          nofun⟩
      · refine ⟨trivial, fun b => ⟨fun x hx => ?_, fun _ _ => .inr ⟨prior, ?_⟩⟩⟩
        · exact List.mem_cons_of_mem _ (List.mem_cons_of_mem _ (List.mem_cons_of_mem _ hx))
        · exact List.mem_cons_of_mem _ List.mem_cons_self

namespace PaymentService

theorem capture_obeys (c : ChargeIn) (h : Won l id) :
    (capture c id).Obeys Allowed (fun l' r => ChargedFrom l' (.ok r)) l := by
  have hwon : ∀ {l' : Log ledger} (x), Won l' id → Won (x :: l') id :=
    fun x ⟨a, ha⟩ => ⟨a, List.mem_cons_of_mem x ha⟩
  refine ⟨h, fun _ => ⟨hwon _ h, fun x => ⟨trivial, fun o => ?_⟩⟩⟩
  have hdone :=
    hwon ⟨.await x, o⟩ (hwon ⟨.post c.loanId id, x⟩ (hwon ⟨.finalize .captured id, ()⟩ h))
  change Prog.Obeys _ _ _ (if o.ok = true then _ else _)
  split
  · rename_i ho
    refine ⟨fun _ => ⟨id, rfl, hdone, c.loanId, x, o, ?_, ?_, ?_⟩, nofun⟩
    · exact List.mem_cons_of_mem _ List.mem_cons_self
    · exact List.mem_cons_self
    · simp [lastStatus, ho]
  · rename_i ho
    refine ⟨hdone, fun _ => ⟨fun _ => ⟨id, rfl, hwon _ hdone, c.loanId, x, o, ?_, ?_, ?_⟩, nofun⟩⟩
    · exact List.mem_cons_of_mem _ (List.mem_cons_of_mem _ List.mem_cons_self)
    · exact List.mem_cons_of_mem _ List.mem_cons_self
    · simp [lastStatus, ho]

/-- **payment-service's `charge`.** -/
theorem charge_obeys (d : Deployment) (c : ChargeIn) :
    (charge d c).Obeys Allowed ChargedFrom [] := by
  unfold charge
  split
  · trivial
  · trivial
  · rename_i key _
    split
    · trivial
    · rename_i a _
      rw [obeys_bind]
      refine (claimOrBranch_obeys a).mono (fun l s hs => hs.allowed l) fun l r hr => ?_
      cases r with
      | claimed id =>
        obtain ⟨l', rfl, -⟩ := hr
        rw [obeys_bind]
        exact capture_obeys c ⟨a, List.mem_cons_self⟩
      | replay e =>
        exact ⟨nofun, fun _ => ⟨a, e, hr.2.1, rfl, rfl, rfl⟩⟩
      | fingerprintMismatch e => exact ⟨nofun, nofun⟩
      | inFlight e => exact ⟨nofun, nofun⟩
      | raised e => trivial

end PaymentService

namespace Servicing

theorem capture_obeys (c : ChargeIn) (h : Won l id) :
    (capture c id).Obeys Allowed (fun l' r => ServicedFrom l' (.ok r)) l := by
  refine ⟨h, fun _ => (obeys_bind (applyPayment c.loanId id) _).mpr ?_⟩
  refine (applyPayment_obeys _ c.loanId id).mono (fun _ _ hs => hs) fun l' r hr => ?_
  cases r with
  | ok b => exact nofun
  | error e =>
    obtain ⟨a, ha⟩ := h
    exact ⟨⟨a, hr.1 _ (List.mem_cons_of_mem _ ha)⟩, fun _ => nofun⟩

/-- **Servicing's `charge`.** -/
theorem charge_obeys (d : Deployment) (c : ChargeIn) :
    (charge d c).Obeys Allowed ServicedFrom [] := by
  unfold charge
  split
  · trivial
  · trivial
  · rename_i key _
    split
    · trivial
    · rename_i a _
      rw [obeys_bind]
      refine (claimOrBranch_obeys a).mono (fun l s hs => hs.allowed l) fun l r hr => ?_
      cases r with
      | claimed id =>
        obtain ⟨l', rfl, -⟩ := hr
        rw [obeys_bind]
        exact capture_obeys c ⟨a, List.mem_cons_self⟩
      | replay e => exact fun _ => ⟨a, e, hr.2.1, rfl, rfl⟩
      | fingerprintMismatch e => exact nofun
      | inFlight e => exact nofun
      | raised e => trivial

/-- **The apply route**: 200 only for a credited payment. -/
theorem applyRoute_obeys (x : Int) :
    (applyRoute x).Obeys Allowed (fun _ _ => True) [] := by
  refine ⟨trivial, fun r => ?_⟩
  obtain ⟨loanId, id⟩ := r
  refine (obeys_bind (applyPayment loanId id) _).mpr ?_
  refine (applyPayment_obeys _ loanId id).mono (fun _ _ hs => hs) fun l' r hr => ?_
  have hrecv := hr.1 _ List.mem_cons_self
  cases r with
  | ok b => exact ⟨⟨loanId, id, hrecv, fun _ => hr.2 b rfl⟩, fun _ => trivial⟩
  | error e => exact ⟨⟨loanId, id, hrecv, nofun⟩, fun _ => trivial⟩

end Servicing

end Charge

/-! ## Corrections and boarding -/

/-- **`waive_fee`**: one statement. -/
theorem waiveFee_obeys (loanId : Int) (amount : ℚ) :
    (waiveFee loanId amount).Obeys Allowed
      (fun l _ => ∃ r, l = [⟨.waive amount loanId, r⟩]) [] := by
  refine ⟨trivial, fun r => ?_⟩
  cases r <;> exact ⟨_, rfl⟩

/-- **`assess_late_fee`**: the write is the read plus the fee, and follows it directly. -/
theorem assessLateFee_obeys (loanId : Int) :
    (assessLateFee loanId).Obeys Allowed (fun l r => ∀ pastDue, r = some pastDue →
      ∃ rows, l = [⟨.setPastDue pastDue loanId, ()⟩, ⟨.selectPastDue loanId, rows⟩]) [] := by
  refine ⟨trivial, fun rows => ?_⟩
  dsimp only [Prog.bind]
  cases hrows : rows.getD (some 0) with
  | none => exact nofun
  | some old =>
    refine ⟨⟨rows, old, rfl, hrows, rfl⟩, fun _ pastDue h => ?_⟩
    cases h
    exact ⟨rows, rfl⟩

theorem adjustBalance_obeys (loanId : Int) (new expected : ℚ) :
    (adjustBalance loanId new expected).Obeys Allowed (fun _ _ => True) [] := by
  refine ⟨trivial, fun r => ?_⟩
  cases r with
  | some b => trivial
  | none => exact ⟨trivial, fun _ => trivial⟩

/-- **`board_to_servicing`**: the balance opens with the boarded principal. -/
theorem boardToServicing_obeys (l : Log ledger) (appId : Option Int) (principal : ℚ) :
    (boardToServicing appId principal).Obeys Allowed
      (fun l' r => ∀ id, r = .ok id → ⟨.insertLoan appId principal, .ok id⟩ ∈ l') l := by
  refine ⟨trivial, fun r => ?_⟩
  cases r with
  | error e => exact nofun
  | ok id =>
    refine ⟨.inl ⟨appId, List.mem_cons_self⟩, fun r => ?_⟩
    cases r with
    | error e => exact nofun
    | ok u =>
      intro id' h
      cases h
      exact List.mem_cons_of_mem _ List.mem_cons_self

theorem healBalance_obeys {l : Log ledger} {loanId : Int} {principal : ℚ}
    (h : Allowed l (.insertBalance loanId principal)) :
    (healBalance loanId principal).Obeys Allowed (fun _ _ => True) l := by
  refine ⟨h, fun r => ?_⟩
  cases r <;> trivial

/-- **`accept_offer`**: the balance is healed with the principal of the loan it boarded or found. -/
theorem acceptOffer_obeys (appId : Int) (guards : Option ℚ) :
    (acceptOffer appId guards).Obeys Allowed (fun _ _ => True) [] := by
  refine ⟨trivial, fun r => ?_⟩
  cases r with
  | some lp =>
    obtain ⟨loanId, principal⟩ := lp
    exact healBalance_obeys (.inr ⟨appId, List.mem_cons_self⟩)
  | none =>
    cases guards with
    | none => trivial
    | some amount =>
      refine (obeys_bind (boardToServicing (some appId) amount) _).mpr ?_
      refine (boardToServicing_obeys _ (some appId) amount).mono (fun _ _ hs => hs) fun l r hr => ?_
      cases r with
      | ok loanId => exact healBalance_obeys (.inl ⟨some appId, hr loanId rfl⟩)
      | error e =>
        cases e with
        | uniqueViolation =>
          refine ⟨trivial, fun r => ?_⟩
          cases r with
          | none => trivial
          | some lp =>
            obtain ⟨loanId, principal⟩ := lp
            exact healBalance_obeys (.inr ⟨appId, List.mem_cons_self⟩)
        | dataError => trivial
        | foreignKeyViolation => trivial

/-! ## Every task -/

/-- What a task's answer follows from. -/
def Answers : Task → Log ledger → Answer → Prop
  | .claimOrBranch a, l, r => ∃ c, r = .claim c ∧ Claimed a l c
  | .charge _, l, r => ∃ x, r = .charged x ∧ ChargedFrom l x
  | .serviceCharge _, l, r => ∃ x, r = .serviced x ∧ ServicedFrom l x
  | .applyRoute _, _, r => ∃ x, r = .responded x
  | .applyPayment _ _, _, r => ∃ x, r = .applied x
  | .adjustBalance _ _ _, _, r => ∃ x, r = .adjusted x
  | .waiveFee loanId amount, l, r => ∃ x, r = .waived x ∧ ∃ row, l = [⟨.waive amount loanId, row⟩]
  | .assessLateFee loanId, l, r => ∃ x, r = .assessed x ∧ ∀ pastDue, x = some pastDue →
      ∃ rows, l = [⟨.setPastDue pastDue loanId, ()⟩, ⟨.selectPastDue loanId, rows⟩]
  | .board _ _, _, r => ∃ x, r = .boarded x
  | .acceptOffer _ _, _, r => ∃ x, r = .accepted x

/-- **Every task keeps to `Allowed` and answers from its own log.** -/
theorem task_obeys (d : Deployment) (t : Task) :
    (t.prog d).Obeys Allowed (Answers t) [] := by
  cases t with
  | claimOrBranch a =>
    refine (obeys_bind (claimOrBranch a) _).mpr ?_
    exact (claimOrBranch_obeys a).mono (fun l s hs => hs.allowed l) fun l c hc => ⟨c, rfl, hc⟩
  | charge c =>
    refine (obeys_bind (PaymentService.charge d c) _).mpr ?_
    exact (PaymentService.charge_obeys d c).mono (fun _ _ h => h) fun l r h => ⟨r, rfl, h⟩
  | serviceCharge c =>
    refine (obeys_bind (Servicing.charge d c) _).mpr ?_
    exact (Servicing.charge_obeys d c).mono (fun _ _ h => h) fun l r h => ⟨r, rfl, h⟩
  | applyRoute x =>
    refine (obeys_bind (Servicing.applyRoute x) _).mpr ?_
    exact (Servicing.applyRoute_obeys x).mono (fun _ _ h => h) fun _ x _ => ⟨x, rfl⟩
  | applyPayment loanId id =>
    refine (obeys_bind (applyPayment loanId id) _).mpr ?_
    exact (applyPayment_obeys [] loanId id).mono (fun _ _ h => h) fun _ x _ => ⟨x, rfl⟩
  | adjustBalance loanId new expected =>
    refine (obeys_bind (adjustBalance loanId new expected) _).mpr ?_
    exact (adjustBalance_obeys loanId new expected).mono (fun _ _ h => h) fun _ x _ => ⟨x, rfl⟩
  | waiveFee loanId amount =>
    refine (obeys_bind (waiveFee loanId amount) _).mpr ?_
    exact (waiveFee_obeys loanId amount).mono (fun _ _ h => h) fun _ x h => ⟨x, rfl, h⟩
  | assessLateFee loanId =>
    refine (obeys_bind (assessLateFee loanId) _).mpr ?_
    exact (assessLateFee_obeys loanId).mono (fun _ _ h => h) fun _ x h => ⟨x, rfl, h⟩
  | board appId principal =>
    refine (obeys_bind (boardToServicing appId principal) _).mpr ?_
    exact (boardToServicing_obeys [] appId principal).mono (fun _ _ h => h) fun _ x _ => ⟨x, rfl⟩
  | acceptOffer appId guards =>
    refine (obeys_bind (acceptOffer appId guards) _).mpr ?_
    exact (acceptOffer_obeys appId guards).mono (fun _ _ h => h) fun _ x _ => ⟨x, rfl⟩

theorem Answers.charged {t : Task} {l : Log ledger} {x : Except Raised Charged}
    (h : Answers t l (.charged x)) : ChargedFrom l x := by
  cases t with
  | charge c =>
    obtain ⟨y, hy, hfrom⟩ := h
    cases hy
    exact hfrom
  | claimOrBranch | serviceCharge | waiveFee | assessLateFee =>
    obtain ⟨y, hy, -⟩ := h
    cases hy
  | _ =>
    obtain ⟨y, hy⟩ := h
    cases hy

theorem Answers.serviced {t : Task} {l : Log ledger} {x : Except Raised Serviced}
    (h : Answers t l (.serviced x)) : ServicedFrom l x := by
  cases t with
  | serviceCharge c =>
    obtain ⟨y, hy, hfrom⟩ := h
    cases hy
    exact hfrom
  | claimOrBranch | charge | waiveFee | assessLateFee =>
    obtain ⟨y, hy, -⟩ := h
    cases hy
  | _ =>
    obtain ⟨y, hy⟩ := h
    cases hy

end Meridian.Ledger
