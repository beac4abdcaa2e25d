import Meridian.Ledger.Capture
import Meridian.Python.JsonAscii

/-!
# What a fingerprint tells apart

The text a fingerprint is the digest of is read back (`dumps_injective`), so under an injective
digest two payments with one fingerprint are the same loan, amount in minor units, method and card.

* `PaymentService.requestFingerprint`, `Servicing.requestFingerprint` are the two copies.
* `Stamped`: every fingerprint in the table is that of its own row.
* `Replays`: a replay answers with a row whose fingerprint is that of the charge itself.
* `replay_same_payment`: the copies agree, they tell payments apart, and in every run a charge that
  is answered as a replay is answered with a row of its own loan, amount, method and card.
-/

namespace Meridian.Ledger

open Python Interleave Prog

/-! ## The two copies -/

/-- payment-service's `request_fingerprint`. -/
def PaymentService.requestFingerprint (sha256 : Text → Text) (loanId amountMinor : Int)
    (method : Text) (pan : Option Text) : Text :=
  let instrument := match pan with
    | some (c :: t) => Item.text (sha256 (c :: t))
    | _ => Item.null
  sha256 (dumps [.int loanId, .int amountMinor, .text method, instrument])

/-- Servicing's `request_fingerprint`. -/
def Servicing.requestFingerprint (sha256 : Text → Text) (loanId amountMinor : Int)
    (method : Text) (pan : Option Text) : Text :=
  let instrument := match pan with
    | some (c :: t) => Item.text (sha256 (c :: t))
    | _ => Item.null
  sha256 (dumps [.int loanId, .int amountMinor, .text method, instrument])

/-- A card string, an empty one being none. -/
def card (pan : Option Text) : Option Text := pan.filter (· ≠ [])

/-- The instrument of a fingerprint. -/
def instrument (sha256 : Text → Text) (pan : Option Text) : Item :=
  (card pan).elim .null fun t => .text (sha256 t)

theorem requestFingerprint_eq (d : Deployment) (loanId minor : Int) (method : Text)
    (pan : Option Text) : requestFingerprint d loanId minor method pan =
      d.sha256 (dumps [.int loanId, .int minor, .text method, instrument d.sha256 pan]) := by
  cases pan with
  | none => rfl
  | some t => cases t <;> rfl

theorem payment_fingerprint (d : Deployment) (loanId minor : Int) (method : Text)
    (pan : Option Text) : PaymentService.requestFingerprint d.sha256 loanId minor method pan =
      requestFingerprint d loanId minor method pan := by
  cases pan with
  | none => rfl
  | some t => cases t <;> rfl

theorem servicing_fingerprint (d : Deployment) (loanId minor : Int) (method : Text)
    (pan : Option Text) : Servicing.requestFingerprint d.sha256 loanId minor method pan =
      requestFingerprint d loanId minor method pan := by
  cases pan with
  | none => rfl
  | some t => cases t <;> rfl

theorem instrument_inj {sha256 : Text → Text} (hsha : Function.Injective sha256)
    {pan pan' : Option Text} (h : instrument sha256 pan = instrument sha256 pan') :
    card pan = card pan' := by
  unfold instrument at h
  cases hc : card pan with
  | none =>
    cases hc' : card pan' with
    | none => rfl
    | some t' => simp [hc, hc'] at h
  | some t =>
    cases hc' : card pan' with
    | none => simp [hc, hc'] at h
    | some t' =>
      rw [hc, hc'] at h
      rw [hsha (Item.text.inj h)]

/-- **Fingerprints tell payments apart.** -/
theorem fingerprint_inj {d : Deployment} (hsha : Function.Injective d.sha256)
    {loanId loanId' minor minor' : Int} {method method' : Text} {pan pan' : Option Text} :
    requestFingerprint d loanId minor method pan = requestFingerprint d loanId' minor' method' pan' ↔
      loanId = loanId' ∧ minor = minor' ∧ method = method' ∧ card pan = card pan' := by
  rw [requestFingerprint_eq, requestFingerprint_eq]
  constructor
  · intro h
    have hitems := dumps_injective (hsha h)
    simp only [List.cons.injEq, Item.int.injEq, Item.text.injEq, and_true] at hitems
    exact ⟨hitems.1, hitems.2.1, hitems.2.2.1, instrument_inj hsha hitems.2.2.2⟩
  · rintro ⟨rfl, rfl, rfl, hcard⟩
    rw [instrument, instrument, hcard]

/-! ## What a call claims and replays -/

/-- The fingerprint of an intent is that of its own fields. -/
def Intent.Stamped (d : Deployment) (a : Intent) : Prop :=
  a.fingerprint = requestFingerprint d a.loanId a.amountMinor a.method a.pan

def Stmt.claims : Stmt → Bool
  | .claim _ => true
  | _ => false

/-- Only stamped intents are claimed. -/
def Stamps (d : Deployment) (s : Stmt) : Prop := ∀ a, s = .claim a → a.Stamped d

/-- A row that was read for a charge, with the fingerprint of the charge. -/
def Matched (d : Deployment) (c : ChargeIn) (l : Log ledger) (id : Option Int) : Prop :=
  ∃ key e m, ⟨.readByKey key, some e⟩ ∈ l ∧ id = some e.id ∧ amountMinor c.amount = .ok m ∧
    e.fingerprint = some (requestFingerprint d c.loanId m c.method c.pan)

/-- What a charge answered as a replay is answered with. -/
def PaymentService.Replays (d : Deployment) (c : ChargeIn) (l : Log ledger) :
    Except Raised Charged → Prop
  | .ok r => r.idempotency = .replay → Matched d c l r.paymentId
  | .error _ => True

def Servicing.Replays (d : Deployment) (c : ChargeIn) (l : Log ledger) :
    Except Raised Serviced → Prop
  | .ok r => r.idempotency = .replay → Matched d c l r.paymentId
  | .error _ => True

def Replays (d : Deployment) : Task → Log ledger → Answer → Prop
  | .charge c, l, .charged r => PaymentService.Replays d c l r
  | .serviceCharge c, l, .serviced r => Servicing.Replays d c l r
  | _, _, _ => True

/-- `claim_or_branch` is called with the intent of a charge. -/
def Task.FromCharge (d : Deployment) : Task → Prop
  | .claimOrBranch a => a.Stamped d
  | _ => True

section Obeyed

variable {d : Deployment} {c : ChargeIn} {l : Log ledger}

theorem chargeIntent_stamped {ttl key : Text} {a : Intent} (h : chargeIntent d ttl c key = .ok a) :
    a.Stamped d ∧ ∃ m, amountMinor c.amount = .ok m ∧
      a.fingerprint = requestFingerprint d c.loanId m c.method c.pan := by
  unfold chargeIntent at h
  cases hm : amountMinor c.amount with
  | error e =>
    rw [hm] at h
    cases h
  | ok m =>
    rw [hm] at h
    cases h
    exact ⟨rfl, m, rfl, rfl⟩

theorem ClaimStmt.stamps {a : Intent} (ha : a.Stamped d) {s : Stmt} (h : ClaimStmt a s) :
    Stamps d s := by
  rintro b rfl
  rcases h with h | h | h
  · cases h
    exact ha
  · cases h
  · cases h

/-- The program issues no claim. -/
def Claimless {α : Type} (p : P α) : Prop :=
  ∀ l : Log ledger, p.Obeys (fun _ (s : Stmt) => s.claims = false) (fun _ _ => True) l

theorem Claimless.ret {α : Type} (a : α) : Claimless (.ret a) := fun _ => trivial

theorem stamps_of_not {s : Stmt} (h : s.claims = false) : Stamps d s := by
  rintro a rfl
  cases h

theorem Claimless.stmt {α : Type} {s : Stmt} {k : s.Res → P α} (hs : s.claims = false)
    (hk : ∀ r, Claimless (k r)) : Claimless (.stmt s k) := fun _ => ⟨hs, fun r => hk r _⟩

theorem Claimless.bind {α β : Type} {p : P α} {f : α → P β} (hp : Claimless p)
    (hf : ∀ a, Claimless (f a)) : Claimless (p >>= f) := fun l =>
  (obeys_bind p f).mpr ((hp l).mono (fun _ _ h => h) fun l a _ => hf a l)

theorem Claimless.obeys {α : Type} {p : P α} (h : Claimless p) {Q : Log ledger → α → Prop}
    (hQ : ∀ l a, Q l a) (l : Log ledger) : p.Obeys (fun _ s => Stamps d s) Q l :=
  (h l).mono (fun _ _ hs => stamps_of_not hs) fun l a _ => hQ l a

theorem applyPayment_claimless (loanId id : Int) : Claimless (applyPayment loanId id) := by
  refine .stmt rfl fun row => ?_
  cases row with
  | some row => exact .ret _
  | none =>
    refine .stmt rfl fun prior => ?_
    cases prior with
    | none => exact .ret _
    | some prior =>
      change Claimless (if prior.loanId ≠ loanId then _ else _)
      split
      · exact .ret _
      · exact .stmt rfl fun _ => .ret _

theorem applyRoute_claimless (x : Int) : Claimless (Servicing.applyRoute x) := by
  refine .stmt rfl fun r => ?_
  obtain ⟨loanId, id⟩ := r
  refine Claimless.bind (p := applyPayment loanId id) (applyPayment_claimless loanId id) fun r => ?_
  cases r <;> exact .stmt rfl fun _ => .ret _

theorem adjustBalance_claimless (loanId : Int) (new expected : ℚ) :
    Claimless (adjustBalance loanId new expected) := by
  refine .stmt rfl fun r => ?_
  cases r with
  | some b => exact .ret _
  | none => exact .stmt rfl fun _ => .ret _

theorem waiveFee_claimless (loanId : Int) (amount : ℚ) : Claimless (waiveFee loanId amount) := by
  refine .stmt rfl fun r => ?_
  cases r <;> exact .ret _

theorem assessLateFee_claimless (loanId : Int) : Claimless (assessLateFee loanId) := by
  refine .stmt rfl fun rows => ?_
  dsimp only [Prog.bind]
  cases rows.getD (some 0) with
  | none => exact .ret _
  | some old => exact .stmt rfl fun _ => .ret _

theorem boardToServicing_claimless (appId : Option Int) (principal : ℚ) :
    Claimless (boardToServicing appId principal) := by
  refine .stmt rfl fun r => ?_
  cases r with
  | error e => exact .ret _
  | ok id =>
    refine .stmt rfl fun r => ?_
    cases r <;> exact .ret _

theorem healBalance_claimless (loanId : Int) (principal : ℚ) :
    Claimless (healBalance loanId principal) := by
  refine .stmt rfl fun r => ?_
  cases r <;> exact .ret _

theorem acceptOffer_claimless (appId : Int) (guards : Option ℚ) :
    Claimless (acceptOffer appId guards) := by
  refine .stmt rfl fun r => ?_
  cases r with
  | some lp => exact healBalance_claimless lp.1 lp.2
  | none =>
    cases guards with
    | none => exact .ret _
    | some amount =>
      refine Claimless.bind (p := boardToServicing (some appId) amount)
        (boardToServicing_claimless (some appId) amount) fun r => ?_
      cases r with
      | ok loanId => exact healBalance_claimless loanId amount
      | error e =>
        cases e with
        | uniqueViolation =>
          refine .stmt rfl fun r => ?_
          cases r with
          | none => exact .ret _
          | some lp => exact healBalance_claimless lp.1 lp.2
        | dataError => exact .ret _
        | foreignKeyViolation => exact .ret _

/-- **payment-service's `charge`** claims its own intent, and replays a row that matches it. -/
theorem PaymentService.charge_stamps (d : Deployment) (c : ChargeIn) :
    (PaymentService.charge d c).Obeys (fun _ s => Stamps d s) (Replays d c) [] := by
  unfold charge
  split
  · trivial
  · trivial
  · rename_i key _
    split
    · trivial
    · rename_i a ha
      obtain ⟨hstamped, m, hm, hfingerprint⟩ := chargeIntent_stamped ha
      rw [obeys_bind]
      refine (claimOrBranch_obeys a).mono (fun l s hs => hs.stamps hstamped) fun l r hr => ?_
      cases r with
      | claimed id =>
        rw [obeys_bind]
        refine ⟨stamps_of_not rfl, fun _ => ⟨stamps_of_not rfl, fun x =>
          ⟨stamps_of_not rfl, fun o => ?_⟩⟩⟩
        change Prog.Obeys _ _ _ (if o.ok = true then _ else _)
        split
        · exact nofun
        · exact ⟨stamps_of_not rfl, fun _ => nofun⟩
      | replay e =>
        exact fun _ => ⟨_, e, m, hr.2.1, rfl, hm, hfingerprint ▸ hr.2.2.1⟩
      | fingerprintMismatch e => exact nofun
      | inFlight e => exact nofun
      | raised e => trivial

/-- **Servicing's `charge`**, likewise. -/
theorem Servicing.charge_stamps (d : Deployment) (c : ChargeIn) :
    (Servicing.charge d c).Obeys (fun _ s => Stamps d s) (Replays d c) [] := by
  unfold charge
  split
  · trivial
  · trivial
  · rename_i key _
    split
    · trivial
    · rename_i a ha
      obtain ⟨hstamped, m, hm, hfingerprint⟩ := chargeIntent_stamped ha
      rw [obeys_bind]
      refine (claimOrBranch_obeys a).mono (fun l s hs => hs.stamps hstamped) fun l r hr => ?_
      cases r with
      | claimed id =>
        rw [obeys_bind]
        refine ⟨stamps_of_not rfl, fun _ => (obeys_bind (applyPayment c.loanId id) _).mpr ?_⟩
        refine (applyPayment_claimless c.loanId id).obeys (fun l r => ?_) _
        cases r with
        | ok b => exact nofun
        | error e => exact ⟨stamps_of_not rfl, fun _ => nofun⟩
      | replay e =>
        exact fun _ => ⟨_, e, m, hr.2.1, rfl, hm, hfingerprint ▸ hr.2.2.1⟩
      | fingerprintMismatch e => exact nofun
      | inFlight e => exact nofun
      | raised e => trivial

/-- **Every task** claims stamped intents, and replays what matches its charge. -/
theorem task_stamps {t : Task} (ht : t.FromCharge d) :
    (t.prog d).Obeys (fun _ s => Stamps d s) (Replays d t) [] := by
  cases t with
  | claimOrBranch a =>
    refine (obeys_bind (claimOrBranch a) _).mpr ?_
    exact (claimOrBranch_obeys a).mono (fun l s hs => hs.stamps ht) fun _ _ _ => trivial
  | charge c =>
    refine (obeys_bind (PaymentService.charge d c) _).mpr ?_
    exact (PaymentService.charge_stamps d c).mono (fun _ _ h => h) fun _ _ h => h
  | serviceCharge c =>
    refine (obeys_bind (Servicing.charge d c) _).mpr ?_
    exact (Servicing.charge_stamps d c).mono (fun _ _ h => h) fun _ _ h => h
  | applyRoute x =>
    exact (Claimless.bind (applyRoute_claimless x) fun _ => .ret _).obeys (fun _ _ => trivial) []
  | applyPayment loanId id =>
    exact (Claimless.bind (applyPayment_claimless loanId id) fun _ => .ret _).obeys
      (fun _ _ => trivial) []
  | adjustBalance loanId new expected =>
    exact (Claimless.bind (adjustBalance_claimless loanId new expected) fun _ => .ret _).obeys
      (fun _ _ => trivial) []
  | waiveFee loanId amount =>
    exact (Claimless.bind (waiveFee_claimless loanId amount) fun _ => .ret _).obeys
      (fun _ _ => trivial) []
  | assessLateFee loanId =>
    exact (Claimless.bind (assessLateFee_claimless loanId) fun _ => .ret _).obeys
      (fun _ _ => trivial) []
  | board appId principal =>
    exact (Claimless.bind (boardToServicing_claimless appId principal) fun _ => .ret _).obeys
      (fun _ _ => trivial) []
  | acceptOffer appId guards =>
    exact (Claimless.bind (acceptOffer_claimless appId guards) fun _ => .ret _).obeys
      (fun _ _ => trivial) []

end Obeyed

/-! ## Every run -/

/-- Two rows with the same id, loan, amount, method, card and fingerprint. -/
structure SamePayment (p q : Payment) : Prop where
  id : q.id = p.id
  loanId : q.loanId = p.loanId
  pan : q.pan = p.pan
  amountMinor : q.amountMinor = p.amountMinor
  method : q.method = p.method
  fingerprint : q.fingerprint = p.fingerprint

theorem SamePayment.refl (p : Payment) : SamePayment p p := ⟨rfl, rfl, rfl, rfl, rfl, rfl⟩

theorem samePayment_retireRow (w : World) (key : Text) (p : Payment) :
    SamePayment p (w.retireRow key p) := by
  unfold World.retireRow
  split <;> exact ⟨rfl, rfl, rfl, rfl, rfl, rfl⟩

theorem samePayment_finalizeRow (status : Status) (id : Int) (p : Payment) :
    SamePayment p (World.finalizeRow status id p) := by
  unfold World.finalizeRow
  split <;> exact ⟨rfl, rfl, rfl, rfl, rfl, rfl⟩

/-- The fingerprint of a row is that of its own columns. -/
def Payment.Stamped (d : Deployment) (p : Payment) : Prop :=
  ∀ f ∈ p.fingerprint, ∃ loanId m method, p.loanId = some loanId ∧ p.amountMinor = some m ∧
    p.method = some method ∧ f = requestFingerprint d loanId m method p.pan

theorem SamePayment.stamped {d : Deployment} {p q : Payment} (h : SamePayment p q)
    (hp : p.Stamped d) : q.Stamped d := by
  intro f hf
  obtain ⟨loanId, m, method, hloan, hm, hmethod, hfp⟩ := hp f (h.fingerprint ▸ hf)
  exact ⟨loanId, m, method, h.loanId.trans hloan, h.amountMinor.trans hm,
    h.method.trans hmethod, h.pan ▸ hfp⟩

/-- Every row is stamped. -/
def World.Stamped (d : Deployment) (w : World) : Prop := ∀ p ∈ w.payments.rows, p.Stamped d

section Statements

variable {d : Deployment} {s : Stmt} {r : s.Res} {w w' : World}

/-- A statement keeps the payment of every row. -/
theorem samePayment_exec (h : w.exec s = some (r, w')) {p : Payment}
    (hp : p ∈ w.payments.rows) : ∃ q ∈ w'.payments.rows, SamePayment p q := by
  rcases exec_payments h with ⟨a, -, hrows, -⟩ | ⟨key, -, hrows, -⟩ | ⟨status, id, -, hrows, -⟩ |
    ⟨-, -, hrows, -⟩ <;> rw [hrows]
  · exact ⟨p, List.mem_cons_of_mem _ hp, .refl p⟩
  · exact ⟨_, List.mem_map_of_mem hp, samePayment_retireRow w key p⟩
  · exact ⟨_, List.mem_map_of_mem hp, samePayment_finalizeRow status id p⟩
  · exact ⟨p, hp, .refl p⟩

theorem stamped_exec (hw : w.Stamped d) (hs : Stamps d s) (h : w.exec s = some (r, w')) :
    w'.Stamped d := by
  intro q hq
  rcases exec_payments h with ⟨a, hclaim, hrows, -⟩ | ⟨key, -, hrows, -⟩ |
    ⟨status, id, -, hrows, -⟩ | ⟨-, -, hrows, -⟩ <;> rw [hrows] at hq
  · rcases List.mem_cons.mp hq with rfl | hq
    · have hstamped := hs a (congrArg Sigma.fst hclaim)
      intro f hf
      cases hf
      exact ⟨a.loanId, a.amountMinor, a.method, rfl, rfl, rfl, hstamped⟩
    · exact hw q hq
  · obtain ⟨p, hp, rfl⟩ := List.mem_map.mp hq
    exact (samePayment_retireRow w key p).stamped (hw p hp)
  · obtain ⟨p, hp, rfl⟩ := List.mem_map.mp hq
    exact (samePayment_finalizeRow status id p).stamped (hw p hp)
  · exact hw q hq

end Statements

/-- A row of the loan, the amount in minor units, the method and the card of a charge. -/
def IsCharge (c : ChargeIn) (p : Payment) : Prop :=
  p.loanId = some c.loanId ∧ p.method = some c.method ∧ card p.pan = card c.pan ∧
    ∃ m, p.amountMinor = some m ∧ amountMinor c.amount = .ok m

/-- The payment a charge is answered as a replay of. -/
def ReplayOf : Task → Answer → Option (ChargeIn × Option Int)
  | .charge c, .charged (.ok r) => if r.idempotency = .replay then some (c, r.paymentId) else none
  | .serviceCharge c, .serviced (.ok r) =>
    if r.idempotency = .replay then some (c, r.paymentId) else none
  | _, _ => none

theorem matched_of_replays {d : Deployment} {t : Task} {l : Log ledger} {x : Answer}
    (h : Replays d t l x) {c : ChargeIn} {id : Option Int} (hx : ReplayOf t x = some (c, id)) :
    Matched d c l id := by
  cases t with
  | charge c' =>
    cases x with
    | charged y =>
      cases y with
      | error e => cases hx
      | ok reply =>
        simp only [ReplayOf, Option.ite_none_right_eq_some, Option.some.injEq, Prod.mk.injEq] at hx
        obtain ⟨hreplay, rfl, rfl⟩ := hx
        exact h hreplay
    | _ => cases hx
  | serviceCharge c' =>
    cases x with
    | serviced y =>
      cases y with
      | error e => cases hx
      | ok reply =>
        simp only [ReplayOf, Option.ite_none_right_eq_some, Option.some.injEq, Prod.mk.injEq] at hx
        obtain ⟨hreplay, rfl, rfl⟩ := hx
        exact h hreplay
    | _ => cases hx
  | _ => cases hx

section Runs

variable {ι : Type} [DecidableEq ι]

theorem stamped {d : Deployment} {tasks : ι → Task} {w₀ : World} (h0 : w₀.Stamped d)
    (htasks : ∀ i, (tasks i).FromCharge d) {tr : List (Entry ledger ι)}
    {c : Config ledger ι Answer} (h : Run (start d tasks w₀) tr c) : c.world.Stamped d := by
  refine Run.invariant (C := fun _ _ => True) (I := fun _ (w : World) => w.Stamped d)
    (fun i => task_stamps (htasks i)) h0 (fun tr c i s r w _ hI hs hx _ => stamped_exec hI hs hx)
    (fun tr c v _ hI _ p hp => hI p ((World.env_frame c.world v).2.2.1 ▸ hp)) h (along_true tr)

/-- **A replay is the same payment.** Under an injective digest the fingerprints of two charges are
equal exactly when loan, amount in minor units, method and card are, the copies agree, and a charge
that is answered as a replay is answered with a row of its own loan, amount, method and card. -/
theorem replay_same_payment (d : Deployment) (hsha : Function.Injective d.sha256)
    (tasks : ι → Task) (htasks : ∀ i, (tasks i).FromCharge d) (w₀ : World) (h0 : w₀.Stamped d)
    {tr : List (Entry ledger ι)} {c : Config ledger ι Answer}
    (h : Run (start d tasks w₀) tr c) :
    (∀ (loanId loanId' minor minor' : Int) (method method' : Text) (pan pan' : Option Text),
      (PaymentService.requestFingerprint d.sha256 loanId minor method pan =
          PaymentService.requestFingerprint d.sha256 loanId' minor' method' pan' ↔
        loanId = loanId' ∧ minor = minor' ∧ method = method' ∧ card pan = card pan') ∧
      (Servicing.requestFingerprint d.sha256 loanId minor method pan =
          Servicing.requestFingerprint d.sha256 loanId' minor' method' pan' ↔
        loanId = loanId' ∧ minor = minor' ∧ method = method' ∧ card pan = card pan') ∧
      PaymentService.requestFingerprint d.sha256 loanId minor method pan =
        Servicing.requestFingerprint d.sha256 loanId minor method pan) ∧
    ∀ i x charge id, c.procs i = .ret x → ReplayOf (tasks i) x = some (charge, id) →
      ∃ p ∈ c.world.payments.rows, id = some p.id ∧ IsCharge charge p := by
  refine ⟨fun loanId loanId' minor minor' method method' pan pan' => ?_,
    fun i x charge id hret hreplay => ?_⟩
  · simp only [payment_fingerprint, servicing_fingerprint, fingerprint_inj hsha, and_self]
  · have hreplays := h.returned (fun j => task_stamps (htasks j)) hret
    obtain ⟨key, e, m, hmem, rfl, hm, hfingerprint⟩ := matched_of_replays hreplays hreplay
    obtain ⟨w, w', tr', hs⟩ := exists_of_mem_own hmem
    obtain ⟨rfl, p, hp, -, rfl⟩ := exec_readByKey (h.exec hs)
    obtain ⟨c₁, c₂, h₁, hstep⟩ := h.entry hs
    have hstamped := stamped h0 htasks h₁
    rw [← hstep.pre_eq] at hstamped
    obtain ⟨l, m', method, hloan, hm', hmethod, hf⟩ := hstamped p hp _ hfingerprint
    obtain ⟨rfl, rfl, rfl, hcard⟩ := (fingerprint_inj hsha).mp hf
    -- the row keeps its payment to the end of the run
    obtain ⟨q, hq, hsame⟩ := h.persist (P := fun w : World => ∃ q ∈ w.payments.rows, SamePayment p q)
      (fun s w r w' ⟨q, hq, hsame⟩ hx => by
        obtain ⟨q', hq', hsame'⟩ := samePayment_exec hx hq
        exact ⟨q', hq', ⟨hsame'.id.trans hsame.id, hsame'.loanId.trans hsame.loanId,
          hsame'.pan.trans hsame.pan, hsame'.amountMinor.trans hsame.amountMinor,
          hsame'.method.trans hsame.method, hsame'.fingerprint.trans hsame.fingerprint⟩⟩)
      (fun v w ⟨q, hq, hsame⟩ => ⟨q, (World.env_frame w v).2.2.1 ▸ hq, hsame⟩) hs ⟨p, hp, .refl p⟩
    exact ⟨q, hq, congrArg some hsame.id.symm, hsame.loanId.trans hloan, hsame.method.trans hmethod,
      by rw [hsame.pan]; exact hcard.symm, _, hsame.amountMinor.trans hm', hm⟩

end Runs

/-- A digest that is the real one on the text of the sample charge, and tells the others apart. -/
def tellingDeployment : Deployment :=
  { sampleDeployment with
    sha256 := fun t =>
      if t = dumps [.int 1, .int 1250, .text ['c', 'a', 'r', 'd'], .null] then
        sampleDeployment.sha256 t
      else 'x' :: t }

theorem telling_injective : Function.Injective tellingDeployment.sha256 := by
  have hhead : (tellingDeployment.sha256
      (dumps [.int 1, .int 1250, .text ['c', 'a', 'r', 'd'], .null])).head? = some '8' := by
    decide +kernel
  have hother : ∀ t, t ≠ dumps [.int 1, .int 1250, .text ['c', 'a', 'r', 'd'], .null] →
      tellingDeployment.sha256 t = 'x' :: t := fun t ht => if_neg ht
  intro t u h
  by_cases ht : t = dumps [.int 1, .int 1250, .text ['c', 'a', 'r', 'd'], .null] <;>
    by_cases hu : u = dumps [.int 1, .int 1250, .text ['c', 'a', 'r', 'd'], .null]
  · rw [ht, hu]
  · rw [ht, hother u hu] at h
    rw [h] at hhead
    cases hhead
  · rw [hu, hother t ht] at h
    rw [← h] at hhead
    cases hhead
  · rw [hother t ht, hother u hu] at h
    exact (List.cons.inj h).2

theorem retry_same_payment : ∃ tr c,
    Run (start tellingDeployment chargeAndRetry World.fresh) tr c ∧
    ∃ p ∈ c.world.payments.rows, some 1 = some p.id ∧ IsCharge sampleCharge p := by
  refine ⟨_, _, run_of_playAll retryAfterApply (by decide +kernel), ?_⟩
  refine (replay_same_payment tellingDeployment telling_injective chargeAndRetry
    (fun i => by cases i <;> trivial) World.fresh (fun _ hp => absurd hp List.not_mem_nil)
    (run_of_playAll retryAfterApply (by decide +kernel))).2 .third
    (.serviced (.ok ⟨1, sampleAmount, none, some 1, .replay, none⟩)) sampleCharge (some 1)
    (Prog.eq_ret_of_result (by decide +kernel)) rfl

end Meridian.Ledger
