import Meridian.Intake.Services

/-!
# What a statement can do

`Effect w x w'` says everything an executed statement can do to the tables, with what it checked
before; `exec_effect` proves it of every statement, and every invariant is derived from it. The rest
of the module says table by table what that means: which rows stay, and where a new one comes from.
-/

namespace Meridian.Intake

open Python Relational Interleave
open Origination (Outcome)

variable {ι : Type} [DecidableEq ι] {S : Supply}

/-- A statement with its answer, as a log holds it. -/
abbrev Answered (ι : Type) := (s : Stmt ι) × s.Res

/-- The open transactions a statement leaves when it is part of one. -/
inductive Moved (w : World ι) : Answered ι → List (Transaction ι) → Prop
  | connect (i : ι) : Moved w ⟨.connect i, ()⟩ (⟨i, [], [], []⟩ :: w.others i)
  | rollback (i : ι) : Moved w ⟨.rollback i, ()⟩ (w.others i)
  | application {i : ι} {appId : Int} {t : Transaction ι} (ht : w.transaction i = some t)
      (hfree : ∀ t' ∈ w.others i, appId ∉ t'.applications) (happ : w.application appId ≠ none)
      (href : ¬ w.Referenced appId) : Moved w ⟨.deleteApplication i appId, .ok ()⟩
        ({ t with applications := appId :: t.applications } :: w.others i)
  | kyc {i : ι} {p : Int} {t : Transaction ι} (ht : w.transaction i = some t) :
      Moved w ⟨.deleteKyc i p, .ok ()⟩
        ({ t with kycChecks := w.kycOf p ++ t.kycChecks } :: w.others i)
  | applicant {i : ι} {p : Int} {t : Transaction ι} (ht : w.transaction i = some t)
      (happ : w.applicant p ≠ none) (hother : w.otherApplication t p = false)
      (hkyc : ∀ k ∈ w.kycOf p, k ∈ t.kycChecks) :
      Moved w ⟨.deleteApplicant i p, .ok ()⟩
        ({ t with applicants := p :: t.applicants } :: w.others i)

/-- What an executed statement can do. -/
inductive Effect (w : World ι) : Answered ι → World ι → Prop
  | same (x : Answered ι) : Effect w x w
  | draw (x : Answered ι) (n : ℕ) (hn : w.drawn ≤ n) : Effect w x { w with drawn := n }
  | submit (name : Text) (amount : Double) (termMonths : Int) (token : Text) (expiresAt : Int) :
      Effect w ⟨.insertApplication name amount termMonths token expiresAt,
        (w.insertApplication name amount termMonths token expiresAt).1⟩
        (w.insertApplication name amount termMonths token expiresAt).2
  | unboarded (x : Answered ι) (t : Serial LoanRow LoanRow.id sameLoanApp)
      (ht : t.rows = w.loans.rows) : Effect w x { w with loans := t }
  | board {appId : Int} {name : Text} {principal apr noteRate : Double} {termMonths : Int}
      (t : Serial LoanRow LoanRow.id sameLoanApp) (ht : t.rows =
        ⟨w.loans.next, some appId, name, principal, apr, noteRate, termMonths⟩ :: w.loans.rows) :
      Effect w ⟨.insertLoan appId name principal apr noteRate termMonths, .ok w.loans.next⟩
        { w with loans := t }
  | balance {loanId : Int} {balance : Double} (t : Table BalanceRow sameLoan)
      (hloan : ∃ l ∈ w.loans.rows, l.id = loanId) (ht : t.rows = ⟨loanId, balance⟩ :: w.balances.rows) :
      Effect w ⟨.insertBalance loanId balance, .ok ()⟩ { w with balances := t }
  | fund {appId : Int} (hfree : ¬ w.Deleting appId) : Effect w ⟨.fund appId, ()⟩ (w.fund appId)
  | undecided (x : Answered ι) : Effect w x { w with events := w.events.skip }
  | decide {appId : Int} {outcome : Outcome} (hfree : ¬ w.Deleting appId)
      (happ : w.application appId ≠ none) (t : Serial EventRow EventRow.id noClash)
      (ht : t.rows = ⟨w.events.next, appId⟩ :: w.events.rows) :
      Effect w ⟨.persistEvent appId outcome, .ok w.events.next⟩ { w with
        events := t, decisions := Function.update w.decisions appId (some outcome) }
  | unoffered (x : Answered ι) (t : Serial OfferRow OfferRow.id sameApp)
      (ht : t.rows = w.offers.rows) : Effect w x { w with offers := t }
  | offer {appId : Int} {e : Option Int} (hfree : ¬ w.Deleting appId)
      (happ : w.application appId ≠ none) (t : Serial OfferRow OfferRow.id sameApp)
      (ht : t.rows = ⟨w.offers.next, some appId, e⟩ :: w.offers.rows) :
      Effect w ⟨.insertOffer appId e, .ok w.offers.next⟩ { w with offers := t }
  | unchecked (x : Answered ι) : Effect w x { w with kycChecks := w.kycChecks.skip }
  | check {p : Option Int} (hfree : ∀ q ∈ p, ∀ t ∈ w.transactions, q ∉ t.applicants)
      (happ : ∀ q ∈ p, w.applicant q ≠ none) (t : Serial KycRow KycRow.id noClash)
      (ht : t.rows = ⟨w.kycChecks.next, p⟩ :: w.kycChecks.rows ∧ t.next = w.kycChecks.next + 1) :
      Effect w ⟨.insertKyc p, .ok w.kycChecks.next⟩ { w with kycChecks := t }
  | move {x : Answered ι} {ts : List (Transaction ι)} (h : Moved w x ts) :
      Effect w x { w with transactions := ts }
  | commit {i : ι} {t : Transaction ι} (ht : w.transaction i = some t) :
      Effect w ⟨.commit i, .ok ()⟩ (w.apply t)

section Cases

variable {w : World ι} {α : Type} {pk : α → Int}

/-- In a table without a unique index an insert always adds its row. -/
theorem insertNext_rows (t : Serial α pk noClash) (mk : Int → α) (hmk : ∀ n, pk (mk n) = n) :
    (t.insertNext mk hmk).2.rows = mk t.next :: t.rows ∧
      (t.insertNext mk hmk).2.next = t.next + 1 := by
  rcases t.insertNext_cases mk hmk with ⟨-, r, -, hclash⟩ | ⟨t', hins, hrows, hnext, -⟩
  · cases hclash
  · rw [hins]
    exact ⟨hrows, hnext⟩

theorem transaction_session {i : ι} {t : Transaction ι} (h : w.transaction i = some t) :
    t.session = i ∧ t ∈ w.transactions :=
  ⟨by simpa using List.find?_some h, List.mem_of_find?_eq_some h⟩

end Cases

variable {w w' : World ι} {s : Stmt ι} {r : s.Res}

theorem within_effect {α : Type} {i : ι} {f : Transaction ι → Option (Except DbError α × World ι)}
    {x : Answered ι} {r : Except DbError α} (h : w.within i f = some (r, w'))
    (hf : ∀ t, w.transaction i = some t → f t = some (r, w') → Effect w x w') : Effect w x w' := by
  unfold World.within at h
  cases ht : w.transaction i with
  | none =>
    rw [ht] at h
    cases h
    exact .same x
  | some t =>
    rw [ht] at h
    exact hf t ht h

theorem insertLoan_effect {appId : Int} {name : Text} {principal apr noteRate : Double}
    {termMonths : Int} {r : Except DbError Int}
    (h : w.insertLoan appId name principal apr noteRate termMonths = (r, w')) :
    Effect w ⟨.insertLoan appId name principal apr noteRate termMonths, r⟩ w' := by
  unfold World.insertLoan at h
  rcases w.loans.insertNext_cases
      (fun id => ⟨id, some appId, name, principal, apr, noteRate, termMonths⟩) fun _ => rfl with
    ⟨hins, -⟩ | ⟨t, hins, hrows, -⟩
  · rw [hins] at h
    cases h
    exact .unboarded _ _ rfl
  · rw [hins] at h
    cases h
    exact .board t hrows

omit [DecidableEq ι] in
/-- A loan that was inserted is there. -/
theorem insertLoan_ok {a : Int} {name : Text} {p ap nr : Double} {t loanId : Int}
    (h : w.insertLoan a name p ap nr t = (.ok loanId, w')) :
    w'.loans.rows = ⟨loanId, some a, name, p, ap, nr, t⟩ :: w.loans.rows := by
  unfold World.insertLoan at h
  rcases w.loans.insertNext_cases (fun id => ⟨id, some a, name, p, ap, nr, t⟩) fun _ => rfl with
    ⟨hins, -⟩ | ⟨loans, hins, hrows, -⟩
  · rw [hins] at h
    cases h
  · rw [hins] at h
    cases h
    exact hrows

theorem insertBalance_effect {loanId : Int} {balance : Double} {r : Except DbError Unit}
    (h : w.insertBalance loanId balance = (r, w')) :
    Effect w ⟨.insertBalance loanId balance, r⟩ w' := by
  unfold World.insertBalance at h
  split_ifs at h with hloan
  · obtain ⟨l, hl, hid⟩ := List.any_eq_true.mp hloan
    rcases w.balances.insert?_cases ⟨loanId, balance⟩ with ⟨hins, -⟩ | ⟨t, hins, hrows, -⟩
    · rw [hins] at h
      cases h
      exact .same _
    · rw [hins] at h
      cases h
      exact .balance t ⟨l, hl, of_decide_eq_true hid⟩ hrows
  · cases h
    exact .same _

theorem persistEvent_effect {appId : Int} {outcome : Outcome} {r : Except DbError Int}
    (h : w.persistEvent appId outcome = some (r, w')) :
    Effect w ⟨.persistEvent appId outcome, r⟩ w' := by
  unfold World.persistEvent at h
  split_ifs at h with hdel happ
  · cases h
    exact .undecided _
  · cases h
    exact .decide hdel happ _ (insertNext_rows ..).1

theorem insertOffer_effect {appId : Int} {e : Option Int} {r : Except DbError Int}
    (h : w.insertOffer appId e = some (r, w')) : Effect w ⟨.insertOffer appId e, r⟩ w' := by
  unfold World.insertOffer at h
  split_ifs at h with hdel hfk
  · cases h
    exact .unoffered _ _ rfl
  · rcases w.offers.insertNext_cases (fun id => ⟨id, some appId, e⟩) fun _ => rfl with
      ⟨hins, -⟩ | ⟨t, hins, hrows, -⟩
    · rw [hins] at h
      cases h
      exact .unoffered _ _ rfl
    · rw [hins] at h
      cases h
      exact .offer hdel (not_or.mp hfk).1 t hrows

theorem insertKyc_effect {p : Option Int} {r : Except DbError Int}
    (h : w.insertKyc p = some (r, w')) : Effect w ⟨.insertKyc p, r⟩ w' := by
  unfold World.insertKyc at h
  split_ifs at h with hlock hfk
  · cases h
    exact .unchecked _
  · cases h
    refine .check ?_ ?_ _ (insertNext_rows ..)
    · intro q hq t ht hmem
      exact hlock ⟨q, hq, t, ht, hmem⟩
    · intro q hq hnone
      exact hfk ⟨q, hq, hnone⟩

theorem deleteApplication_effect {i : ι} {appId : Int} {r : Except DbError Unit}
    (h : (w.within i fun t => w.deleteApplication t appId) = some (r, w')) :
    Effect w ⟨.deleteApplication i appId, r⟩ w' := by
  refine within_effect h fun t ht hx => ?_
  obtain ⟨rfl, -⟩ := transaction_session ht
  unfold World.deleteApplication at hx
  split_ifs at hx with hlock happ href
  · cases hx
    exact .same _
  · cases hx
    exact .same _
  · cases hx
    refine .move (.application ht ?_ happ href)
    intro t' ht' hmem
    exact hlock ⟨t', ht', hmem⟩

theorem deleteApplicant_effect {i : ι} {p : Int} {r : Except DbError Unit}
    (h : (w.within i fun t => w.deleteApplicant t p) = some (r, w')) :
    Effect w ⟨.deleteApplicant i p, r⟩ w' := by
  refine within_effect h fun t ht hx => ?_
  obtain ⟨rfl, -⟩ := transaction_session ht
  unfold World.deleteApplicant at hx
  split_ifs at hx with hlock happ href
  · cases hx
    exact .same _
  · cases hx
    exact .same _
  · cases hx
    obtain ⟨hother, hkyc⟩ := not_or.mp href
    refine .move (.applicant ht happ (by simpa using hother) ?_)
    intro k hk
    by_contra hmem
    exact hkyc ⟨k, hk, hmem⟩

/-- **Everything an executed statement can do.** -/
theorem exec_effect (h : w.exec S s = some (r, w')) : Effect w ⟨s, r⟩ w' := by
  cases s with
  | insertLoan appId name principal apr noteRate termMonths =>
    exact insertLoan_effect (Option.some.inj h)
  | insertBalance loanId balance => exact insertBalance_effect (Option.some.inj h)
  | persistEvent appId outcome => exact persistEvent_effect h
  | insertOffer appId e => exact insertOffer_effect h
  | insertKyc p => exact insertKyc_effect h
  | deleteApplication i appId => exact deleteApplication_effect h
  | deleteApplicant i p => exact deleteApplicant_effect h
  | fund appId =>
    have h : (if w.Deleting appId then none else some ((), w.fund appId)) = some (r, w') := h
    split_ifs at h with hdel
    cases h
    exact .fund hdel
  | deleteKyc i p =>
    refine within_effect h fun t ht hx => ?_
    obtain ⟨rfl, -⟩ := transaction_session ht
    unfold World.deleteKyc at hx
    split_ifs at hx
    cases hx
    exact .move (.kyc ht)
  | commit i =>
    refine within_effect h fun t ht hx => ?_
    cases hx
    exact .commit ht
  | otherApplication i p =>
    refine within_effect h fun t ht hx => ?_
    cases hx
    exact .same _
  | insertApplication name amount termMonths token expiresAt =>
    cases h
    exact .submit ..
  | drawToken =>
    cases h
    exact .draw _ _ (Nat.le_succ _)
  | connect i =>
    cases h
    exact .move (.connect i)
  | rollback i =>
    cases h
    exact .move (.rollback i)
  | readConfig | now | selectAuth | selectUser | selectFundedToken | selectKyc | selectBoarding
    | selectLoan | selectOfferOf | probe =>
    cases h
    exact .same _

/-! ## Table by table -/

section Tables

variable {x : Answered ι}

theorem mem_others {i : ι} {t : Transaction ι} (h : t ∈ w.others i) : t ∈ w.transactions :=
  (List.mem_filter.mp h).1

/-- Numbers that were drawn stay drawn. -/
theorem Effect.counters (h : Effect w x w') :
    w.drawn ≤ w'.drawn ∧ w.applications.next ≤ w'.applications.next := by
  cases h with
  | draw _ _ hn => exact ⟨hn, le_rfl⟩
  | submit name amount termMonths token expiresAt =>
    refine ⟨le_rfl, ?_⟩
    unfold World.insertApplication
    dsimp only
    rw [(insertNext_rows ..).2]
    omega
  | _ => exact ⟨le_rfl, le_rfl⟩

theorem Effect.same_config (h : Effect w x w') : w'.config = w.config ∧ w'.now = w.now := by
  cases h <;> exact ⟨rfl, rfl⟩

/-- A new loan is what an `INSERT` boarded. -/
theorem Effect.loans (h : Effect w x w') : w'.loans.rows = w.loans.rows ∨
    ∃ appId name principal apr noteRate termMonths,
      x = ⟨.insertLoan appId name principal apr noteRate termMonths, .ok w.loans.next⟩ ∧
      w'.loans.rows =
        ⟨w.loans.next, some appId, name, principal, apr, noteRate, termMonths⟩ :: w.loans.rows := by
  cases h with
  | unboarded _ _ ht => exact .inl ht
  | board _ ht => exact .inr ⟨_, _, _, _, _, _, rfl, ht⟩
  | _ => exact .inl rfl

theorem Effect.kept_loan (h : Effect w x w') {l : LoanRow} (hl : l ∈ w.loans.rows) :
    l ∈ w'.loans.rows := by
  rcases h.loans with hrows | ⟨_, _, _, _, _, _, -, hrows⟩
  · rwa [hrows]
  · rw [hrows]
    exact List.mem_cons_of_mem _ hl

/-- A new balance is what an `INSERT` wrote, for a loan that exists. -/
theorem Effect.balances (h : Effect w x w') : w'.balances.rows = w.balances.rows ∨
    ∃ loanId balance, x = ⟨.insertBalance loanId balance, .ok ()⟩ ∧
      (∃ l ∈ w.loans.rows, l.id = loanId) ∧
      w'.balances.rows = ⟨loanId, balance⟩ :: w.balances.rows := by
  cases h with
  | balance _ hloan ht => exact .inr ⟨_, _, rfl, hloan, ht⟩
  | _ => exact .inl rfl

theorem Effect.kept_balance (h : Effect w x w') {b : BalanceRow} (hb : b ∈ w.balances.rows) :
    b ∈ w'.balances.rows := by
  rcases h.balances with hrows | ⟨_, _, -, -, hrows⟩
  · rwa [hrows]
  · rw [hrows]
    exact List.mem_cons_of_mem _ hb

/-- A decision is replaced, never withdrawn. -/
theorem Effect.kept_decision (h : Effect w x w') {a : Int} (hd : (w.decisions a).isSome = true) :
    (w'.decisions a).isSome = true := by
  cases h with
  | decide =>
    dsimp only
    rw [Function.update_apply]
    split
    · rfl
    · exact hd
  | _ => exact hd

/-- Only an application nobody is deleting comes to be referred to. -/
theorem Effect.referenced (h : Effect w x w') {a : Int} (hr : w'.Referenced a) :
    w.Referenced a ∨ ¬ w.Deleting a ∧ w.application a ≠ none ∧
      w'.applications = w.applications ∧ w'.transactions = w.transactions := by
  cases h with
  | @decide appId outcome hfree happ t ht =>
    by_cases ha : a = appId
    · subst ha
      exact .inr ⟨hfree, happ, rfl, rfl⟩
    · left
      rcases hr with hr | ⟨e, he, hid⟩ | hr
      · dsimp only at hr
        rw [Function.update_of_ne ha] at hr
        exact .inl hr
      · dsimp only at he
        rw [ht] at he
        rcases List.mem_cons.mp he with rfl | he
        · exact absurd hid.symm ha
        · exact .inr (.inl ⟨e, he, hid⟩)
      · exact .inr (.inr hr)
  | offer hfree happ t ht =>
    rcases hr with hr | hr | ⟨o, ho, hid⟩
    · exact .inl (.inl hr)
    · exact .inl (.inr (.inl hr))
    · dsimp only at ho
      rw [ht] at ho
      rcases List.mem_cons.mp ho with rfl | ho
      · cases hid
        exact .inr ⟨hfree, happ, rfl, rfl⟩
      · exact .inl (.inr (.inr ⟨o, ho, hid⟩))
  | unoffered _ t ht =>
    rcases hr with hr | hr | ⟨o, ho, hid⟩
    · exact .inl (.inl hr)
    · exact .inl (.inr (.inl hr))
    · dsimp only at ho
      rw [ht] at ho
      exact .inl (.inr (.inr ⟨o, ho, hid⟩))
  | _ => exact .inl hr

/-- Only an application nothing refers to comes to be deleted. -/
theorem Effect.deleting (h : Effect w x w') {a : Int} (hd : w'.Deleting a) : w.Deleting a ∨
    w.application a ≠ none ∧ ¬ w.Referenced a ∧ (w'.Referenced a → w.Referenced a) := by
  have hsub : ∀ {ts : List (Transaction ι)}, (∀ t ∈ ts, t ∈ w.transactions) →
      (∃ t ∈ ts, a ∈ t.applications) → w.Deleting a := by
    rintro ts hts ⟨t, ht, ha⟩
    exact ⟨t, hts t ht, ha⟩
  cases h with
  | move hm =>
    obtain ⟨t', ht', ha⟩ := hd
    cases hm with
    | connect i =>
      rcases List.mem_cons.mp ht' with rfl | ht'
      · cases ha
      · exact .inl ⟨t', mem_others ht', ha⟩
    | rollback i => exact .inl ⟨t', mem_others ht', ha⟩
    | application ht hfree happ href =>
      rcases List.mem_cons.mp ht' with rfl | ht'
      · rcases List.mem_cons.mp ha with rfl | ha
        · exact .inr ⟨happ, href, id⟩
        · exact .inl ⟨_, (transaction_session ht).2, ha⟩
      · exact .inl ⟨t', mem_others ht', ha⟩
    | kyc ht =>
      rcases List.mem_cons.mp ht' with rfl | ht'
      · exact .inl ⟨_, (transaction_session ht).2, ha⟩
      · exact .inl ⟨t', mem_others ht', ha⟩
    | applicant ht =>
      rcases List.mem_cons.mp ht' with rfl | ht'
      · exact .inl ⟨_, (transaction_session ht).2, ha⟩
      · exact .inl ⟨t', mem_others ht', ha⟩
  | commit ht => exact .inl (hsub (fun t' => mem_others) hd)
  | _ => exact .inl hd

/-- **What is referred to is not deleted, and what is being deleted is not referred to.** -/
theorem Effect.free (h : Effect w x w') (hfree : ∀ a, w.Referenced a → ¬ w.Deleting a) (a : Int)
    (hr : w'.Referenced a) : ¬ w'.Deleting a := by
  intro hd
  rcases h.referenced hr with hr | ⟨hno, -, -, hsame⟩
  · rcases h.deleting hd with hd | ⟨-, hno, -⟩
    · exact hfree a hr hd
    · exact hno hr
  · refine hno ?_
    unfold World.Deleting at hd
    rwa [hsame] at hd

/-- The row `fund` leaves of an application. -/
def ApplicationRow.settled (a : ApplicationRow) : ApplicationRow :=
  { a with status := funded, expiresAt := none }

theorem fundRow_eq (appId : Int) (a : ApplicationRow) :
    World.fundRow appId a = a ∨ a.id = appId ∧ World.fundRow appId a = a.settled := by
  unfold World.fundRow
  split
  · rename_i h
    exact .inr ⟨h, rfl⟩
  · exact .inl rfl

/-- An application is one that was there, perhaps funded since, or a new one. -/
theorem Effect.application_from (h : Effect w x w') {a : ApplicationRow}
    (ha : a ∈ w'.applications.rows) : a ∈ w.applications.rows ∨
      (∃ a' ∈ w.applications.rows, x = ⟨.fund a'.id, ()⟩ ∧ a = a'.settled) ∨
      ∃ name amount termMonths token expiresAt,
        x = ⟨.insertApplication name amount termMonths token expiresAt, w.applications.next⟩ ∧
        a = ⟨w.applications.next, some w.applicants.next, amount, termMonths, submitted, some token,
          some expiresAt⟩ := by
  cases h with
  | submit name amount termMonths token expiresAt =>
    unfold World.insertApplication at ha
    dsimp only at ha
    rw [(insertNext_rows ..).1] at ha
    rcases List.mem_cons.mp ha with rfl | ha
    · exact .inr (.inr ⟨name, amount, termMonths, token, expiresAt, rfl, rfl⟩)
    · exact .inl ha
  | @fund appId hfree =>
    obtain ⟨a', ha', rfl⟩ := List.mem_map.mp ha
    rcases fundRow_eq appId a' with heq | ⟨rfl, heq⟩
    · rw [heq]
      exact .inl ha'
    · rw [heq]
      exact .inr (.inl ⟨a', ha', rfl, rfl⟩)
  | commit ht => exact .inl (List.mem_filter.mp ha).1
  | _ => exact .inl ha

/-- An application stays, perhaps funded, unless a transaction has deleted it. -/
theorem Effect.kept_application (h : Effect w x w') {a : ApplicationRow}
    (ha : a ∈ w.applications.rows) (hfree : ¬ w.Deleting a.id) :
    a ∈ w'.applications.rows ∨ a.settled ∈ w'.applications.rows := by
  cases h with
  | submit name amount termMonths token expiresAt =>
    left
    unfold World.insertApplication
    dsimp only
    rw [(insertNext_rows ..).1]
    exact List.mem_cons_of_mem _ ha
  | @fund appId _ =>
    have hmem := List.mem_map_of_mem (f := World.fundRow appId) ha
    rcases fundRow_eq appId a with heq | ⟨-, heq⟩
    · rw [heq] at hmem
      exact .inl hmem
    · rw [heq] at hmem
      exact .inr hmem
  | commit ht =>
    refine .inl (List.mem_filter.mpr ⟨ha, ?_⟩)
    have hnot : a.id ∉ _ := fun hmem => hfree ⟨_, (transaction_session ht).2, hmem⟩
    simpa using hnot
  | _ => exact .inl ha

end Tables

/-! ## The environment -/

/-- What the environment leaves as it is. -/
structure Quiet (w w' : World ι) : Prop where
  applicants : w'.applicants = w.applicants
  applications : w'.applications = w.applications
  kycChecks : w'.kycChecks = w.kycChecks
  decisions : w'.decisions = w.decisions
  events : w'.events = w.events
  offers : w'.offers = w.offers
  loans : w'.loans = w.loans
  transactions : w'.transactions.Sublist w.transactions
  config : ∀ key ∈ w.config.verifyKeys, key ∈ w'.config.verifyKeys
  now : w.now ≤ w'.now

theorem env_counters (e : Env ι) (w : World ι) :
    w.drawn ≤ (w.env e).drawn ∧ w.applications.next ≤ (w.env e).applications.next := by
  cases e with
  | rotate c =>
    unfold World.env
    dsimp only
    split <;> exact ⟨le_rfl, le_rfl⟩
  | _ => exact ⟨le_rfl, le_rfl⟩

theorem env_quiet (e : Env ι) (w : World ι) : Quiet w (w.env e) := by
  cases e with
  | rotate c =>
    unfold World.env
    dsimp only
    split
    · rename_i hrot
      exact ⟨rfl, rfl, rfl, rfl, rfl, rfl, rfl, .refl _, fun _ hk => hrot.verifyKeys hk, le_rfl⟩
    · exact ⟨rfl, rfl, rfl, rfl, rfl, rfl, rfl, .refl _, fun _ hk => hk, le_rfl⟩
  | drop i =>
    exact ⟨rfl, rfl, rfl, rfl, rfl, rfl, rfl, List.filter_sublist, fun _ hk => hk, le_rfl⟩
  | tick t =>
    exact ⟨rfl, rfl, rfl, rfl, rfl, rfl, rfl, .refl _, fun _ hk => hk, le_max_left _ _⟩
  | link | service | report =>
    exact ⟨rfl, rfl, rfl, rfl, rfl, rfl, rfl, .refl _, fun _ hk => hk, le_rfl⟩

/-- The environment changes what a balance says, not which loans have one. -/
theorem env_balances (e : Env ι) {w : World ι} {b : BalanceRow} (hb : b ∈ w.balances.rows) :
    ∃ b' ∈ (w.env e).balances.rows, b'.loanId = b.loanId := by
  cases e with
  | service loanId balance =>
    exact ⟨_, List.mem_map_of_mem hb, World.serviceRow_loanId loanId balance b⟩
  | rotate c =>
    refine ⟨b, ?_, rfl⟩
    unfold World.env
    dsimp only
    split <;> exact hb
  | tick | link | report | drop => exact ⟨b, hb, rfl⟩

end Meridian.Intake
