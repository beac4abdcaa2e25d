import Meridian.Ledger.Statements

/-!
# What a statement can do

One theorem a table says everything an executed statement can do to it, guards included:
`exec_payments`, `exec_applications`, `exec_balances`, `exec_loans` and `exec_exchanges`. Every
invariant of the ledger is derived from these, and none unfolds a statement again.
-/

namespace Meridian.Ledger

open Python Relational Interleave

/-! ## What a statement leaves alone -/

namespace World

variable (w : World)

theorem claim_frame (a : Intent) : (w.claim a).2.loans = w.loans ∧
    (w.claim a).2.balances = w.balances ∧ (w.claim a).2.applications = w.applications ∧
    (w.claim a).2.exchanges = w.exchanges := by
  unfold claim
  split
  · exact ⟨rfl, rfl, rfl, rfl⟩
  · split
    · exact ⟨rfl, rfl, rfl, rfl⟩
    · split <;> exact ⟨rfl, rfl, rfl, rfl⟩

theorem apply_frame (loanId paymentId : Int) : (w.apply loanId paymentId).2.loans = w.loans ∧
    (w.apply loanId paymentId).2.payments = w.payments ∧
    (w.apply loanId paymentId).2.exchanges = w.exchanges := by
  unfold apply
  split
  · exact ⟨rfl, rfl, rfl⟩
  · split <;> exact ⟨rfl, rfl, rfl⟩

theorem adjust_frame (new : ℚ) (loanId : Int) (expected : ℚ) :
    (w.adjust new loanId expected).2.loans = w.loans ∧
    (w.adjust new loanId expected).2.payments = w.payments ∧
    (w.adjust new loanId expected).2.applications = w.applications ∧
    (w.adjust new loanId expected).2.exchanges = w.exchanges := by
  unfold adjust
  split
  · exact ⟨rfl, rfl, rfl, rfl⟩
  · split <;> exact ⟨rfl, rfl, rfl, rfl⟩

theorem insertLoan_frame (appId : Option Int) (principal : ℚ) :
    (w.insertLoan appId principal).2.balances = w.balances ∧
    (w.insertLoan appId principal).2.payments = w.payments ∧
    (w.insertLoan appId principal).2.applications = w.applications ∧
    (w.insertLoan appId principal).2.exchanges = w.exchanges := by
  unfold insertLoan
  split <;> exact ⟨rfl, rfl, rfl, rfl⟩

theorem insertBalance_frame (loanId : Int) (balance : ℚ) :
    (w.insertBalance loanId balance).2.loans = w.loans ∧
    (w.insertBalance loanId balance).2.payments = w.payments ∧
    (w.insertBalance loanId balance).2.applications = w.applications ∧
    (w.insertBalance loanId balance).2.exchanges = w.exchanges := by
  unfold insertBalance
  split
  · exact ⟨rfl, rfl, rfl, rfl⟩
  · split <;> exact ⟨rfl, rfl, rfl, rfl⟩

theorem recv_cases {x : Int} {r : Int × Int} {w' : World} (h : w.recv x = some (r, w')) :
    ∃ e, w.exchange x = some e ∧ e.request = .inFlight ∧ r = (e.loanId, e.paymentId) ∧
      w' = w.updateExchange x (fun e => { e with request := .taken }) fun _ => rfl := by
  unfold recv at h
  split at h
  · rename_i e he
    split at h
    · rename_i hreq
      cases h
      exact ⟨e, he, hreq, rfl, rfl⟩
    · cases h
  · cases h

theorem env_frame (e : Env) : (w.env e).loans = w.loans ∧ (w.env e).balances = w.balances ∧
    (w.env e).payments = w.payments ∧ (w.env e).applications = w.applications := by
  cases e <;> exact ⟨rfl, rfl, rfl, rfl⟩

end World

/-! ## Statement by statement -/

theorem claim_cases (w : World) (a : Intent) :
    ((w.claim a).1 = .ok (some w.payments.next) ∧ a.storable = true ∧
      (w.loan a.loanId).isSome ∧
      (w.claim a).2.payments.rows = a.row w.now w.payments.next :: w.payments.rows ∧
      (w.claim a).2.payments.next = w.payments.next + 1 ∧
      ∀ p ∈ w.payments.rows, p.key ≠ some a.key) ∨
    ((∀ id, (w.claim a).1 ≠ .ok (some id)) ∧ (w.claim a).2.payments.rows = w.payments.rows ∧
      w.payments.next ≤ (w.claim a).2.payments.next) := by
  unfold World.claim
  by_cases hst : a.storable = false
  · rw [if_pos hst]
    exact .inr ⟨by simp, rfl, le_refl _⟩
  rw [if_neg hst]
  rcases w.payments.insertNext_cases (a.row w.now) fun _ => rfl with
    ⟨hins, -⟩ | ⟨t, hins, hrows, hnext, hfree⟩
  · simp only [hins]
    exact .inr ⟨by simp, rfl, by simp⟩
  · simp only [hins]
    by_cases hloan : (w.loan a.loanId).isSome
    · rw [if_pos hloan]
      refine .inl ⟨rfl, by simpa using hst, hloan, hrows, hnext, fun p hp hk => ?_⟩
      have hclash : sameKey (a.row w.now w.payments.next) p = true :=
        clashOn_iff.mpr ⟨a.key, rfl, hk⟩
      rw [hfree p hp] at hclash
      cases hclash
    · rw [if_neg hloan]
      exact .inr ⟨by simp, rfl, by simp⟩

/-! ## Table by table -/

section Tables

variable {s : Stmt} {r : s.Res} {w w' : World}

theorem exec_eq {x : s.Res × World} (hx : w.exec s = some x) (h : w.exec s = some (r, w')) :
    r = x.1 ∧ w' = x.2 := by
  rw [hx] at h
  cases h
  exact ⟨rfl, rfl⟩

/-- Statements that only read. -/
def Stmt.reads : Stmt → Bool
  | readByKey _ | alreadyApplied _ | selectBalance _ | selectPastDue _ | await _ | selectLoan _ =>
    true
  | _ => false

theorem exec_reads (hs : s.reads = true) (h : w.exec s = some (r, w')) : w' = w := by
  cases s with
  | await x =>
    obtain ⟨o, -, ho⟩ := Option.map_eq_some_iff.mp h
    cases ho
    rfl
  | readByKey | alreadyApplied | selectBalance | selectPastDue | selectLoan =>
    exact (exec_eq rfl h).2
  | _ => cases hs

/-- A claim that won added its row under the next id, and no other row held the key. -/
theorem exec_claim_won {a : Intent} {id : Int}
    (h : w.exec (.claim a) = some (.ok (some id), w')) :
    id = w.payments.next ∧ w'.payments.next = w.payments.next + 1 ∧
      w'.payments.rows = a.row w.now id :: w.payments.rows := by
  obtain ⟨hr, rfl⟩ := exec_eq rfl h
  rcases claim_cases w a with ⟨hid, -, -, hrows, hnext, -⟩ | ⟨hne, -⟩
  · rw [hid] at hr
    cases hr
    exact ⟨rfl, hnext, hrows⟩
  · exact absurd hr.symm (hne id)

/-- The row a read by key answers with. -/
theorem exec_readByKey {key : Text} {e : KeyRow}
    (h : w.exec (.readByKey key) = some (some e, w')) :
    w' = w ∧ ∃ p ∈ w.payments.rows, p.key = some key ∧ e = w.keyRow p := by
  obtain ⟨hr, rfl⟩ := exec_eq rfl h
  obtain ⟨p, hp, rfl⟩ := Option.map_eq_some_iff.mp hr.symm
  exact ⟨rfl, p, List.mem_of_find?_eq_some hp, by simpa using List.find?_some hp, rfl⟩

/-- An application row found by payment is one that exists. -/
theorem exec_alreadyApplied {id : Int} {prior : Application}
    (h : w.exec (.alreadyApplied id) = some (some prior, w')) : w' = w ∧ w.Applied id := by
  obtain ⟨hr, rfl⟩ := exec_eq rfl h
  exact ⟨rfl, prior, List.mem_of_find?_eq_some hr.symm, by simpa using List.find?_some hr.symm⟩

/-- **Payments.** A statement inserts the row of a claim, takes keys away, sets a status, or
leaves the rows alone. -/
theorem exec_payments (h : w.exec s = some (r, w')) :
    (∃ a, (⟨s, r⟩ : Answered) = ⟨.claim a, .ok (some w.payments.next)⟩ ∧
      w'.payments.rows = a.row w.now w.payments.next :: w.payments.rows ∧
      w'.payments.next = w.payments.next + 1 ∧ (w.loan a.loanId).isSome ∧
      ∀ p ∈ w.payments.rows, p.key ≠ some a.key) ∨
    (∃ key, s = .retire key ∧ w'.payments.rows = w.payments.rows.map (w.retireRow key) ∧
      w'.payments.next = w.payments.next) ∨
    (∃ status id, s = .finalize status id ∧
      w'.payments.rows = w.payments.rows.map (World.finalizeRow status id) ∧
      w'.payments.next = w.payments.next) ∨
    ((∀ a id, (⟨s, r⟩ : Answered) ≠ ⟨.claim a, .ok (some id)⟩) ∧
      (∀ status id, s ≠ .finalize status id) ∧
      w'.payments.rows = w.payments.rows ∧ w.payments.next ≤ w'.payments.next) := by
  have untouched (hc : ∀ a, s ≠ .claim a) (hf : ∀ status id, s ≠ .finalize status id)
      (hp : w'.payments = w.payments) : (∀ a id, (⟨s, r⟩ : Answered) ≠ ⟨.claim a, .ok (some id)⟩) ∧
      (∀ status id, s ≠ .finalize status id) ∧
      w'.payments.rows = w.payments.rows ∧ w.payments.next ≤ w'.payments.next :=
    ⟨fun a id he => hc a (congrArg Sigma.fst he), hf, by rw [hp], by rw [hp]⟩
  by_cases hs : s.reads = true
  · exact .inr (.inr (.inr (untouched (by rintro a rfl; cases hs) (by rintro a b rfl; cases hs)
      (by rw [exec_reads hs h]))))
  cases s with
  | claim a =>
    obtain ⟨rfl, rfl⟩ := exec_eq rfl h
    rcases claim_cases w a with ⟨hr, hst, hloan, hrows, hnext, hfree⟩ | ⟨hr, hrows, hnext⟩
    · exact .inl ⟨a, by rw [hr], hrows, hnext, hloan, hfree⟩
    · refine .inr (.inr (.inr ⟨fun a' id heq => ?_, by simp, hrows, hnext⟩))
      obtain ⟨hs', heq⟩ := Sigma.mk.inj_iff.mp heq
      cases hs'
      exact hr id (eq_of_heq heq)
  | retire key =>
    obtain ⟨rfl, rfl⟩ := exec_eq rfl h
    exact .inr (.inl ⟨key, rfl, rfl, rfl⟩)
  | finalize status id =>
    obtain ⟨rfl, rfl⟩ := exec_eq rfl h
    exact .inr (.inr (.inl ⟨status, id, rfl, rfl, rfl⟩))
  | recv x =>
    obtain ⟨e, -, -, -, rfl⟩ := World.recv_cases w h
    exact .inr (.inr (.inr (untouched (by simp) (by simp) rfl)))
  | apply l p =>
    obtain ⟨rfl, rfl⟩ := exec_eq rfl h
    exact .inr (.inr (.inr (untouched (by simp) (by simp) (w.apply_frame l p).2.1)))
  | adjust x l y =>
    obtain ⟨rfl, rfl⟩ := exec_eq rfl h
    exact .inr (.inr (.inr (untouched (by simp) (by simp) (w.adjust_frame x l y).2.1)))
  | insertLoan a x =>
    obtain ⟨rfl, rfl⟩ := exec_eq rfl h
    exact .inr (.inr (.inr (untouched (by simp) (by simp) (w.insertLoan_frame a x).2.1)))
  | insertBalance l x =>
    obtain ⟨rfl, rfl⟩ := exec_eq rfl h
    exact .inr (.inr (.inr (untouched (by simp) (by simp) (w.insertBalance_frame l x).2.1)))
  | waive | setPastDue | post | respond =>
    obtain ⟨rfl, rfl⟩ := exec_eq rfl h
    exact .inr (.inr (.inr (untouched (by simp) (by simp) rfl)))
  | _ => exact absurd rfl hs

theorem apply_cases (w : World) (l p : Int) :
    (∃ b m t, w.eligible l p = some (b, m) ∧ ¬ w.Applied p ∧
      w.apply l p = (some ⟨l, b.balance - World.major m, m⟩,
        { w.updateBalance l (fun b => { b with balance := b.balance - World.major m }) fun _ => rfl
          with applications := t }) ∧ t.rows = ⟨l, p, m⟩ :: w.applications.rows) ∨
    (w.apply l p = (none, w) ∧ (w.eligible l p = none ∨ w.Applied p)) := by
  unfold World.apply
  cases he : w.eligible l p with
  | none => exact .inr ⟨rfl, .inl rfl⟩
  | some bm =>
    obtain ⟨b, m⟩ := bm
    rcases w.applications.insert?_cases ⟨l, p, m⟩ with
      ⟨hins, a, ha, hclash⟩ | ⟨t, hins, hrows, hfree⟩
    · obtain ⟨x, hx, hx'⟩ := clashOn_iff.mp hclash
      exact .inr ⟨by simp only [hins], .inr ⟨a, ha, Option.some.inj (hx'.trans hx.symm)⟩⟩
    · refine .inl ⟨b, m, t, rfl, ?_, by simp only [hins], hrows⟩
      rintro ⟨a, ha, hp⟩
      have hclash : samePayment ⟨l, p, m⟩ a = true :=
        clashOn_iff.mpr ⟨p, rfl, congrArg some hp⟩
      rw [hfree a ha] at hclash
      cases hclash

/-- **Applications.** Only an apply that credits adds a row, and only the first one for its
payment. -/
theorem exec_applications (h : w.exec s = some (r, w')) :
    (∃ l p b m, (⟨s, r⟩ : Answered) = ⟨.apply l p, some ⟨l, b.balance - World.major m, m⟩⟩ ∧
      w.eligible l p = some (b, m) ∧ ¬ w.Applied p ∧
      w'.applications.rows = ⟨l, p, m⟩ :: w.applications.rows) ∨
    ((∀ l p x, (⟨s, r⟩ : Answered) ≠ ⟨.apply l p, some x⟩) ∧ w'.applications = w.applications) := by
  have untouched (hc : ∀ l p, s ≠ .apply l p) (hp : w'.applications = w.applications) :
      (∀ l p x, (⟨s, r⟩ : Answered) ≠ ⟨.apply l p, some x⟩) ∧ w'.applications = w.applications :=
    ⟨fun l p x he => hc l p (congrArg Sigma.fst he), hp⟩
  by_cases hs : s.reads = true
  · exact .inr (untouched (by rintro l p rfl; cases hs) (by rw [exec_reads hs h]))
  cases s with
  | apply l p =>
    obtain ⟨rfl, rfl⟩ := exec_eq rfl h
    rcases apply_cases w l p with ⟨b, m, t, he, hnot, heq, hrows⟩ | ⟨heq, -⟩
    · exact .inl ⟨l, p, b, m, by rw [heq], he, hnot, by rw [heq]; exact hrows⟩
    · refine .inr ⟨fun l' p' x he => ?_, by rw [heq]⟩
      obtain ⟨hs', he⟩ := Sigma.mk.inj_iff.mp he
      cases hs'
      rw [heq] at he
      cases eq_of_heq he
  | claim a =>
    obtain ⟨rfl, rfl⟩ := exec_eq rfl h
    exact .inr (untouched (by simp) (w.claim_frame a).2.2.1)
  | recv x =>
    obtain ⟨e, -, -, -, rfl⟩ := World.recv_cases w h
    exact .inr (untouched (by simp) rfl)
  | adjust x l y =>
    obtain ⟨rfl, rfl⟩ := exec_eq rfl h
    exact .inr (untouched (by simp) (w.adjust_frame x l y).2.2.1)
  | insertLoan a x =>
    obtain ⟨rfl, rfl⟩ := exec_eq rfl h
    exact .inr (untouched (by simp) (w.insertLoan_frame a x).2.2.1)
  | insertBalance l x =>
    obtain ⟨rfl, rfl⟩ := exec_eq rfl h
    exact .inr (untouched (by simp) (w.insertBalance_frame l x).2.2.1)
  | retire | finalize | waive | setPastDue | post | respond =>
    obtain ⟨rfl, rfl⟩ := exec_eq rfl h
    exact .inr (untouched (by simp) rfl)
  | _ => exact absurd rfl hs

/-- What an answered statement does to the figures of the balances row it matches; `none` for a
statement that writes no existing row. -/
def figures : Answered → Option (Int × (Balance → Balance))
  | ⟨.apply l _, some x⟩ =>
    some (l, fun b => { b with balance := b.balance - World.major x.amountMinor })
  | ⟨.adjust x l _, some _⟩ => some (l, fun b => { b with balance := x })
  | ⟨.waive x l, _⟩ => some (l, fun b => { b with pastDue := b.pastDue.map (· - x) })
  | ⟨.setPastDue x l, _⟩ => some (l, fun b => { b with pastDue := some x })
  | _ => none

theorem adjust_cases (w : World) (x : ℚ) (l : Int) (y : ℚ) :
    (∃ b, w.balanceRow l = some b ∧ b.balance = y ∧ w.adjust x l y =
      (some x, w.updateBalance l (fun b => { b with balance := x }) fun _ => rfl)) ∨
    (w.adjust x l y = (none, w) ∧ ∀ b, w.balanceRow l = some b → b.balance ≠ y) := by
  unfold World.adjust
  cases hb : w.balanceRow l with
  | none => exact .inr ⟨rfl, by simp⟩
  | some b =>
    by_cases hy : b.balance = y
    · exact .inl ⟨b, rfl, hy, by simp only [if_pos hy]⟩
    · refine .inr ⟨by simp only [if_neg hy], fun b' hb' => ?_⟩
      cases hb'
      exact hy

theorem insertBalance_cases (w : World) (l : Int) (x : ℚ) :
    ((w.insertBalance l x).2.balances.rows = ⟨l, x, some 0⟩ :: w.balances.rows ∧
      (∀ b ∈ w.balances.rows, b.loanId ≠ l) ∧ (w.loan l).isSome) ∨
    (w.insertBalance l x).2.balances = w.balances := by
  unfold World.insertBalance
  rcases w.balances.insert?_cases ⟨l, x, some 0⟩ with ⟨hins, -⟩ | ⟨t, hins, hrows, hfree⟩
  · exact .inr (by simp only [hins])
  · by_cases hloan : (w.loan l).isSome
    · refine .inl ⟨by simp only [hins, if_pos hloan, hrows], fun b hb hl => ?_, hloan⟩
      have hclash : sameLoan ⟨l, x, some 0⟩ b = true := clashOn_iff.mpr ⟨l, rfl, congrArg some hl⟩
      rw [hfree b hb] at hclash
      cases hclash
    · exact .inr (by simp only [hins, if_neg hloan])

/-- **Balances.** A statement changes the figures of one loan's row, opens a row for a loan that
has none, or leaves the rows alone. -/
theorem exec_balances (h : w.exec s = some (r, w')) :
    (∃ l f, figures ⟨s, r⟩ = some (l, f) ∧
      w'.balances.rows = w.balances.rows.map (World.onLoan l f)) ∨
    (∃ l x, s = .insertBalance l x ∧ w'.balances.rows = ⟨l, x, some 0⟩ :: w.balances.rows ∧
      (∀ b ∈ w.balances.rows, b.loanId ≠ l) ∧ (w.loan l).isSome) ∨
    (figures ⟨s, r⟩ = none ∧ w'.balances = w.balances) := by
  by_cases hs : s.reads = true
  · refine .inr (.inr ⟨?_, by rw [exec_reads hs h]⟩)
    cases s <;> first | rfl | cases hs
  cases s with
  | apply l p =>
    obtain ⟨rfl, rfl⟩ := exec_eq rfl h
    rcases apply_cases w l p with ⟨b, m, t, -, -, heq, -⟩ | ⟨heq, -⟩
    · rw [heq]
      exact .inl ⟨l, _, rfl, rfl⟩
    · rw [heq]
      exact .inr (.inr ⟨rfl, rfl⟩)
  | adjust x l y =>
    obtain ⟨rfl, rfl⟩ := exec_eq rfl h
    rcases adjust_cases w x l y with ⟨b, -, -, heq⟩ | ⟨heq, -⟩
    · rw [heq]
      exact .inl ⟨l, _, rfl, rfl⟩
    · rw [heq]
      exact .inr (.inr ⟨rfl, rfl⟩)
  | waive | setPastDue =>
    obtain ⟨rfl, rfl⟩ := exec_eq rfl h
    exact .inl ⟨_, _, rfl, rfl⟩
  | insertBalance l x =>
    obtain ⟨rfl, rfl⟩ := exec_eq rfl h
    rcases insertBalance_cases w l x with ⟨hrows, hfree, hloan⟩ | hsame
    · exact .inr (.inl ⟨l, x, rfl, hrows, hfree, hloan⟩)
    · exact .inr (.inr ⟨rfl, hsame⟩)
  | claim a =>
    obtain ⟨rfl, rfl⟩ := exec_eq rfl h
    exact .inr (.inr ⟨rfl, (w.claim_frame a).2.1⟩)
  | recv x =>
    obtain ⟨e, -, -, -, rfl⟩ := World.recv_cases w h
    exact .inr (.inr ⟨rfl, rfl⟩)
  | insertLoan a x =>
    obtain ⟨rfl, rfl⟩ := exec_eq rfl h
    exact .inr (.inr ⟨rfl, (w.insertLoan_frame a x).1⟩)
  | retire | finalize | post | respond =>
    obtain ⟨rfl, rfl⟩ := exec_eq rfl h
    exact .inr (.inr ⟨rfl, rfl⟩)
  | _ => exact absurd rfl hs

theorem insertLoan_cases (w : World) (a : Option Int) (x : ℚ) :
    ((w.insertLoan a x).1 = .ok w.loans.next ∧
      (w.insertLoan a x).2.loans.rows = ⟨w.loans.next, a, x⟩ :: w.loans.rows) ∨
    ((∀ id, (w.insertLoan a x).1 ≠ .ok id) ∧
      (w.insertLoan a x).2.loans.rows = w.loans.rows) := by
  unfold World.insertLoan
  rcases w.loans.insertNext_cases (fun id => ⟨id, a, x⟩) fun _ => rfl with
    ⟨hins, -⟩ | ⟨t, hins, hrows, -⟩
  · exact .inr ⟨by simp only [hins]; simp, by simp only [hins]; rfl⟩
  · exact .inl ⟨by simp only [hins], by simp only [hins, hrows]⟩

/-- **Loans.** Only boarding adds a row, and no row changes. -/
theorem exec_loans (h : w.exec s = some (r, w')) :
    (∃ a x, (⟨s, r⟩ : Answered) = ⟨.insertLoan a x, .ok w.loans.next⟩ ∧
      w'.loans.rows = ⟨w.loans.next, a, x⟩ :: w.loans.rows) ∨
    ((∀ a x id, (⟨s, r⟩ : Answered) ≠ ⟨.insertLoan a x, .ok id⟩) ∧
      w'.loans.rows = w.loans.rows) := by
  have untouched (hc : ∀ a x, s ≠ .insertLoan a x) (hp : w'.loans = w.loans) :
      (∀ a x id, (⟨s, r⟩ : Answered) ≠ ⟨.insertLoan a x, .ok id⟩) ∧ w'.loans.rows = w.loans.rows :=
    ⟨fun a x id he => hc a x (congrArg Sigma.fst he), by rw [hp]⟩
  by_cases hs : s.reads = true
  · exact .inr (untouched (by rintro l p rfl; cases hs) (by rw [exec_reads hs h]))
  cases s with
  | insertLoan a x =>
    obtain ⟨rfl, rfl⟩ := exec_eq rfl h
    rcases insertLoan_cases w a x with ⟨hr, hrows⟩ | ⟨hr, hrows⟩
    · exact .inl ⟨a, x, by rw [hr], hrows⟩
    · refine .inr ⟨fun a' x' id heq => ?_, hrows⟩
      obtain ⟨hs', heq⟩ := Sigma.mk.inj_iff.mp heq
      cases hs'
      exact hr id (eq_of_heq heq)
  | claim a =>
    obtain ⟨rfl, rfl⟩ := exec_eq rfl h
    exact .inr (untouched (by simp) (w.claim_frame a).1)
  | recv x =>
    obtain ⟨e, -, -, -, rfl⟩ := World.recv_cases w h
    exact .inr (untouched (by simp) rfl)
  | apply l p =>
    obtain ⟨rfl, rfl⟩ := exec_eq rfl h
    exact .inr (untouched (by simp) (w.apply_frame l p).1)
  | adjust x l y =>
    obtain ⟨rfl, rfl⟩ := exec_eq rfl h
    exact .inr (untouched (by simp) (w.adjust_frame x l y).1)
  | insertBalance l x =>
    obtain ⟨rfl, rfl⟩ := exec_eq rfl h
    exact .inr (untouched (by simp) (w.insertBalance_frame l x).1)
  | retire | finalize | waive | setPastDue | post | respond =>
    obtain ⟨rfl, rfl⟩ := exec_eq rfl h
    exact .inr (untouched (by simp) rfl)
  | _ => exact absurd rfl hs

theorem post_spec (w : World) (l p : Int) :
    (w.post l p).2.exchanges.rows =
      ⟨w.exchanges.next, l, p, .inFlight, .none, none⟩ :: w.exchanges.rows ∧
    (w.post l p).2.exchanges.next = w.exchanges.next + 1 := by
  unfold World.post
  rcases w.exchanges.insertNext_cases (fun id => ⟨id, l, p, .inFlight, .none, none⟩)
    fun _ => rfl with ⟨-, e, -, he⟩ | ⟨t, hins, hrows, hnext, -⟩
  · cases he
  · simp only [hins]
    exact ⟨hrows, hnext⟩

/-- **Exchanges.** A statement opens one, takes its request, answers it, or leaves them alone. -/
theorem exec_exchanges (h : w.exec s = some (r, w')) :
    (∃ l p, (⟨s, r⟩ : Answered) = ⟨.post l p, w.exchanges.next⟩ ∧
      w'.exchanges.rows = ⟨w.exchanges.next, l, p, .inFlight, .none, none⟩ :: w.exchanges.rows ∧
      w'.exchanges.next = w.exchanges.next + 1) ∨
    (∃ x e, (⟨s, r⟩ : Answered) = ⟨.recv x, (e.loanId, e.paymentId)⟩ ∧ w.exchange x = some e ∧
      w'.exchanges.rows = w.exchanges.rows.map
        (World.onExchange x fun e => { e with request := .taken }) ∧
      w'.exchanges.next = w.exchanges.next) ∨
    (∃ x code, s = .respond x code ∧ w'.exchanges.rows = w.exchanges.rows.map
        (World.onExchange x fun e => { e with reply := .inFlight code }) ∧
      w'.exchanges.next = w.exchanges.next) ∨
    ((∀ l p, s ≠ .post l p) ∧ (∀ x, s ≠ .recv x) ∧ w'.exchanges = w.exchanges) := by
  by_cases hs : s.reads = true
  · refine .inr (.inr (.inr ⟨?_, ?_, by rw [exec_reads hs h]⟩))
    · rintro l p rfl
      cases hs
    · rintro x rfl
      cases hs
  cases s with
  | post l p =>
    obtain ⟨rfl, rfl⟩ := exec_eq rfl h
    exact .inl ⟨l, p, rfl, (post_spec w l p).1, (post_spec w l p).2⟩
  | recv x =>
    obtain ⟨e, he, -, rfl, rfl⟩ := World.recv_cases w h
    exact .inr (.inl ⟨x, e, rfl, he, rfl, rfl⟩)
  | respond x code =>
    obtain ⟨rfl, rfl⟩ := exec_eq rfl h
    exact .inr (.inr (.inl ⟨x, code, rfl, rfl, rfl⟩))
  | claim a =>
    obtain ⟨rfl, rfl⟩ := exec_eq rfl h
    exact .inr (.inr (.inr ⟨by simp, by simp, (w.claim_frame a).2.2.2⟩))
  | apply l p =>
    obtain ⟨rfl, rfl⟩ := exec_eq rfl h
    exact .inr (.inr (.inr ⟨by simp, by simp, (w.apply_frame l p).2.2⟩))
  | adjust x l y =>
    obtain ⟨rfl, rfl⟩ := exec_eq rfl h
    exact .inr (.inr (.inr ⟨by simp, by simp, (w.adjust_frame x l y).2.2.2⟩))
  | insertLoan a x =>
    obtain ⟨rfl, rfl⟩ := exec_eq rfl h
    exact .inr (.inr (.inr ⟨by simp, by simp, (w.insertLoan_frame a x).2.2.2⟩))
  | insertBalance l x =>
    obtain ⟨rfl, rfl⟩ := exec_eq rfl h
    exact .inr (.inr (.inr ⟨by simp, by simp, (w.insertBalance_frame l x).2.2.2⟩))
  | retire | finalize | waive | setPastDue =>
    obtain ⟨rfl, rfl⟩ := exec_eq rfl h
    exact .inr (.inr (.inr ⟨by simp, by simp, rfl⟩))
  | _ => exact absurd rfl hs

end Tables

end Meridian.Ledger
