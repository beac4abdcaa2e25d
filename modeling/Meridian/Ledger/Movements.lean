import Meridian.Ledger.Effects

/-!
# One loan's row

`exec_row` is `exec_balances` seen from one loan: a statement changes the figures of its row, opens
the row, or leaves it alone. What the statement adds to the balance is the sum of three parts, read
off the statement and its answer:

* `credited`: what a crediting `_APPLY_SQL` takes off;
* `corrected`: the new figure of a successful `adjust_balance`, less the old one;
* `opening`: the balance a row opens with.

`exec_quoted` adds them up, and `exec_credits` says that what is credited is what the application
rows record.
-/

namespace Meridian.Ledger

open Python Relational Interleave

namespace World

/-- What `get_balance` reports. -/
def quoted (w : World) (loanId : Int) : ℚ := ((w.balanceRow loanId).map Balance.balance).getD 0

/-- The sum of `amount_minor / 100` over a loan's application rows. -/
def credits (w : World) (loanId : Int) : ℚ :=
  ((w.applications.rows.filter fun a => a.loanId = loanId).map fun a => major a.amountMinor).sum

theorem balanceRow_loanId {w : World} {k : Int} {b : Balance} (h : w.balanceRow k = some b) :
    b.loanId = k := by simpa using List.find?_some h

theorem balanceRow_none {w : World} {k : Int} (h : ∀ b ∈ w.balances.rows, b.loanId ≠ k) :
    w.balanceRow k = none := by simpa [balanceRow] using h

theorem balanceRow_congr {w w' : World} (h : w'.balances.rows = w.balances.rows) (k : Int) :
    w'.balanceRow k = w.balanceRow k := by rw [balanceRow, h, balanceRow]

/-- An update of one loan's figures, seen from a loan. -/
theorem balanceRow_map {w w' : World} {l k : Int} {f : Balance → Balance}
    (hf : ∀ b, (f b).loanId = b.loanId) (h : w'.balances.rows = w.balances.rows.map (onLoan l f)) :
    w'.balanceRow k = if l = k then (w.balanceRow k).map f else w.balanceRow k := by
  have hrow : w'.balanceRow k = (w.balanceRow k).map (onLoan l f) := by
    rw [balanceRow, h, List.find?_map, balanceRow]
    congr 2
    funext b
    simp [onLoan_loanId hf]
  rw [hrow]
  cases hb : w.balanceRow k with
  | none => simp
  | some b =>
    have hk := balanceRow_loanId hb
    by_cases hl : l = k
    · simp [onLoan, hk, hl]
    · simp [onLoan, hk, Ne.symm hl, hl]

theorem loan_id {w : World} {k : Int} {x : Loan} (h : w.loan k = some x) : x.id = k := by
  simpa using List.find?_some h

theorem payment_mem {w : World} {k : Int} {p : Payment} (h : w.payment k = some p) :
    p ∈ w.payments.rows ∧ p.id = k :=
  ⟨List.mem_of_find?_eq_some h, by simpa using List.find?_some h⟩

theorem eligible_cases {w : World} {l p : Int} {b : Balance} {m : Int}
    (h : w.eligible l p = some (b, m)) :
    w.balanceRow l = some b ∧ ∃ x, w.payment p = some x ∧ x.amountMinor = some m ∧
      x.loanId = some l ∧ x.status.credits = true := by
  unfold eligible at h
  split at h
  · rename_i x b' hx hb
    split at h
    · rename_i m' hm
      split at h
      · rename_i hok
        cases h
        exact ⟨hb, x, hx, hm, hok.1, hok.2⟩
      · cases h
    · cases h
  · cases h

end World

section Row

variable {s : Stmt} {r : s.Res} {w w' : World} {k : Int} {f : Balance → Balance}

theorem figures_loanId {x : Answered} (h : figures x = some (k, f)) (b : Balance) :
    (f b).loanId = b.loanId := by
  unfold figures at h
  split at h <;> cases h <;> rfl

/-- **One loan's row.** A statement changes its figures, opens it, or leaves it alone. -/
theorem exec_row (h : w.exec s = some (r, w')) (k : Int) :
    (∃ f, figures ⟨s, r⟩ = some (k, f) ∧ w'.balanceRow k = (w.balanceRow k).map f) ∨
    (∃ x, s = .insertBalance k x ∧ w.balanceRow k = none ∧
      w'.balanceRow k = some ⟨k, x, some 0⟩ ∧ (w.loan k).isSome) ∨
    ((∀ f, figures ⟨s, r⟩ ≠ some (k, f)) ∧ w'.balanceRow k = w.balanceRow k) := by
  rcases exec_balances h with ⟨l, f, hf, hrows⟩ | ⟨l, x, rfl, hrows, hfree, hloan⟩ | ⟨hf, hsame⟩
  · have hrow := World.balanceRow_map (k := k) (figures_loanId hf) hrows
    by_cases hl : l = k
    · subst hl
      exact .inl ⟨f, hf, by rw [hrow, if_pos rfl]⟩
    · refine .inr (.inr ⟨fun g hg => ?_, by rw [hrow, if_neg hl]⟩)
      rw [hf] at hg
      cases hg
      exact hl rfl
  · by_cases hl : l = k
    · subst hl
      refine .inr (.inl ⟨x, rfl, World.balanceRow_none hfree, ?_, hloan⟩)
      rw [World.balanceRow, hrows]
      simp
    · refine .inr (.inr ⟨nofun, ?_⟩)
      rw [World.balanceRow, hrows, List.find?_cons_of_neg (by simpa using hl), World.balanceRow]
  · refine .inr (.inr ⟨fun g hg => ?_, World.balanceRow_congr (by rw [hsame]) k⟩)
    rw [hf] at hg
    cases hg

theorem env_row (e : Env) (w : World) (k : Int) : (w.env e).balanceRow k = w.balanceRow k :=
  World.balanceRow_congr (by rw [(w.env_frame e).2.1]) k

/-- A row, once open, stays. -/
theorem exec_row_isSome (h : w.exec s = some (r, w')) (hb : (w.balanceRow k).isSome) :
    (w'.balanceRow k).isSome := by
  rcases exec_row h k with ⟨f, -, hrow⟩ | ⟨x, -, hnone, -⟩ | ⟨-, hrow⟩
  · rw [hrow, Option.isSome_map]
    exact hb
  · rw [hnone] at hb
    cases hb
  · rw [hrow]
    exact hb

/-- A loan, once boarded, stays as it is. -/
theorem exec_loan {x : Loan} (h : w.exec s = some (r, w')) (hx : w.loan k = some x) :
    w'.loan k = some x := by
  rcases exec_loans h with ⟨a, y, -, hrows⟩ | ⟨-, hrows⟩
  · have hlt := w.loans.below x (List.mem_of_find?_eq_some hx)
    rw [World.loan_id hx] at hlt
    rw [World.loan, hrows, List.find?_cons_of_neg (by simpa using hlt.ne'), ← World.loan, hx]
  · rw [World.loan, hrows, ← World.loan, hx]

theorem env_loan (e : Env) (w : World) (k : Int) : (w.env e).loan k = w.loan k := by
  rw [World.loan, (w.env_frame e).1, World.loan]

end Row

/-! ## What a statement adds to the balance -/

/-- What an answered statement takes off a loan's balance for a payment. -/
def credited (k : Int) : Answered → ℚ
  | ⟨.apply l _, some x⟩ => if l = k then World.major x.amountMinor else 0
  | _ => 0

/-- What a successful `adjust_balance` changes a loan's balance by: the new figure less the old. -/
def corrected (w : World) (k : Int) : Answered → ℚ
  | ⟨.adjust new l _, some _⟩ => if l = k then new - w.quoted k else 0
  | _ => 0

/-- The balance a loan's row opens with. -/
def opening (w : World) (k : Int) : Answered → ℚ
  | ⟨.insertBalance l x, .ok ()⟩ => if l = k ∧ w.balanceRow k = none then x else 0
  | _ => 0

section Parts

variable {s : Stmt} {r : s.Res} {w w' : World} {k : Int} {f : Balance → Balance} {x : Answered}

theorem credited_eq_zero (h : ∀ f, figures x ≠ some (k, f)) : credited k x = 0 := by
  unfold credited
  split
  · exact if_neg fun hl => h _ (by rw [← hl]; rfl)
  · rfl

theorem corrected_eq_zero (h : ∀ f, figures x ≠ some (k, f)) : corrected w k x = 0 := by
  unfold corrected
  split
  · exact if_neg fun hl => h _ (by rw [← hl]; rfl)
  · rfl

theorem corrected_unopened (h : w.balanceRow k = none) (hx : w.exec s = some (r, w')) :
    corrected w k ⟨s, r⟩ = 0 := by
  cases s with
  | adjust new l y =>
    obtain ⟨rfl, -⟩ := exec_eq rfl hx
    rcases adjust_cases w new l y with ⟨b, hb, -, heq⟩ | ⟨heq, -⟩
    · rw [heq]
      refine if_neg fun hl => ?_
      rw [hl, h] at hb
      cases hb
    · rw [heq]
      rfl
  | _ => rfl

theorem insertBalance_opens {x : ℚ} (h : w.balanceRow k = none)
    (hr : (w.insertBalance k x).1 = .ok ()) :
    (w.insertBalance k x).2.balances.rows = ⟨k, x, some 0⟩ :: w.balances.rows := by
  unfold World.insertBalance at hr ⊢
  rcases w.balances.insert?_cases ⟨k, x, some 0⟩ with ⟨-, b, hb, hclash⟩ | ⟨t, hins, hrows, -⟩
  · obtain ⟨y, hy, hy'⟩ := clashOn_iff.mp hclash
    have hk : b.loanId = k := Option.some.inj (hy'.trans hy.symm)
    exact absurd hk (by simpa using List.find?_eq_none.mp h b hb)
  · simp only [hins] at hr ⊢
    by_cases hloan : (w.loan k).isSome
    · rw [if_pos hloan]
      exact hrows
    · rw [if_neg hloan] at hr
      cases hr

theorem opening_eq_zero (h : (w.balanceRow k).isSome) : opening w k x = 0 := by
  unfold opening
  split
  · refine if_neg fun hl => ?_
    rw [hl.2] at h
    cases h
  · rfl

/-- A statement that changes a row's figures adds to its balance what it corrects, less what it
credits. -/
theorem figures_balance {b : Balance} (hf : figures x = some (k, f))
    (hb : w.balanceRow k = some b) :
    (f b).balance = b.balance - credited k x + corrected w k x := by
  unfold figures at hf
  split at hf
  · cases hf
    simp [credited, corrected]
  · cases hf
    simp [credited, corrected, World.quoted, hb]
  · cases hf
    simp [credited, corrected]
  · cases hf
    simp [credited, corrected]
  · cases hf

/-- **The balance a step leaves.** -/
theorem exec_quoted (h : w.exec s = some (r, w')) (k : Int) : w'.quoted k =
    w.quoted k - credited k ⟨s, r⟩ + corrected w k ⟨s, r⟩ + opening w k ⟨s, r⟩ := by
  rcases exec_row h k with ⟨f, hf, hrow⟩ | ⟨x, rfl, hnone, hrow, hloan⟩ | ⟨hf, hrow⟩
  · cases hb : w.balanceRow k with
    | none =>
      rw [hb] at hrow
      have hcredit : credited k ⟨s, r⟩ = 0 := by
        cases s with
        | apply l p =>
          rcases exec_applications h with ⟨l, p, b, m, hsr, he, -⟩ | ⟨hne, -⟩
          · cases hsr
            refine if_neg fun hl => ?_
            rw [← hl, (World.eligible_cases he).1] at hb
            cases hb
          · cases r with
            | none => rfl
            | some x => exact absurd rfl (hne l p x)
        | _ => rfl
      have hopen : opening w k ⟨s, r⟩ = 0 := by
        cases s with
        | insertBalance l x => cases hf
        | _ => rfl
      rw [hcredit, hopen, corrected_unopened hb h, World.quoted, hrow, World.quoted, hb]
      simp
    | some b =>
      rw [opening_eq_zero (by rw [hb]; rfl), World.quoted, hrow, hb, World.quoted, hb]
      simpa using figures_balance hf hb
  · have hr : r = .ok () := by
      obtain ⟨hr, -⟩ := exec_eq rfl h
      rw [hr]
      unfold World.insertBalance
      split
      · rfl
      · rw [if_pos hloan]
    subst hr
    rw [World.quoted, hrow, World.quoted, hnone, opening, if_pos ⟨rfl, hnone⟩]
    simp [credited, corrected]
  · rw [credited_eq_zero hf, corrected_eq_zero hf, World.quoted, hrow, World.quoted]
    have hopen : opening w k ⟨s, r⟩ = 0 := by
      unfold opening
      split
      · rename_i l x heq
        refine if_neg fun hl => ?_
        obtain ⟨rfl, hnone⟩ := hl
        obtain ⟨rfl, hr⟩ := Sigma.mk.inj_iff.mp heq
        obtain ⟨hr', rfl⟩ := exec_eq rfl h
        rw [eq_of_heq hr] at hr'
        rw [World.balanceRow, insertBalance_opens hnone hr'.symm, hnone] at hrow
        simp at hrow
      · rfl
    rw [hopen]
    simp

/-- **What is credited is what the application rows record.** -/
theorem exec_credits (h : w.exec s = some (r, w')) (k : Int) :
    w'.credits k = w.credits k + credited k ⟨s, r⟩ := by
  rcases exec_applications h with ⟨l, p, b, m, hsr, -, -, hrows⟩ | ⟨hne, hsame⟩
  · cases hsr
    rw [World.credits, hrows, World.credits]
    by_cases hl : l = k
    · simp [credited, hl, add_comm]
    · simp [credited, hl]
  · have hcredit : credited k ⟨s, r⟩ = 0 := by
      cases s with
      | apply l p =>
        cases r with
        | none => rfl
        | some x => exact absurd rfl (hne l p x)
      | _ => rfl
    rw [World.credits, hsame, World.credits, hcredit, add_zero]

end Parts

end Meridian.Ledger
