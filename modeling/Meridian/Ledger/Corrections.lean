import Meridian.Ledger.Discipline
import Meridian.Ledger.Movements

/-!
# Fees and manual corrections

`waive_fee` decrements `past_due` inside its UPDATE. `assess_late_fee` reads it, adds the fee and
writes it back, so an update that commits in between is overwritten (`late_fee_lost`). Where none
does, no fee is lost (`no_lost_fee`).

`adjust_balance` compares the stored balance with the quoted one. A change of the row that leaves
the balance where it was is not caught (`waive_uncaught`): a waived or assessed fee, or balance
movements that cancel. `adjust_catches` says that these are all the ways past it.
-/

namespace Meridian.Ledger

open Python Relational Interleave

variable {ι : Type} [DecidableEq ι]

/-! ## `past_due` -/

/-- A `past_due` UPDATE on the loan. -/
def Stmt.updatesPastDue (k : Int) : Stmt → Bool
  | waive _ l | setPastDue _ l => l = k
  | _ => false

/-- A call of `assess_late_fee` or `waive_fee` on the loan. -/
def FeeCall (k : Int) (t : Task) : Prop := t = .assessLateFee k ∨ ∃ x, t = .waiveFee k x

/-- What a completed call changes `past_due` by. -/
def Task.fee : Task → ℚ
  | assessLateFee _ => lateFeeFlat
  | waiveFee _ amount => -amount
  | _ => 0

/-- The call has returned without raising. -/
def completed : P Answer → Bool
  | .ret (.assessed none) => false
  | .ret _ => true
  | .stmt _ _ => false

/-- No `past_due` UPDATE on the loan falls between the SELECT of an `assess_late_fee` and its own
UPDATE. -/
def Undisturbed (k : Int) (tr : List (Entry ledger ι)) : Entry ledger ι → Prop
  | .call i (.setPastDue _ l) _ _ _ =>
    l = k → ∀ x ∈ statements (since i tr), x.1.updatesPastDue k = false
  | _ => True

instance (k : Int) (tr : List (Entry ledger ι)) : ∀ e, Decidable (Undisturbed k tr e)
  | .call i s r w w' => by
    unfold Undisturbed
    split <;> infer_instance
  | .env e w w' => .isTrue trivial

/-- What an answered statement changes `past_due` by. -/
def feeOf (k : Int) : Answered → ℚ
  | ⟨.waive x l, _⟩ => if l = k then -x else 0
  | ⟨.setPastDue _ l, _⟩ => if l = k then lateFeeFlat else 0
  | _ => 0

/-- The fees a log comes to. -/
def fees (k : Int) (l : Log ledger) : ℚ := (l.map (feeOf k)).sum

/-- A fee call has moved nothing while it runs, and its fee once it has completed. -/
theorem fee_obeys (d : Deployment) {k : Int} {t : Task} (ht : FeeCall k t) :
    (t.prog d).Obeys (fun l _ => fees k l = 0)
      (fun l r => fees k l = if completed (.ret r) then t.fee else 0) [] := by
  rcases ht with rfl | ⟨x, rfl⟩
  · refine ⟨rfl, fun rows => ?_⟩
    have hread : fees k [⟨.selectPastDue k, rows⟩] = 0 := by simp [fees, feeOf]
    dsimp only [Prog.bind]
    cases rows.getD (some 0) with
    | none => exact hread
    | some old =>
      have hfee : fees k [⟨.setPastDue (old + lateFeeFlat) k, ()⟩, ⟨.selectPastDue k, rows⟩] =
          Task.fee (.assessLateFee k) := by simp [fees, feeOf, Task.fee]
      exact ⟨hread, fun _ => hfee⟩
  · refine ⟨rfl, fun row => ?_⟩
    have hfee : fees k [⟨.waive x k, row⟩] = Task.fee (.waiveFee k x) := by
      simp [fees, feeOf, Task.fee]
    cases row <;> exact hfee

section PastDue

variable {s : Stmt} {r : s.Res} {w w' : World} {k : Int}

/-- The loan's `past_due`, where it has a row. -/
def World.pastDue (w : World) (k : Int) : Option (Option ℚ) := (w.balanceRow k).map Balance.pastDue

/-- **`past_due` of one loan.** Only its two UPDATEs change it. -/
theorem exec_pastDue (h : w.exec s = some (r, w')) (hb : (w.balanceRow k).isSome) :
    (∃ x, s = .waive x k ∧ w'.pastDue k = (w.pastDue k).map fun p => p.map (· - x)) ∨
    (∃ x, s = .setPastDue x k ∧ w'.pastDue k = some (some x)) ∨
    (s.updatesPastDue k = false ∧ w'.pastDue k = w.pastDue k) := by
  obtain ⟨b, hb⟩ := Option.isSome_iff_exists.mp hb
  unfold World.pastDue
  rcases exec_row h k with ⟨f, hf, hrow⟩ | ⟨x, -, hnone, -⟩ | ⟨hf, hrow⟩
  · rw [hrow, hb]
    cases s with
    | waive x l =>
      cases hf
      exact .inl ⟨x, rfl, rfl⟩
    | setPastDue x l =>
      cases hf
      exact .inr (.inl ⟨x, rfl, rfl⟩)
    | apply l p =>
      cases r with
      | none => cases hf
      | some x =>
        cases hf
        exact .inr (.inr ⟨rfl, rfl⟩)
    | adjust x l y =>
      cases r with
      | none => cases hf
      | some z =>
        cases hf
        exact .inr (.inr ⟨rfl, rfl⟩)
    | _ => cases hf
  · rw [hnone] at hb
    cases hb
  · refine .inr (.inr ⟨?_, by rw [hrow]⟩)
    cases s with
    | waive x l | setPastDue x l => exact decide_eq_false fun hl => hf _ (by rw [← hl]; rfl)
    | _ => rfl

/-- The row's `past_due` adds up, and a call that has just read it still holds the current figure
unless an update came after. -/
structure Tally (k : Int) (x₀ : ℚ) (tr : List (Entry ledger ι)) (w : World) : Prop where
  sum : w.pastDue k = some (some (x₀ + fees k (statements tr)))
  current : ∀ i rows, (own i tr).head? = some ⟨.selectPastDue k, rows⟩ →
    (∀ x ∈ statements (since i tr), x.1.updatesPastDue k = false) → rows = w.pastDue k

theorem Tally.isSome {x₀ : ℚ} {tr : List (Entry ledger ι)} (h : Tally k x₀ tr w) :
    (w.balanceRow k).isSome := by
  have := h.sum
  rw [World.pastDue] at this
  obtain ⟨b, hb, -⟩ := Option.map_eq_some_iff.mp this
  rw [hb]
  rfl

theorem Tally.call {x₀ : ℚ} {tr : List (Entry ledger ι)} {i : ι} (hI : Tally k x₀ tr w)
    (hs : Allowed (own i tr) s) (h : w.exec s = some (r, w'))
    (hC : Undisturbed k tr (.call i s r w w')) : Tally k x₀ (.call i s r w w' :: tr) w' := by
  have hmove := exec_pastDue h hI.isSome
  constructor
  · change _ = some (some (x₀ + (feeOf k ⟨s, r⟩ + fees k (statements tr))))
    rcases hmove with ⟨x, rfl, hp⟩ | ⟨x, rfl, hp⟩ | ⟨hs', hp⟩
    · rw [hp, hI.sum, feeOf, if_pos rfl]
      simp only [Option.map_some]
      congr 2
      ring
    · -- the call wrote its own read plus the fee, and the read is still current
      obtain ⟨rows, old, hhead, hold, rfl⟩ := hs
      have hrows := hI.current i rows hhead (hC rfl)
      rw [hI.sum] at hrows
      rw [hrows] at hold
      cases hold
      rw [hp, feeOf, if_pos rfl]
      congr 2
      ring
    · have hzero : feeOf k ⟨s, r⟩ = 0 := by
        cases s with
        | waive x l | setPastDue x l => exact if_neg (of_decide_eq_false hs')
        | _ => rfl
      rw [hp, hI.sum, hzero, zero_add]
  · intro j rows hhead hsince
    by_cases hj : i = j
    · subst hj
      rw [own_call_self] at hhead
      cases hhead
      obtain ⟨rfl, rfl⟩ := exec_eq rfl h
      rfl
    · rw [own_call_ne hj] at hhead
      rw [since_call_ne hj] at hsince
      have hs' := hsince ⟨s, r⟩ List.mem_cons_self
      have hprev := hI.current j rows hhead fun x hx => hsince x (List.mem_cons_of_mem _ hx)
      rcases hmove with ⟨x, rfl, -⟩ | ⟨x, rfl, -⟩ | ⟨-, hp⟩
      · simp [Stmt.updatesPastDue] at hs'
      · simp [Stmt.updatesPastDue] at hs'
      · rw [hp, hprev]

theorem Tally.env {x₀ : ℚ} {tr : List (Entry ledger ι)} (hI : Tally k x₀ tr w) (v : Env) :
    Tally k x₀ (.env v w (w.env v) :: tr) (w.env v) := by
  have hrow : (w.env v).pastDue k = w.pastDue k := by rw [World.pastDue, env_row, World.pastDue]
  constructor
  · rw [hrow]
    exact hI.sum
  · intro j rows hhead hsince
    rw [hrow]
    exact hI.current j rows hhead hsince

end PastDue

/-- **No fee is lost** where no update falls between the SELECT and the UPDATE of an
`assess_late_fee`: in every state reached, `past_due` is its initial value plus the fees of the
calls completed so far. -/
theorem no_lost_fee [Fintype ι] (d : Deployment) (tasks : ι → Task) (k : Int)
    (hfee : ∀ i, FeeCall k (tasks i)) (w₀ : World) (x₀ : ℚ) (h0 : w₀.pastDue k = some (some x₀))
    {tr : List (Entry ledger ι)} {c : Config ledger ι Answer} (h : Run (start d tasks w₀) tr c)
    (hC : Along (Undisturbed k) tr) :
    c.world.pastDue k =
      some (some (x₀ + ∑ i, if completed (c.procs i) then (tasks i).fee else 0)) := by
  have htally : Tally k x₀ tr c.world := by
    refine Run.invariant (I := Tally k x₀) (fun i => task_obeys d (tasks i)) ?_
      (fun tr c i s r w _ hI hs hx hC => hI.call hs hx hC) (fun tr c v _ hI _ => hI.env v) h hC
    constructor
    · change w₀.pastDue k = _
      rw [h0]
      simp [statements, fees]
    · intro i rows hhead
      cases hhead
  have hown (i : ι) : fees k (own i tr) =
      if completed (c.procs i) then (tasks i).fee else 0 := by
    have hobeys := h.obeys (fun j => fee_obeys d (hfee j)) i
    cases hp : c.procs i with
    | ret r =>
      rw [hp] at hobeys
      exact hobeys
    | stmt s q =>
      rw [hp] at hobeys
      exact hobeys.1
  have hsum : fees k (statements tr) = ∑ i, fees k (own i tr) := 
    (sum_own (M := ledger) (feeOf k) tr).symm
  rw [htally.sum, hsum, Finset.sum_congr rfl fun i _ => hown i]

/-- Loan 1, boarded at 1000. -/
def boardedWorld : World := ((World.fresh.insertLoan none 1000).2.insertBalance 1 1000).2

def twoLateFees : Fin 2 → Task := fun _ => .assessLateFee 1

/-- **A late fee is lost**: both calls read 0 and both write 35. -/
theorem late_fee_lost : boardedWorld.pastDue 1 = some (some 0) ∧
    ∃ tr c, Run (start sampleDeployment twoLateFees boardedWorld) tr c ∧
      (∀ i, completed (c.procs i) = true) ∧
      c.world.pastDue 1 ≠ some (some (0 + ∑ i, (twoLateFees i).fee)) := by
  refine ⟨by decide +kernel, _, _,
    run_of_playAll [.call 0, .call 1, .call 0, .call 1] (by decide +kernel), ?_, ?_⟩
  · decide +kernel
  · decide +kernel

/-- A late fee, and a waiver of 10. -/
def feeAndWaiver : Fin 2 → Task
  | 0 => .assessLateFee 1
  | 1 => .waiveFee 1 10

theorem fee_then_waiver : ∃ tr c, Run (start sampleDeployment feeAndWaiver boardedWorld) tr c ∧
    c.world.pastDue 1 = some (some (0 + ∑ i : Fin 2, if completed (c.procs i) then
      (feeAndWaiver i).fee else 0)) := by
  refine ⟨_, _, run_of_playAll [.call 0, .call 0, .call 1] (by decide +kernel), ?_⟩
  exact no_lost_fee sampleDeployment feeAndWaiver 1
    (fun i => match i with | 0 => .inl rfl | 1 => .inr ⟨10, rfl⟩) boardedWorld 0
    (by decide +kernel) (run_of_playAll [.call 0, .call 0, .call 1] (by decide +kernel))
    (by decide +kernel)

/-! ## The compare-and-set -/

/-- Some step changed the figures of the loan's row. -/
def Changed (k : Int) (tr : List (Entry ledger ι)) : Prop :=
  ∃ e ∈ tr, e.pre.balanceRow k ≠ e.post.balanceRow k

/-- What a step moves the loan's balance by: what it corrects and opens, less what it credits. -/
def movement (k : Int) : Entry ledger ι → ℚ
  | .call _ s r w _ => corrected w k ⟨s, r⟩ + opening w k ⟨s, r⟩ - credited k ⟨s, r⟩
  | .env _ _ _ => 0

/-- The signed movements of the loan's balance, added up. -/
def net (k : Int) (tr : List (Entry ledger ι)) : ℚ := (tr.map (movement k)).sum

section CompareAndSet

variable {c₁ c : Config ledger ι Answer} {tr tr' : List (Entry ledger ι)} {k : Int}

/-- The balance after a run is the one before, moved by the run's net. -/
theorem quoted_run (h : Run c₁ tr c) (k : Int) :
    c.world.quoted k = c₁.world.quoted k + net k tr := by
  refine Run.invariant (φ := fun _ _ _ => True) (Q := fun _ _ _ => True) (C := fun _ _ => True)
    (I := fun tr (w : World) => w.quoted k = c₁.world.quoted k + net k tr) (fun i => obeys_true _)
    (by simp [net]) (fun tr c i s r w _ hI _ hx _ => ?_) (fun tr c v _ hI _ => ?_) h (along_true tr)
  · have hstep := exec_quoted hx k
    rw [hI] at hstep
    rw [hstep, net, net, List.map_cons, List.sum_cons, movement]
    ring
  · rw [World.quoted, env_row, ← World.quoted, hI]
    simp [net, movement]

/-- A row that was changed is there. -/
theorem isSome_of_changed (h : Run c₁ tr c) (hch : Changed k tr) :
    (c.world.balanceRow k).isSome := by
  by_contra hnone
  refine absurd hch ?_
  refine Run.invariant (φ := fun _ _ _ => True) (Q := fun _ _ _ => True) (C := fun _ _ => True)
    (I := fun tr (w : World) => ¬ (w.balanceRow k).isSome → ¬ Changed k tr) (fun i => obeys_true _)
    ?_ (fun tr c i s r w _ hI _ hx _ => ?_) (fun tr c v _ hI _ => ?_) h (along_true tr) hnone
  · rintro - ⟨e, he, -⟩
    cases he
  · intro hw hch
    have hpre : ¬ (c.world.balanceRow k).isSome := fun hb => hw (exec_row_isSome hx hb)
    obtain ⟨e, he, hne⟩ := hch
    rcases List.mem_cons.mp he with rfl | he
    · simp only [Entry.pre, Entry.post, Option.not_isSome_iff_eq_none] at hne hw hpre
      exact hne (by rw [hpre, hw])
    · exact hI hpre ⟨e, he, hne⟩
  · intro hw hch
    rw [env_row] at hw
    obtain ⟨e, he, hne⟩ := hch
    rcases List.mem_cons.mp he with rfl | he
    · exact hne (env_row v _ k).symm
    · exact hI hw ⟨e, he, hne⟩

/-- What an answer of `adjust_balance` follows from: its UPDATE alone, or the UPDATE that matched
no row and a read. -/
def AdjustedFrom (k : Int) (new expected : ℚ) (l : Log ledger) (a : Answer) : Prop :=
  (∃ b, a = .adjusted (.ok b) ∧ l = [⟨.adjust new k expected, some b⟩]) ∨
    ∃ b row, a = .adjusted (.error b) ∧
      l = [⟨.selectBalance k, row⟩, ⟨.adjust new k expected, none⟩]

theorem adjust_answers (d : Deployment) (k : Int) (new expected : ℚ) :
    ((Task.adjustBalance k new expected).prog d).Obeys (fun _ _ => True)
      (AdjustedFrom k new expected) [] := by
  refine ⟨trivial, fun r => ?_⟩
  cases r with
  | some b => exact .inl ⟨b, rfl, rfl⟩
  | none => exact ⟨trivial, fun row => .inr ⟨_, row, rfl, rfl⟩⟩

/-- The call fails when its UPDATE matched no row, and succeeds otherwise. -/
theorem adjust_answer {d : Deployment} {i : ι} {k : Int} {new expected : ℚ}
    (hi : c₁.procs i = (Task.adjustBalance k new expected).prog d) (h : Run c₁ tr c)
    {a : Except ℚ ℚ} (ha : c.procs i = .ret (.adjusted a)) {r : Option ℚ} {w w' : World}
    (hs : .call i (.adjust new k expected) r w w' :: tr' <:+ tr) :
    (r = none → ∃ b, a = .error b) ∧ (r ≠ none → ∃ b, a = .ok b) := by
  have hobeys : ∀ j, (c₁.procs j).Obeys (fun _ _ => True)
      (fun l r => j = i → AdjustedFrom k new expected l r) [] := by
    intro j
    by_cases hj : j = i
    · subst hj
      rw [hi]
      exact (adjust_answers d k new _).mono (fun _ _ h => h) fun _ _ h _ => h
    · exact (obeys_true _).mono (fun _ _ h => h) fun _ _ _ hji => absurd hji hj
  have hmem := mem_own_of_suffix hs
  rcases h.returned hobeys ha rfl with ⟨b, hb, hl⟩ | ⟨b, row, hb, hl⟩
  · rw [hl] at hmem
    simp only [List.mem_singleton, Sigma.mk.injEq, heq_eq_eq, true_and] at hmem
    cases hb
    subst hmem
    exact ⟨nofun, fun _ => ⟨b, rfl⟩⟩
  · rw [hl] at hmem
    simp at hmem
    cases hb
    subst hmem
    exact ⟨fun _ => ⟨b, rfl⟩, fun h => absurd rfl h⟩

/-- On a changed row the UPDATE matches nothing exactly when the movements do not cancel. -/
theorem adjust_refuses {k : Int} {quote : ℚ} (new : ℚ) (hq : c₁.world.quoted k = quote)
    (h : Run c₁ tr c) (hch : Changed k tr) :
    c.world.adjust new k quote = (none, c.world) ↔ net k tr ≠ 0 := by
  have hquoted := quoted_run h k
  rw [hq] at hquoted
  obtain ⟨b, hb⟩ := Option.isSome_iff_exists.mp (isSome_of_changed h hch)
  rw [World.quoted, hb] at hquoted
  have hsame : b.balance = quote + net k tr := hquoted
  rcases adjust_cases c.world new k quote with ⟨b', hb', heq, hsome⟩ | ⟨hnone, hne⟩
  · rw [hb] at hb'
    cases hb'
    have hnet : net k tr = 0 := by linarith
    simp [hnet, hsome]
  · refine ⟨fun _ hnet => hne b hb ?_, fun _ => hnone⟩
    rw [hsame, hnet, add_zero]

/-- `BalanceChanged` is raised and nothing written when the row was changed since the quote, and
the call succeeds only when it was not. -/
def Caught (k : Int) (tr' : List (Entry ledger ι)) (w w' : World) (a : Except ℚ ℚ) : Prop :=
  (Changed k tr' → (∃ b, a = .error b) ∧ w' = w) ∧ ((∃ b, a = .ok b) → ¬ Changed k tr')

/-- **What the compare-and-set catches.** A call of `adjust_balance` with the figure quoted at
`c₁` catches the movements up to its UPDATE exactly when there were none, or the balance they move
does not come back to the quoted one. -/
theorem adjust_catches (d : Deployment) {i : ι} {k : Int} {new quote : ℚ}
    (hq : c₁.world.quoted k = quote) (hi : c₁.procs i = (Task.adjustBalance k new quote).prog d)
    (h : Run c₁ tr c) {a : Except ℚ ℚ} (ha : c.procs i = .ret (.adjusted a)) {r : Option ℚ}
    {w w' : World} (hs : .call i (.adjust new k quote) r w w' :: tr' <:+ tr) :
    Caught k tr' w w' a ↔ ¬ Changed k tr' ∨ net k tr' ≠ 0 := by
  obtain ⟨hfails, hsucceeds⟩ := adjust_answer hi h ha hs
  obtain ⟨c₂, c₃, h₂, hstep⟩ := h.entry hs
  have hw : w = c₂.world := hstep.pre_eq
  subst hw
  obtain ⟨hr, rfl⟩ := exec_eq rfl (h.exec hs)
  constructor
  · intro hcaught
    by_contra hno
    obtain ⟨hch, hnet⟩ := not_or.mp hno
    rw [not_not] at hch
    refine hcaught.2 (hsucceeds fun hnone => hnet ?_) hch
    -- an UPDATE that matches no row writes none
    refine (adjust_refuses new hq h₂ hch).mp ?_
    rcases adjust_cases c₂.world new k quote with ⟨b, -, -, hsome⟩ | ⟨heq, -⟩
    · rw [hr, hsome] at hnone
      cases hnone
    · exact heq
  · intro hcond
    have hrefuse : Changed k tr' → c₂.world.adjust new k quote = (none, c₂.world) := fun hch =>
      (adjust_refuses new hq h₂ hch).mpr (hcond.resolve_left (not_not.mpr hch))
    constructor
    · intro hch
      exact ⟨hfails (by rw [hr, hrefuse hch]), by rw [hrefuse hch]⟩
    · rintro ⟨b, hb⟩ hch
      obtain ⟨b', hb'⟩ := hfails (by rw [hr, hrefuse hch])
      rw [hb] at hb'
      cases hb'

end CompareAndSet

/-- A waiver of 10, and a correction of the quoted 1000 to 900. -/
def waiveThenAdjust : Fin 2 → Task
  | 0 => .waiveFee 1 10
  | 1 => .adjustBalance 1 900 1000

/-- **A waiver is not caught**: it commits between quote and submission, and the correction
succeeds. -/
theorem waive_uncaught : boardedWorld.quoted 1 = 1000 ∧
    ∃ tr' tr c w w', Run (start sampleDeployment waiveThenAdjust boardedWorld) tr c ∧
      .call 1 (.adjust 900 1 1000) (some 900) w w' :: tr' <:+ tr ∧
      c.procs 1 = .ret (.adjusted (.ok 900)) ∧ ¬ Caught 1 tr' w w' (.ok 900) := by
  refine ⟨by decide +kernel, _, _, _, _, _,
    run_of_playAll [.call 0, .call 1] (by decide +kernel), List.suffix_rfl,
    Prog.eq_ret_of_result (by decide +kernel), fun hcaught => hcaught.2 ⟨900, rfl⟩ ?_⟩
  exact ⟨_, List.mem_cons_self, by decide +kernel⟩

/-- Two corrections, both quoted 1000. -/
def twoCorrections : Fin 2 → Task
  | 0 => .adjustBalance 1 950 1000
  | 1 => .adjustBalance 1 900 1000

theorem correction_caught : ∃ tr' tr c w w',
    Run (start sampleDeployment twoCorrections boardedWorld) tr c ∧
      .call 1 (.adjust 900 1 1000) none w w' :: tr' <:+ tr ∧ Caught 1 tr' w w' (.error 950) := by
  refine ⟨_, _, _, _, _, run_of_playAll [.call 0, .call 1, .call 1] (by decide +kernel),
    List.suffix_cons _ _, ?_⟩
  have hquote : (start sampleDeployment twoCorrections boardedWorld).world.quoted 1 = 1000 := by
    decide +kernel
  exact (adjust_catches (i := 1) sampleDeployment hquote rfl
    (run_of_playAll [.call 0, .call 1, .call 1] (by decide +kernel))
    (Prog.eq_ret_of_result (by decide +kernel)) (List.suffix_cons _ _)).mpr
    (.inr (by decide +kernel))

end Meridian.Ledger
