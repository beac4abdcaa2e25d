import Meridian.Intake.Discipline

/-!
# A loan is boarded once

Any number of calls that accept, board, submit, decide, offer, check and abandon, in any order, each
free to stop after any statement. `Sound` is what the foreign keys and the order of `accept_offer`'s
writes keep true of the tables: what is referred to is there and nobody is deleting it, and a funded
application has no expiry and a loan with a balance.

* `sound_run`: `Sound` in every run, and everything a call has read of a loan, a balance or a funded
  row still holds (`Holds`).
* **`boarded_once`**: one loan for each application; an answer of `accept_offer` is that loan, with its
  balance, and the application is funded.
-/

namespace Meridian.Intake

open Python Interleave
open Origination (Outcome)

variable {ι : Type} {w w' : World ι}

/-- The loan of an application, with its balance. -/
def World.LoanOf (w : World ι) (appId loanId : Int) : Prop :=
  (∃ l ∈ w.loans.rows, l.id = loanId ∧ l.appId = some appId) ∧
    ∃ b ∈ w.balances.rows, b.loanId = loanId

/-- The application is funded, its token has no expiry, and nothing may delete it. -/
structure World.Funded (w : World ι) (appId : Int) : Prop where
  row : ∃ a ∈ w.applications.rows, a.id = appId ∧ a.status = funded ∧ a.expiresAt = none
  decided : (w.decisions appId).isSome = true

/-- What holds of the tables in every run. -/
structure Sound (w : World ι) : Prop where
  present : ∀ a, w.Referenced a → w.application a ≠ none
  free : ∀ a, w.Referenced a → ¬ w.Deleting a
  funded : ∀ a ∈ w.applications.rows, a.status = funded → a.expiresAt = none ∧
    (w.decisions a.id).isSome = true ∧ ∃ loanId, w.LoanOf a.id loanId

/-- What a log says of the tables, and no step undoes. -/
def Holds (w : World ι) : Answered ι → Prop
  | ⟨.selectBoarding a, some v⟩ => v.chain.outcome.isSome = true → (w.decisions a).isSome = true
  | ⟨.selectLoan a, some l⟩ => l ∈ w.loans.rows ∧ l.appId = some a
  | ⟨.insertLoan a name principal apr noteRate termMonths, .ok loanId⟩ =>
    ⟨loanId, some a, name, principal, apr, noteRate, termMonths⟩ ∈ w.loans.rows
  | ⟨.insertBalance loanId _, .ok ()⟩ => ∃ b ∈ w.balances.rows, b.loanId = loanId
  | ⟨.selectFundedToken a, some _⟩ => w.Funded a
  | ⟨.fund a, ()⟩ => w.Funded a
  | _ => True

/-! ## What the writes leave -/

/-- `fund` writes the row it names. -/
theorem fund_row {a : Int} (h : ∃ r ∈ w.applications.rows, r.id = a) :
    ∃ r ∈ (w.fund a).applications.rows, r.id = a ∧ r.status = funded ∧ r.expiresAt = none := by
  obtain ⟨r, hr, rfl⟩ := h
  refine ⟨World.fundRow r.id r, List.mem_map_of_mem hr, World.fundRow_id _ _, ?_, ?_⟩ <;>
    simp [World.fundRow]

theorem fundedToken_some {a : Int} {token : Option Text} (h : w.fundedToken a = some token) :
    ∃ r ∈ w.applications.rows, r.id = a ∧ r.status = funded ∧ r.continuationToken = token := by
  unfold World.fundedToken at h
  obtain ⟨r, hr, htoken⟩ := Option.map_eq_some_iff.mp h
  obtain ⟨happ, hstatus⟩ := Option.filter_eq_some_iff.mp hr
  obtain ⟨hmem, hid⟩ := World.application_eq.mp happ
  exact ⟨r, hmem, hid, of_decide_eq_true hstatus, htoken⟩

/-- After the balance's `INSERT` the loan has one, its own or an earlier one. -/
theorem insertBalance_ok {loanId : Int} {balance : Double}
    (h : w.insertBalance loanId balance = (.ok (), w')) :
    ∃ b ∈ w'.balances.rows, b.loanId = loanId := by
  unfold World.insertBalance at h
  split_ifs at h
  · rcases w.balances.insert?_cases ⟨loanId, balance⟩ with ⟨hins, b, hb, hclash⟩ | ⟨t, hins, hrows, -⟩
    · rw [hins] at h
      cases h
      obtain ⟨id, hid, hid'⟩ := Ledger.clashOn_iff.mp hclash
      exact ⟨b, hb, (Option.some.inj hid').trans (Option.some.inj hid).symm⟩
    · rw [hins] at h
      cases h
      refine ⟨⟨loanId, balance⟩, ?_, rfl⟩
      dsimp only
      rw [hrows]
      exact List.mem_cons_self
  · cases h

/-! ## What no step undoes -/

/-- What stays through any step of a sound world. -/
structure Grows (w w' : World ι) : Prop where
  loans : ∀ l ∈ w.loans.rows, l ∈ w'.loans.rows
  balances : ∀ b ∈ w.balances.rows, ∃ b' ∈ w'.balances.rows, b'.loanId = b.loanId
  decisions : ∀ a, (w.decisions a).isSome = true → (w'.decisions a).isSome = true
  funded : ∀ a, w.Funded a → w'.Funded a

theorem World.LoanOf.grows {a loanId : Int} (h : w.LoanOf a loanId) (hg : Grows w w') :
    w'.LoanOf a loanId := by
  obtain ⟨⟨l, hl, hloan⟩, b, hb, hid⟩ := h
  obtain ⟨b', hb', hid'⟩ := hg.balances b hb
  exact ⟨⟨l, hg.loans l hl, hloan⟩, b', hb', hid'.trans hid⟩

/-- What a log says stays true. -/
theorem Holds.grows {y : Answered ι} (hy : Holds w y) (hg : Grows w w') : Holds w' y := by
  unfold Holds at hy ⊢
  split at hy
  · exact fun hout => hg.decisions _ (hy hout)
  · exact ⟨hg.loans _ hy.1, hy.2⟩
  · exact hg.loans _ hy
  · obtain ⟨b, hb, hid⟩ := hy
    obtain ⟨b', hb', hid'⟩ := hg.balances b hb
    exact ⟨b', hb', hid'.trans hid⟩
  · exact hg.funded _ hy
  · exact hg.funded _ hy
  · trivial

variable [DecidableEq ι] {S : Supply} {hmac : Text → Text → Text} {x : Answered ι}

theorem Effect.grows (h : Effect w x w') (hS : Sound w) : Grows w w' where
  loans _ := h.kept_loan
  balances b hb := ⟨b, h.kept_balance hb, rfl⟩
  decisions _ := h.kept_decision
  funded a := by
    rintro ⟨⟨r, hr, rfl, hstatus, hexp⟩, hdec⟩
    refine ⟨?_, h.kept_decision hdec⟩
    rcases h.kept_application hr (hS.free _ (.inl hdec)) with hr' | hr'
    · exact ⟨r, hr', rfl, hstatus, hexp⟩
    · exact ⟨r.settled, hr', rfl, rfl, rfl⟩

theorem env_grows (e : Env ι) (w : World ι) : Grows w (w.env e) where
  loans l hl := by
    rw [(env_quiet e w).loans]
    exact hl
  balances _ hb := env_balances e hb
  decisions a hd := by
    rw [(env_quiet e w).decisions]
    exact hd
  funded a := by
    rintro ⟨hrow, hdec⟩
    refine ⟨?_, ?_⟩
    · rw [(env_quiet e w).applications]
      exact hrow
    · rw [(env_quiet e w).decisions]
      exact hdec

/-- **A statement keeps the tables sound** when `fund` follows a decision and a loan. -/
theorem Sound.step (hS : Sound w) (h : Effect w x w') (hfund : ∀ a, x = ⟨.fund a, ()⟩ →
    (w.decisions a).isSome = true ∧ ∃ loanId, w.LoanOf a loanId) : Sound w' where
  present a hr := by
    rcases h.referenced hr with hr | ⟨-, happ, hsame, -⟩
    · obtain ⟨r, hmem, rfl⟩ := World.application_ne_none.mp (hS.present a hr)
      rcases h.kept_application hmem (hS.free _ hr) with hr' | hr'
      · exact World.application_ne_none.mpr ⟨r, hr', rfl⟩
      · exact World.application_ne_none.mpr ⟨r.settled, hr', rfl⟩
    · unfold World.application
      rw [hsame]
      exact happ
  free := h.free hS.free
  funded a ha hstatus := by
    rcases h.application_from ha with ha | ⟨a', ha', hx, rfl⟩ | ⟨n, am, t, tok, e, -, rfl⟩
    · obtain ⟨hexp, hdec, loanId, hloan⟩ := hS.funded a ha hstatus
      exact ⟨hexp, h.kept_decision hdec, loanId, hloan.grows (h.grows hS)⟩
    · obtain ⟨hdec, loanId, hloan⟩ := hfund a'.id hx
      exact ⟨rfl, h.kept_decision hdec, loanId, hloan.grows (h.grows hS)⟩
    · cases hstatus

theorem Sound.env (hS : Sound w) (e : Env ι) : Sound (w.env e) := by
  have hq := env_quiet e w
  have href : ∀ {a}, (w.env e).Referenced a → w.Referenced a := by
    intro a hr
    unfold World.Referenced at hr ⊢
    rwa [hq.decisions, hq.events, hq.offers] at hr
  refine ⟨?_, ?_, ?_⟩
  · intro a hr
    unfold World.application
    rw [hq.applications]
    exact hS.present a (href hr)
  · rintro a hr ⟨t, ht, ha⟩
    exact hS.free a (href hr) ⟨t, hq.transactions.subset ht, ha⟩
  · intro a ha hstatus
    rw [hq.applications] at ha
    obtain ⟨hexp, hdec, loanId, hloan⟩ := hS.funded a ha hstatus
    refine ⟨hexp, ?_, loanId, hloan.grows (env_grows e w)⟩
    rw [hq.decisions]
    exact hdec

/-- What the settling application's log says of the tables. -/
theorem Settling.holds {a loanId : Int} {l : Log (intake ι S)} (h : Settling a loanId l)
    (hl : ∀ y ∈ l, Holds w y) : (w.decisions a).isSome = true ∧ w.LoanOf a loanId := by
  obtain ⟨v, hv, hout⟩ := h.approved
  obtain ⟨p, hp⟩ := h.balanced
  refine ⟨hl _ hv (by rw [hout]; rfl), ?_, hl _ hp⟩
  rcases h.found with ⟨row, hrow, hid⟩ | ⟨n, q, ap, nr, t, hins⟩
  · exact ⟨row, (hl _ hrow).1, hid, (hl _ hrow).2⟩
  · exact ⟨_, hl _ hins, rfl, rfl⟩

/-- What a statement answered holds when it has been executed. -/
theorem holds_exec (hS : Sound w) {s : Stmt ι} {r : s.Res} (h : w.exec S s = some (r, w'))
    (hfund : ∀ a, s = .fund a → (w.decisions a).isSome = true) : Holds w' ⟨s, r⟩ := by
  cases s with
  | selectBoarding a =>
    cases h
    cases hv : w.boardingView a with
    | none => trivial
    | some v =>
      intro hout
      obtain ⟨row, -, rfl⟩ := Option.map_eq_some_iff.mp hv
      exact hout
  | selectLoan a =>
    cases h
    cases hl : w.loanOf a with
    | none => trivial
    | some l => exact World.loanOf_eq.mp hl
  | insertLoan a name p ap nr t =>
    cases r with
    | error e => trivial
    | ok loanId =>
      unfold Holds
      rw [insertLoan_ok (Option.some.inj h)]
      exact List.mem_cons_self
  | insertBalance loanId b =>
    cases r with
    | error e => trivial
    | ok u => exact insertBalance_ok (Option.some.inj h)
  | selectFundedToken a =>
    cases h
    cases htok : w.fundedToken a with
    | none => trivial
    | some token =>
      obtain ⟨row, hrow, rfl, hstatus, -⟩ := fundedToken_some htok
      obtain ⟨hexp, hdec, -⟩ := hS.funded row hrow hstatus
      exact ⟨⟨row, hrow, rfl, hstatus, hexp⟩, hdec⟩
  | fund a =>
    have hdec := hfund a rfl
    have h : (if w.Deleting a then none else some ((), w.fund a)) = some (r, w') := h
    split_ifs at h
    cases h
    exact ⟨fund_row (World.application_ne_none.mp (hS.present a (.inl hdec))), hdec⟩
  | _ => trivial

/-! ## Every run -/

/-- A balance is written with its loan's principal, and an application is funded after it. -/
def Funds (l : Log (intake ι S)) : Stmt ι → Prop
  | .fund a => ∃ loanId, Settling a loanId l
  | .insertBalance loanId principal => Owes loanId principal l
  | _ => True

theorem funds_free : Free (Funds (ι := ι) (S := S)) := by
  intro l s hs
  cases s with
  | fund | insertBalance => cases hs
  | _ => trivial

theorem shape_funds {i : ι} {appId : Int} (l : Log (intake ι S)) (s : Stmt ι)
    (h : Shape i appId l s) : Funds l s := by
  cases s with
  | fund | insertBalance => cases h
  | _ => trivial

/-- **Every call keeps to `Funds`.** -/
theorem task_funds (i : ι) (t : Task) :
    (t.prog hmac i).Obeys Funds (Ended hmac t) ([] : Log (intake ι S)) :=
  task_obeys i t funds_free (fun _ _ _ _ _ _ _ => trivial) (fun _ _ _ h => h)
    (fun _ _ _ _ _ _ _ _ => trivial) (fun _ _ loanId h => ⟨loanId, h⟩)
    fun _ l s _ h => shape_funds l s h

section Runs

variable {tasks : ι → Task} {w₀ : World ι} {tr : List (Entry (intake ι S) ι)}
  {c : Interleave.Config (intake ι S) ι Answer}

/-- A log that gains what a statement answered. -/
theorem forall_own_call {P : Answered ι → Prop} {i : ι} {s : Stmt ι} {r : s.Res}
    (h : ∀ j, ∀ y ∈ own j tr, P y) (hx : P ⟨s, r⟩) (w w' : World ι) :
    ∀ j, ∀ y ∈ own j (.call i s r w w' :: tr), P y := by
  intro j y hy
  rw [own_call] at hy
  split at hy
  · rcases List.mem_cons.mp hy with rfl | hy
    · exact hx
    · exact h j y hy
  · exact h j y hy

/-- **The tables stay sound**, and what a call has read or written still holds. -/
theorem sound_run (h0 : Sound w₀) (h : Run (start S hmac tasks w₀) tr c) :
    Sound c.world ∧ ∀ i, ∀ y ∈ own i tr, Holds c.world y := by
  refine Run.invariant (φ := fun _ => Funds) (Q := fun i => Ended hmac (tasks i))
    (C := fun _ _ => True) (I := fun tr w => Sound w ∧ ∀ i, ∀ y ∈ own i tr, Holds w y)
    (fun i => task_funds i (tasks i)) ⟨h0, ?_⟩ ?_ ?_ h (along_true tr)
  · intro i y hy
    cases hy
  · rintro tr c i s r w - ⟨hS, hl⟩ hs hx -
    have heffect := exec_effect hx
    have hsettled : ∀ a, s = .fund a →
        (c.world.decisions a).isSome = true ∧ ∃ loanId, c.world.LoanOf a loanId := by
      rintro a rfl
      obtain ⟨loanId, hsettling⟩ := hs
      have hholds := hsettling.holds (hl i)
      exact ⟨hholds.1, loanId, hholds.2⟩
    have hgrown : ∀ j, ∀ y ∈ own j tr, Holds w y :=
      fun j y hy => (hl j y hy).grows (heffect.grows hS)
    refine ⟨hS.step heffect fun a ha => hsettled a (congrArg Sigma.fst ha), ?_⟩
    exact forall_own_call hgrown (holds_exec hS hx fun a ha => (hsettled a ha).1) _ _
  · rintro tr c e - ⟨hS, hl⟩ -
    exact ⟨hS.env e, fun i y hy => (hl i y hy).grows (env_grows e c.world)⟩

/-- Servicing has written the loan's balance. -/
def Serviced (loanId : Int) (tr : List (Entry (intake ι S) ι)) : Prop :=
  ∃ balance w w', .env (.service loanId balance) w w' ∈ tr

/-- The balance is the principal of its loan. -/
def Unmoved (w : World ι) (b : BalanceRow) : Prop :=
  ∃ l ∈ w.loans.rows, l.id = b.loanId ∧ l.principal = b.balance

theorem Owes.unmoved {w : World ι} {loanId : Int} {principal : Double} {l : Log (intake ι S)}
    (h : Owes loanId principal l) (hl : ∀ y ∈ l, Holds w y) : Unmoved w ⟨loanId, principal⟩ := by
  rcases h with ⟨a, row, hrow, hid, hp⟩ | ⟨a, n, ap, nr, t, hins⟩
  · exact ⟨row, (hl _ hrow).1, hid, hp⟩
  · exact ⟨_, hl _ hins, rfl, rfl⟩

/-- A balance that was not there at the start is its loan's principal until servicing moves it. -/
theorem balances_run (h0 : Sound w₀) (h : Run (start S hmac tasks w₀) tr c) :
    ∀ b ∈ c.world.balances.rows,
      b ∈ w₀.balances.rows ∨ Serviced b.loanId tr ∨ Unmoved c.world b := by
  have later : ∀ {tr : List (Entry (intake ι S) ι)} {e} {loanId : Int}, Serviced loanId tr →
      Serviced loanId (e :: tr) := by
    rintro tr e loanId ⟨b, w, w', hmem⟩
    exact ⟨b, w, w', List.mem_cons_of_mem _ hmem⟩
  refine Run.invariant (φ := fun _ => Funds) (Q := fun i => Ended hmac (tasks i))
    (C := fun _ _ => True) (I := fun tr w => ∀ b ∈ w.balances.rows,
      b ∈ w₀.balances.rows ∨ Serviced b.loanId tr ∨ Unmoved w b)
    (fun i => task_funds i (tasks i)) (fun b hb => .inl hb) ?_ ?_ h (along_true tr)
  · rintro tr c i s r w hrun hI hs hx -
    have heffect := exec_effect hx
    have kept : ∀ {b : BalanceRow}, Unmoved c.world b → Unmoved w b := by
      rintro b ⟨l, hl, hloan⟩
      exact ⟨l, heffect.kept_loan hl, hloan⟩
    have old : ∀ b ∈ c.world.balances.rows, b ∈ w₀.balances.rows ∨
        Serviced b.loanId (.call i s r c.world w :: tr) ∨ Unmoved w b := by
      intro b hb
      rcases hI b hb with h | h | h
      · exact .inl h
      · exact .inr (.inl (later h))
      · exact .inr (.inr (kept h))
    intro b hb
    rcases heffect.balances with hrows | ⟨loanId, balance, hxs, -, hrows⟩
    · rw [hrows] at hb
      exact old b hb
    · rw [hrows] at hb
      rcases List.mem_cons.mp hb with rfl | hb
      · cases hxs
        exact .inr (.inr (kept (Owes.unmoved hs ((sound_run h0 hrun).2 i))))
      · exact old b hb
  · rintro tr c e hrun hI - b hb
    have kept : ∀ b ∈ c.world.balances.rows, b ∈ w₀.balances.rows ∨
        Serviced b.loanId (.env e c.world (c.world.env e) :: tr) ∨ Unmoved (c.world.env e) b := by
      intro b hb
      rcases hI b hb with h | h | ⟨l, hl, hloan⟩
      · exact .inl h
      · exact .inr (.inl (later h))
      · exact .inr (.inr ⟨l, (env_grows e c.world).loans l hl, hloan⟩)
    cases e with
    | service loanId balance =>
      obtain ⟨b', hb', rfl⟩ := List.mem_map.mp hb
      by_cases hid : b'.loanId = loanId
      · right
        left
        rw [World.serviceRow_loanId, hid]
        exact ⟨balance, _, _, List.mem_cons_self⟩
      · have hsame : World.serviceRow loanId balance b' = b' := if_neg hid
        rw [hsame]
        exact kept b' hb'
    | rotate cfg =>
      refine kept b ?_
      unfold intake World.env at hb
      dsimp only at hb
      split at hb <;> exact hb
    | tick | link | report | drop => exact kept b hb

/-- The state a call that was answered leaves: the loan with its balance, the application funded and
its token without an expiry. -/
structure Settled (w : World ι) (appId loanId : Int) : Prop where
  loan : w.LoanOf appId loanId
  funded : w.Funded appId

theorem Acceptance.settled {w : World ι} {appId loanId : Int} {cl : Caller} {l : Log (intake ι S)}
    (h : Acceptance hmac appId cl l (.ok loanId)) (hS : Sound w) (hl : ∀ y ∈ l, Holds w y) :
    Settled w appId loanId := by
  rcases h with ⟨hsettling, hfund⟩ | ⟨_, token, _, _, row, -, htoken, -, -, hrow, rfl⟩
  · exact ⟨(hsettling.holds hl).2, hl _ hfund⟩
  · have hfunded := hl _ htoken
    obtain ⟨⟨a, ha, rfl, hstatus, -⟩, -⟩ := id hfunded
    obtain ⟨-, -, loanId, hloan⟩ := hS.funded a ha hstatus
    obtain ⟨⟨loan, hmem, rfl, happ⟩, hbal⟩ := hloan
    obtain ⟨hread, hreadApp⟩ := hl _ hrow
    obtain rfl := World.loan_unique hmem hread happ hreadApp
    exact ⟨⟨⟨loan, hmem, rfl, happ⟩, hbal⟩, hfunded⟩

end Runs

/-- **A loan is boarded once**, whatever else runs and wherever calls stop: there is one loan to an
application; every answer of `accept_offer` is that loan; and from that answer on the loan has a
balance, which is its principal until servicing moves it, and the application is funded with no expiry
of its token. -/
theorem boarded_once (S : Supply) (hmac : Text → Text → Text) (tasks : ι → Task) {w₀ : World ι}
    (h0 : Sound w₀) {tr : List (Entry (intake ι S) ι)}
    {c : Interleave.Config (intake ι S) ι Answer} (h : Run (start S hmac tasks w₀) tr c)
    (appId : Int) :
    (∀ l ∈ c.world.loans.rows, ∀ l' ∈ c.world.loans.rows, l.appId = some appId →
      l'.appId = some appId → l = l') ∧
    (∀ i j cl cl' loanId loanId', tasks i = .accept appId cl → tasks j = .accept appId cl' →
      c.procs i = .ret (.accepted (.ok loanId)) → c.procs j = .ret (.accepted (.ok loanId')) →
      loanId = loanId') ∧
    ∀ i cl loanId, tasks i = .accept appId cl → c.procs i = .ret (.accepted (.ok loanId)) →
      Settled c.world appId loanId ∧ ∀ b ∈ c.world.balances.rows, b.loanId = loanId →
        b ∈ w₀.balances.rows ∨ Serviced loanId tr ∨ Unmoved c.world b := by
  have hunique : ∀ l ∈ c.world.loans.rows, ∀ l' ∈ c.world.loans.rows, l.appId = some appId →
      l'.appId = some appId → l = l' := fun l hl l' hl' => World.loan_unique hl hl'
  obtain ⟨hS, hlog⟩ := sound_run h0 h
  have hsettled : ∀ i cl loanId, tasks i = .accept appId cl →
      c.procs i = .ret (.accepted (.ok loanId)) → Settled c.world appId loanId := by
    intro i cl loanId htask hret
    have hended := h.returned (φ := fun _ => Funds) (Q := fun i => Ended hmac (tasks i))
      (fun i => task_funds i (tasks i)) hret
    rw [htask] at hended
    exact Acceptance.settled hended hS (hlog i)
  refine ⟨hunique, ?_, ?_⟩
  · intro i j cl cl' loanId loanId' hi hj hreti hretj
    obtain ⟨⟨l, hl, rfl, happ⟩, -⟩ := (hsettled i cl loanId hi hreti).loan
    obtain ⟨⟨l', hl', rfl, happ'⟩, -⟩ := (hsettled j cl' loanId' hj hretj).loan
    rw [hunique l hl l' hl' happ happ']
  · intro i cl loanId htask hret
    refine ⟨hsettled i cl loanId htask hret, fun b hb hid => ?_⟩
    rw [← hid]
    exact balances_run h0 h b hb

/-- An application is submitted, approved, and accepted twice. -/
def acceptTwice : Call → Task
  | .first => .submit sampleApplication
  | .second => .decide 1 .approve
  | _ => .accept 1 officer

/-- The first acceptance stops after it has inserted the loan. -/
def stopsAfterLoan : List (Pick (intake Call sampleSupply) Call) :=
  List.replicate 4 (.call .first) ++ [.call .second, .env (.report 1 (some passedKyc) deliveredChain)] ++
    List.replicate 4 (.call .third) ++ List.replicate 5 (.call .fourth)

omit [DecidableEq ι] in
theorem sound_initial (config : Config) : Sound (World.initial config : World ι) where
  present a := by
    rintro (h | ⟨e, he, -⟩ | ⟨o, ho, -⟩)
    · cases h
    · cases he
    · cases ho
  free a _ := by
    rintro ⟨t, ht, -⟩
    cases ht
  funded a ha := by cases ha

theorem boarded_once_sample : ∃ tr c,
    Run (start sampleSupply sampleHmac acceptTwice (.initial sampleConfig)) tr c ∧
    c.procs .fourth = .ret (.accepted (.ok 1)) ∧ Settled c.world 1 1 := by
  obtain ⟨tr, c, hrun, hret⟩ := exists_run stopsAfterLoan
    (start sampleSupply sampleHmac acceptTwice (.initial sampleConfig))
    (fun x => boardedLoan (x.2.procs .fourth) = some 1) (by decide +kernel)
  have hret := eq_ret_of_boardedLoan hret
  have honce := boarded_once sampleSupply sampleHmac acceptTwice (sound_initial sampleConfig) hrun 1
  exact ⟨tr, c, hrun, hret, (honce.2.2 .fourth officer 1 rfl hret).1⟩

end Meridian.Intake
