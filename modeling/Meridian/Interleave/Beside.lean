import Meridian.Interleave.Run

/-!
# Two machines side by side

`M.beside K` has the worlds and the statements of both, and neither touches the other's world. A
program of `M` is a program of it (`Prog.left`).

`Hosts Φ q p`: whatever `q` issues of `M`, `p` issues too and in the same order, and where `q` issues
a statement of `K`, that statement and what is left of `p` satisfy `Φ`.

* `Run.left`: the steps of `M` in a run of hosts are a run of the programs they host.
-/

namespace Meridian.Interleave

open Prog

/-- Both machines, with a world each. -/
abbrev Machine.beside (M K : Machine) : Machine where
  World := M.World × K.World
  Stmt := M.Stmt ⊕ K.Stmt
  Res := Sum.elim M.Res K.Res
  Env := M.Env ⊕ K.Env
  exec s w :=
    match s with
    | .inl s => (M.exec s w.1).map fun x => (x.1, x.2, w.2)
    | .inr s => (K.exec s w.2).map fun x => (x.1, w.1, x.2)
  env e w :=
    match e with
    | .inl e => (M.env e w.1, w.2)
    | .inr e => (w.1, K.env e w.2)

variable {M K : Machine} {α β γ ι : Type}

theorem exec_inl {s : M.Stmt} {r : M.Res s} {w w' : M.World × K.World}
    (h : (M.beside K).exec (.inl s) w = some (r, w')) :
    M.exec s w.1 = some (r, w'.1) ∧ w'.2 = w.2 := by
  obtain ⟨x, hx, hr⟩ := Option.map_eq_some_iff.mp h
  cases hr
  exact ⟨hx, rfl⟩

theorem exec_inr {s : K.Stmt} {r : K.Res s} {w w' : M.World × K.World}
    (h : (M.beside K).exec (.inr s) w = some (r, w')) :
    K.exec s w.2 = some (r, w'.2) ∧ w'.1 = w.1 := by
  obtain ⟨x, hx, hr⟩ := Option.map_eq_some_iff.mp h
  cases hr
  exact ⟨hx, rfl⟩

/-- A program of the first machine. -/
def Prog.left : Prog M α → Prog (M.beside K) α
  | ret a => ret a
  | stmt s k => stmt (.inl s) fun r => (k r).left

/-- What `q` issues of the first machine, `p` issues, up to where `q` ends. -/
def Prog.Hosts (Φ : K.Stmt → Prog M β → Prop) : Prog (M.beside K) α → Prog M β → Prop
  | ret _, _ => True
  | stmt (.inl s) k, p => ∃ k', p = stmt s k' ∧ ∀ r, Hosts Φ (k r) (k' r)
  | stmt (.inr s) k, p => Φ s p ∧ ∀ r, Hosts Φ (k r) p

variable {Φ : K.Stmt → Prog M β → Prop}

/-- A program of the first machine hosts itself, and hands on to a host of what follows. -/
theorem hosts_left_bind (p : Prog M α) {f : α → Prog (M.beside K) γ} {g : α → Prog M β}
    (hf : ∀ a, Hosts Φ (f a) (g a)) : Hosts Φ (p.left >>= f) (p >>= g) := by
  induction p with
  | ret a => exact hf a
  | stmt s k ih => exact ⟨_, rfl, ih⟩

theorem bind_ret (p : Prog M α) : p >>= ret = p := by
  induction p with
  | ret a => rfl
  | stmt s k ih => exact congrArg (stmt s) (funext ih)

/-- A program of the first machine followed by statements of the second one hosts it. -/
theorem hosts_left (p : Prog M β) {f : β → Prog (M.beside K) γ}
    (hf : ∀ b, Hosts Φ (f b) (ret b)) : Hosts Φ (p.left >>= f) p := by
  have h := hosts_left_bind p hf
  rwa [bind_ret] at h

/-- What follows a host hosts anything. -/
theorem Prog.Hosts.then {q : Prog (M.beside K) α} {p : Prog M β} {f : α → Prog (M.beside K) γ}
    (h : Hosts Φ q p) (hf : ∀ a p, Hosts Φ (f a) p) : Hosts Φ (q >>= f) p := by
  induction q generalizing p with
  | ret a => exact hf a p
  | stmt s k ih =>
    cases s with
    | inl s =>
      obtain ⟨k', rfl, hk⟩ := h
      exact ⟨k', rfl, fun r => ih r (hk r)⟩
    | inr s => exact ⟨h.1, fun r => ih r (h.2 r)⟩

/-- A program of the second machine alone leaves what is hosted where it is. -/
theorem hosts_right_bind {q : Prog (M.beside K) α} {p : Prog M β} {f : α → Prog (M.beside K) γ}
    {l : Log (M.beside K)} (hq : Obeys (fun _ s => ∃ k : K.Stmt, s = Sum.inr k ∧ Φ k p)
      (fun _ a => Hosts Φ (f a) p) l q) : Hosts Φ (q >>= f) p := by
  induction q generalizing l with
  | ret a => exact hq
  | stmt s k ih =>
    obtain ⟨⟨s', rfl, hs⟩, hk⟩ := hq
    exact ⟨hs, fun r => ih r (hk r)⟩

theorem bind_bind (p : Prog M α) (f : α → Prog M β) (g : β → Prog M γ) :
    (p >>= f) >>= g = p >>= fun a => f a >>= g := by
  induction p with
  | ret a => rfl
  | stmt s k ih => exact congrArg (stmt s) (funext ih)

/-- A log of the first machine. -/
def leftLog (l : Log M) : Log (M.beside K) := l.map fun x => ⟨.inl x.1, x.2⟩

/-- What a program of the first machine obeys, it obeys after any log. -/
theorem Prog.Obeys.left {φ : Log M → M.Stmt → Prop} {Q : Log M → α → Prop}
    {φ' : Log (M.beside K) → (M.beside K).Stmt → Prop} {Q' : Log (M.beside K) → α → Prop}
    {l : Log M} {l₀ : Log (M.beside K)} {p : Prog M α} (h : Obeys φ Q l p)
    (hφ : ∀ l s, φ l s → φ' (leftLog l ++ l₀) (.inl s))
    (hQ : ∀ l a, Q l a → Q' (leftLog l ++ l₀) a) : Obeys φ' Q' (leftLog l ++ l₀) p.left := by
  induction p generalizing l with
  | ret a => exact hQ l a h
  | stmt s k ih => exact ⟨hφ l s h.1, fun r => ih r (h.2 r)⟩

/-- The step of the first machine, if it is one. -/
def leftEntry : Entry (M.beside K) ι → Option (Entry M ι)
  | .call i (.inl s) r w w' => some (.call i s r w.1 w'.1)
  | .call _ (.inr _) _ _ _ => none
  | .env (.inl e) w w' => some (.env e w.1 w'.1)
  | .env (.inr _) _ _ => none

/-- The steps of the first machine. -/
def leftSteps (tr : List (Entry (M.beside K) ι)) : List (Entry M ι) := tr.filterMap leftEntry

variable [DecidableEq ι] {c₀ c : Config (M.beside K) ι α} {tr : List (Entry (M.beside K) ι)}
  {p : ι → Prog M β}

/-- **The first machine's part of a run** is a run of the programs that are hosted. -/
theorem Run.left (h : Run c₀ tr c) (hosts : ∀ i, Hosts Φ (c₀.procs i) (p i)) :
    ∃ c' : Config M ι β, Run ⟨c₀.world.1, p⟩ (leftSteps tr) c' ∧ c'.world = c.world.1 ∧
      ∀ i, Hosts Φ (c.procs i) (c'.procs i) := by
  induction h with
  | nil => exact ⟨_, .nil, rfl, hosts⟩
  | @cons tr c e c₁ h hs ih =>
    obtain ⟨c', hrun, hw, hp⟩ := ih
    cases hs with
    | env e =>
      cases e with
      | inl e =>
        refine ⟨⟨M.env e c'.world, c'.procs⟩, ?_, by rw [hw], hp⟩
        show Run _ (.env e c.world.1 (M.env e c.world.1) :: leftSteps tr) _
        rw [← hw]
        exact hrun.cons (.env e)
      | inr e => exact ⟨c', hrun, hw, hp⟩
    | @call i s k r w hi hx =>
      have hhost := hp i
      rw [hi] at hhost
      cases s with
      | inl s =>
        obtain ⟨k', hk', hnext⟩ := hhost
        have hexec := (exec_inl hx).1
        rw [← hw] at hexec
        refine ⟨c'.advance i (k' r) w.1, ?_, rfl, fun j => ?_⟩
        · show Run _ (.call i s r c.world.1 w.1 :: leftSteps tr) _
          rw [← hw]
          exact hrun.cons (.call hk' hexec)
        · by_cases hij : j = i
          · subst hij
            rw [advance_self, advance_self]
            exact hnext r
          · rw [advance_ne hij, advance_ne hij]
            exact hp j
      | inr s =>
        refine ⟨c', hrun, hw.trans (exec_inr hx).2.symm, fun j => ?_⟩
        by_cases hij : j = i
        · subst hij
          rw [advance_self]
          exact hhost.2 r
        · rw [advance_ne hij]
          exact hp j

/-- Where a caller issues a statement of the second machine, what is left of the program it hosts. -/
theorem Run.left_issued (h : Run c₀ tr c) (hosts : ∀ i, Hosts Φ (c₀.procs i) (p i)) {i : ι}
    {s : K.Stmt} {r : K.Res s} {w w' : M.World × K.World} {tr' : List (Entry (M.beside K) ι)}
    (hs : .call i (.inr s) r w w' :: tr' <:+ tr) :
    ∃ c' : Config M ι β, Run ⟨c₀.world.1, p⟩ (leftSteps tr') c' ∧ Φ s (c'.procs i) := by
  obtain ⟨c₁, c₂, h₁, hstep⟩ := h.entry hs
  obtain ⟨c', hrun, -, hp⟩ := h₁.left hosts
  refine ⟨c', hrun, ?_⟩
  cases hstep with
  | call hi hx =>
    have hhost := hp i
    rw [hi] at hhost
    exact hhost.1

end Meridian.Interleave
