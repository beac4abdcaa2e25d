import Mathlib.Data.List.Basic

/-!
# Graphs of nodes over a shared state

A `Graph` is a set of nodes that are visited one after the other. A visit makes a new state of the
state it finds, or raises; the new state decides which node comes next. A visit also knows the visits
before it, so that what comes from outside (the replies of a service) may differ from call to call.

`Graph.run` visits at most `fuel` nodes and records each with the state it found, newest first.

* `run_spec`: assertions on the edges. What holds whenever a node is about to be visited carries over
  to every visit of a run and to its outcome.
* `run_ends`: a run that some measure bounds ends within its steps.
* `run_congr`: two graphs whose visits agree along a relation have runs that agree.
* `run_agree`: two graphs that differ at an ending node alone make the same visits.
-/

namespace Meridian.Workflow

/-- Nodes `ν` over states `σ`; a visit may raise an `ε`. -/
structure Graph (ν σ ε : Type) where
  /-- The state a visit leaves, after the visits made so far. -/
  visit : List (ν × σ) → ν → σ → Except ε σ
  /-- The node to visit next, if any. -/
  next : ν → σ → Option ν

/-- The visits of a run, newest first, and how it ended; `none` when the steps ran out. -/
structure Result (ν σ ε : Type) where
  visits : List (ν × σ)
  outcome : Option (Except ε σ)

namespace Graph

variable {ν σ ε : Type} (G : Graph ν σ ε)

def run : ℕ → List (ν × σ) → ν → σ → Result ν σ ε
  | 0, past, _, _ => ⟨past, none⟩
  | fuel + 1, past, n, s =>
    match G.visit past n s with
    | .error e => ⟨(n, s) :: past, some (.error e)⟩
    | .ok s' =>
      match G.next n s' with
      | none => ⟨(n, s) :: past, some (.ok s')⟩
      | some n' => run fuel ((n, s) :: past) n' s'

/-- What holds before a visit, after a run and when a visit raises. -/
structure Assertions (ν σ ε : Type) where
  before : List (ν × σ) → ν → σ → Prop
  after : List (ν × σ) → σ → Prop
  raised : List (ν × σ) → ε → Prop

/-- The assertions hold of a result. -/
def Assertions.Holds (A : Assertions ν σ ε) (r : Result ν σ ε) : Prop :=
  match r.outcome with
  | none => True
  | some (.ok s) => A.after r.visits s
  | some (.error e) => A.raised r.visits e

/-- Each visit keeps the assertions. -/
structure Keeps (A : Assertions ν σ ε) : Prop where
  on : ∀ {past n s s' n'}, A.before past n s → G.visit past n s = .ok s' → G.next n s' = some n' →
    A.before ((n, s) :: past) n' s'
  ends : ∀ {past n s s'}, A.before past n s → G.visit past n s = .ok s' → G.next n s' = none →
    A.after ((n, s) :: past) s'
  raises : ∀ {past n s e}, A.before past n s → G.visit past n s = .error e →
    A.raised ((n, s) :: past) e

variable {G}

/-- **Assertions on the edges** hold at every visit of a run, and of its outcome. -/
theorem run_spec {A : Assertions ν σ ε} (hG : G.Keeps A) :
    ∀ fuel {past : List (ν × σ)} {n : ν} {s : σ}, A.before past n s →
      A.Holds (G.run fuel past n s) ∧
      ∀ x ∈ (G.run fuel past n s).visits, x ∈ past ∨ ∃ past', A.before past' x.1 x.2
  | 0, past, n, s, _ => ⟨trivial, fun _ hx => .inl hx⟩
  | fuel + 1, past, n, s, h => by
    have hvisit : ∀ x ∈ (n, s) :: past, x ∈ past ∨ ∃ past', A.before past' x.1 x.2 := by
      rintro x hx
      rcases List.mem_cons.mp hx with rfl | hx
      · exact .inr ⟨past, h⟩
      · exact .inl hx
    rw [run]
    cases hv : G.visit past n s with
    | error e => exact ⟨hG.raises h hv, hvisit⟩
    | ok s' =>
      dsimp only
      cases hn : G.next n s' with
      | none => exact ⟨hG.ends h hv hn, hvisit⟩
      | some n' =>
        obtain ⟨hout, hall⟩ := run_spec hG fuel (hG.on h hv hn)
        refine ⟨hout, fun x hx => ?_⟩
        rcases hall x hx with hx | hx
        · exact hvisit x hx
        · exact .inr hx

/-- **A run that a measure bounds ends.** -/
theorem run_ends {A : Assertions ν σ ε} (hG : G.Keeps A) (μ : ν → σ → ℕ)
    (hμ : ∀ {past n s s' n'}, A.before past n s → G.visit past n s = .ok s' →
      G.next n s' = some n' → μ n' s' < μ n s) :
    ∀ fuel {past : List (ν × σ)} {n : ν} {s : σ}, A.before past n s → μ n s < fuel →
      (G.run fuel past n s).outcome.isSome = true
  | 0, past, n, s, _, hfuel => absurd hfuel (Nat.not_lt_zero _)
  | fuel + 1, past, n, s, h, hfuel => by
    rw [run]
    cases hv : G.visit past n s with
    | error e => rfl
    | ok s' =>
      dsimp only
      cases hn : G.next n s' with
      | none => rfl
      | some n' =>
        have hless := hμ h hv hn
        exact run_ends hG μ hμ fuel (hG.on h hv hn) (by omega)

/-- Two outcomes are alike: neither is there, both raise the same, or the states are related. -/
def Alike (R : σ → σ → Prop) : Option (Except ε σ) → Option (Except ε σ) → Prop
  | none, none => True
  | some (.error e), some (.error e') => e = e'
  | some (.ok s), some (.ok s') => R s s'
  | _, _ => False

/-- **Graphs that agree along a relation** have runs that agree along it. -/
theorem run_congr (G G' : Graph ν σ ε) {R : σ → σ → Prop}
    (hvisit : ∀ {past past' n s s'}, past.map Prod.fst = past'.map Prod.fst → R s s' →
      Alike R (some (G.visit past n s)) (some (G'.visit past' n s')))
    (hnext : ∀ {n s s'}, R s s' → G.next n s = G'.next n s') :
    ∀ fuel {past past' : List (ν × σ)} {n : ν} {s s' : σ}, past.map Prod.fst = past'.map Prod.fst →
      R s s' → Alike R (G.run fuel past n s).outcome (G'.run fuel past' n s').outcome
  | 0, _, _, _, _, _, _, _ => trivial
  | fuel + 1, past, past', n, s, s', hpast, h => by
    have hstep := hvisit (n := n) hpast h
    rw [run, run]
    cases hv : G.visit past n s with
    | error e =>
      rw [hv] at hstep
      cases hv' : G'.visit past' n s' with
      | error e' =>
        rw [hv'] at hstep
        exact hstep
      | ok t' =>
        rw [hv'] at hstep
        exact hstep.elim
    | ok t =>
      rw [hv] at hstep
      cases hv' : G'.visit past' n s' with
      | error e' =>
        rw [hv'] at hstep
        exact hstep.elim
      | ok t' =>
        rw [hv'] at hstep
        dsimp only
        rw [hnext hstep]
        cases G'.next n t' with
        | none => exact hstep
        | some n' => exact run_congr G G' hvisit hnext fuel (by simp [hpast]) hstep

/-- The last visit of a run is the visit of an ending node `n₀`, which decided its outcome. -/
def EndsAt (n₀ : ν) (r : Result ν σ ε) (past : List (ν × σ)) (s : σ) : Prop :=
  r = ⟨(n₀, s) :: past, some (G.visit past n₀ s)⟩

theorem run_endsAt [DecidableEq ν] {n₀ : ν} (hend : ∀ s, G.next n₀ s = none) (fuel : ℕ)
    (past : List (ν × σ)) (s : σ) : G.EndsAt n₀ (G.run (fuel + 1) past n₀ s) past s := by
  rw [EndsAt, run]
  cases hv : G.visit past n₀ s with
  | error e => rfl
  | ok s' =>
    dsimp only
    rw [hend]

/-- **Graphs that differ at an ending node alone** end there after the same visits, or make the same
run, which does not. -/
theorem run_agree [DecidableEq ν] (G G' : Graph ν σ ε) {n₀ : ν} (hnext : G'.next = G.next)
    (hend : ∀ s, G.next n₀ s = none)
    (hvisit : ∀ past n s, n ≠ n₀ → G'.visit past n s = G.visit past n s) :
    ∀ fuel {past : List (ν × σ)} {n : ν} {s : σ},
      (∃ past' s', G.EndsAt n₀ (G.run fuel past n s) past' s' ∧
        G'.EndsAt n₀ (G'.run fuel past n s) past' s') ∨
      (G'.run fuel past n s = G.run fuel past n s ∧
        ∀ s' past', (G.run fuel past n s).visits = (n₀, s') :: past' → (n₀, s') :: past' = past)
  | 0, past, n, s => .inr ⟨rfl, fun _ _ h => h.symm⟩
  | fuel + 1, past, n, s => by
    by_cases hn : n = n₀
    · subst hn
      have hend' : ∀ s, G'.next n s = none := fun s => by rw [hnext, hend]
      exact .inl ⟨past, s, run_endsAt hend fuel past s, run_endsAt hend' fuel past s⟩
    · have hhead : ∀ s' past', (n, s) :: past = (n₀, s') :: past' → (n₀, s') :: past' = past :=
        fun s' past' h => absurd (Prod.mk.inj (List.cons.inj h).1).1 hn
      rw [run, run, hvisit past n s hn, hnext]
      cases G.visit past n s with
      | error e => exact .inr ⟨rfl, hhead⟩
      | ok t =>
        dsimp only
        cases G.next n t with
        | none => exact .inr ⟨rfl, hhead⟩
        | some n' =>
          rcases @run_agree _ G G' _ hnext hend hvisit fuel ((n, s) :: past) n' t
            with h | ⟨hsame, hlast⟩
          · exact .inl h
          · exact .inr ⟨hsame, fun s' past' h => hhead s' past' (hlast s' past' h).symm⟩

end Graph

end Meridian.Workflow
