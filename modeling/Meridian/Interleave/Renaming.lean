import Meridian.Interleave.Run

/-!
# Renaming a value throughout a run

A `Renaming` changes worlds, statements, answers and moves of the environment so that every step stays
a step. Two programs are `Renamed` into one another when they issue renamed statements and go on alike
under renamed answers; what they return is compared by a relation of its own.

* `renamed_bind`, `Prog.Renamed.mono`: the rules.
* `Run.renamed`: the renamed history of a run is a run of the renamed programs. With equality for what
  they return, a value that is renamed cannot be told from the results.
-/

namespace Meridian.Interleave

open Prog

/-- A change of worlds, statements, answers and moves under which steps stay steps. -/
structure Renaming (M : Machine) where
  world : M.World → M.World
  stmt : M.Stmt → M.Stmt
  res : (s : M.Stmt) → M.Res s → M.Res (stmt s)
  env : M.Env → M.Env
  exec_eq : ∀ {s w r w'}, M.exec s w = some (r, w') →
    M.exec (stmt s) (world w) = some (res s r, world w')
  env_eq : ∀ e w, M.env (env e) (world w) = world (M.env e w)

variable {M : Machine} {α β γ δ ι : Type}

/-- The second program does what the first does, renamed, and what they return is related. -/
def Prog.Renamed (ρ : Renaming M) (A : α → β → Prop) : Prog M α → Prog M β → Prop
  | ret a, p => ∃ b, p = ret b ∧ A a b
  | stmt s k, p => ∃ k', p = stmt (ρ.stmt s) k' ∧ ∀ r, Renamed ρ A (k r) (k' (ρ.res s r))

section Rules

variable {ρ : Renaming M} {A A' : α → β → Prop} {B : γ → δ → Prop}

theorem renamed_ret {a : α} {b : β} (h : A a b) : Renamed ρ A (ret a) (ret b) := ⟨b, rfl, h⟩

theorem renamed_stmt {s : M.Stmt} {k : M.Res s → Prog M α} {k' : M.Res (ρ.stmt s) → Prog M β}
    (h : ∀ r, Renamed ρ A (k r) (k' (ρ.res s r))) :
    Renamed ρ A (stmt s k) (stmt (ρ.stmt s) k') :=
  ⟨k', rfl, h⟩

/-- Sequencing: the second parts are renamed from related values on. -/
theorem renamed_bind {p : Prog M α} {p' : Prog M β} {f : α → Prog M γ} {f' : β → Prog M δ}
    (hp : Renamed ρ A p p') (hf : ∀ a b, A a b → Renamed ρ B (f a) (f' b)) :
    Renamed ρ B (p >>= f) (p' >>= f') := by
  induction p generalizing p' with
  | ret a =>
    obtain ⟨b, rfl, hab⟩ := hp
    exact hf a b hab
  | stmt s k ih =>
    obtain ⟨k', rfl, hk⟩ := hp
    exact renamed_stmt fun r => ih r (hk r)

theorem Prog.Renamed.mono {p : Prog M α} {p' : Prog M β} (h : Renamed ρ A p p')
    (hA : ∀ a b, A a b → A' a b) : Renamed ρ A' p p' := by
  induction p generalizing p' with
  | ret a =>
    obtain ⟨b, rfl, hab⟩ := h
    exact renamed_ret (hA a b hab)
  | stmt s k ih =>
    obtain ⟨k', rfl, hk⟩ := h
    exact renamed_stmt fun r => ih r (hk r)

/-- With equality for what they return, the two programs have returned the same. -/
theorem Prog.Renamed.result_eq {p p' : Prog M α} (h : Renamed ρ Eq p p') : p'.result = p.result := by
  cases p with
  | ret a =>
    obtain ⟨b, rfl, rfl⟩ := h
    rfl
  | stmt s k =>
    obtain ⟨k', rfl, -⟩ := h
    rfl

end Rules

/-- The renamed step. -/
def Renaming.entry (ρ : Renaming M) : Entry M ι → Entry M ι
  | .call i s r w w' => .call i (ρ.stmt s) (ρ.res s r) (ρ.world w) (ρ.world w')
  | .env e w w' => .env (ρ.env e) (ρ.world w) (ρ.world w')

variable [DecidableEq ι] {ρ : Renaming M} {A : α → β → Prop} {c₀ c : Config M ι α}
  {c₀' : Config M ι β} {tr : List (Entry M ι)}

/-- **A run can be renamed**: the renamed history is a run of the renamed programs, and they are
renamed at its end. -/
theorem Run.renamed (h : Run c₀ tr c) (hworld : c₀'.world = ρ.world c₀.world)
    (hprocs : ∀ i, Renamed ρ A (c₀.procs i) (c₀'.procs i)) :
    ∃ c', Run c₀' (tr.map ρ.entry) c' ∧ c'.world = ρ.world c.world ∧
      ∀ i, Renamed ρ A (c.procs i) (c'.procs i) := by
  induction h with
  | nil => exact ⟨c₀', .nil, hworld, hprocs⟩
  | @cons tr c e c₁ h hs ih =>
    obtain ⟨c', hrun, hw, hp⟩ := ih
    cases hs with
    | env e =>
      refine ⟨⟨M.env (ρ.env e) c'.world, c'.procs⟩, ?_, ?_, hp⟩
      · rw [List.map_cons, Renaming.entry, ← hw, ← ρ.env_eq, ← hw]
        exact hrun.cons (.env (ρ.env e))
      · show M.env (ρ.env e) c'.world = ρ.world (M.env e c.world)
        rw [hw, ρ.env_eq]
    | @call i s k r w hi hx =>
      have hstmt := hp i
      rw [hi] at hstmt
      obtain ⟨k', hk', hnext⟩ := hstmt
      have hexec := ρ.exec_eq hx
      rw [← hw] at hexec
      refine ⟨c'.advance i (k' (ρ.res s r)) (ρ.world w), ?_, rfl, fun j => ?_⟩
      · rw [List.map_cons, Renaming.entry, ← hw]
        exact hrun.cons (.call hk' hexec)
      · by_cases hij : j = i
        · subst hij
          rw [advance_self, advance_self]
          exact hnext r
        · rw [advance_ne hij, advance_ne hij]
          exact hp j

end Meridian.Interleave
