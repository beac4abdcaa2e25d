import Meridian.Interleave.Run

/-!
# Locks

A `Lock` says which statements of a machine take a lock and release it, and how the world keeps it. A
taking statement waits while it is taken. Whether a caller holds it is read off the caller's own log
(`holding`), and the one rule the callers keep is that only a holder releases.

* `Run.exclusive`: the lock is taken exactly while somebody holds it, and by one caller at a time.
* `Run.mine`: what only a holder changes stays, for the holder, as the holder left it.
* `Run.resource`: an invariant that holds while the lock is free becomes the holder's own assertion,
  and the holder gives it back.
-/

namespace Meridian.Interleave

open Prog

/-- A lock of a machine. -/
structure Lock (M : Machine) where
  acquires : M.Stmt → Bool
  releases : M.Stmt → Bool
  locked : M.World → Bool
  acquire_exec : ∀ {s w r w'}, acquires s = true → M.exec s w = some (r, w') →
    locked w = false ∧ locked w' = true
  release_exec : ∀ {s w r w'}, acquires s = false → releases s = true →
    M.exec s w = some (r, w') → locked w' = false
  other_exec : ∀ {s w r w'}, acquires s = false → releases s = false →
    M.exec s w = some (r, w') → locked w' = locked w
  env_locked : ∀ e w, locked (M.env e w) = locked w

namespace Lock

variable {M : Machine} (L : Lock M)

/-- The caller has taken the lock and not released it since. -/
def holding : Log M → Bool
  | [] => false
  | ⟨s, _⟩ :: l => if L.acquires s then true else if L.releases s then false else holding l

variable {L} {s : M.Stmt} {r : M.Res s} {l : Log M}

theorem holding_acquire (h : L.acquires s = true) : L.holding (⟨s, r⟩ :: l) = true := by
  simp [holding, h]

theorem holding_release (ha : L.acquires s = false) (h : L.releases s = true) :
    L.holding (⟨s, r⟩ :: l) = false := by
  simp [holding, ha, h]

theorem holding_other (ha : L.acquires s = false) (h : L.releases s = false) :
    L.holding (⟨s, r⟩ :: l) = L.holding l := by
  simp [holding, ha, h]

/-- A caller that holds the lock after a statement that does not take it held it before. -/
theorem holding_before (ha : L.acquires s = false) (h : L.holding (⟨s, r⟩ :: l) = true) :
    L.releases s = false ∧ L.holding l = true := by
  by_cases hr : L.releases s = true
  · rw [holding_release ha hr] at h
    cases h
  · rw [Bool.not_eq_true] at hr
    exact ⟨hr, by rwa [holding_other ha hr] at h⟩

/-- The lock is taken while somebody holds it, and one caller holds it. -/
structure Exclusive {ι : Type} [DecidableEq ι] (L : Lock M) (tr : List (Entry M ι)) (w : M.World) :
    Prop where
  locked : ∀ i, L.holding (own i tr) = true → L.locked w = true
  held : L.locked w = true → ∃ i, L.holding (own i tr) = true
  unique : ∀ i j, L.holding (own i tr) = true → L.holding (own j tr) = true → i = j

end Lock

section Runs

variable {M : Machine} {α ι : Type} [DecidableEq ι] {L : Lock M} {φ : ι → Log M → M.Stmt → Prop}
  {Q : ι → Log M → α → Prop} {c₀ c : Config M ι α} {tr : List (Entry M ι)}

/-- One statement keeps the lock with one holder. -/
theorem Lock.Exclusive.step {i : ι} {s : M.Stmt} {r : M.Res s} {w w' : M.World}
    (hI : L.Exclusive tr w) (hrel : L.releases s = true → L.holding (own i tr) = true)
    (hx : M.exec s w = some (r, w')) : L.Exclusive (.call i s r w w' :: tr) w' := by
  by_cases ha : L.acquires s = true
  · -- nobody held the lock
    obtain ⟨hfree, htaken⟩ := L.acquire_exec ha hx
    have hnone : ∀ j, L.holding (own j tr) = false := by
      intro j
      rw [Bool.eq_false_iff]
      intro hj
      rw [hI.locked j hj] at hfree
      cases hfree
    have hself : L.holding (own i (.call i s r w w' :: tr)) = true := by
      rw [own_call_self, Lock.holding_acquire ha]
    have hother : ∀ j, L.holding (own j (.call i s r w w' :: tr)) = true → j = i := by
      intro j hj
      by_contra hne
      rw [own_call_ne (Ne.symm hne), hnone j] at hj
      cases hj
    exact ⟨fun _ _ => htaken, fun _ => ⟨i, hself⟩, fun j k hj hk => (hother j hj).trans
      (hother k hk).symm⟩
  · rw [Bool.not_eq_true] at ha
    by_cases hr : L.releases s = true
    · -- the holder was `i`
      have hfree := L.release_exec ha hr hx
      have hnone : ∀ j, L.holding (own j (.call i s r w w' :: tr)) = false := by
        intro j
        by_cases hj : i = j
        · subst hj
          rw [own_call_self, Lock.holding_release ha hr]
        · rw [own_call_ne hj, Bool.eq_false_iff]
          exact fun hheld => hj (hI.unique i j (hrel hr) hheld)
      refine ⟨fun j hj => ?_, fun h => ?_, fun j k hj _ => ?_⟩
      · rw [hnone j] at hj
        cases hj
      · rw [hfree] at h
        cases h
      · rw [hnone j] at hj
        cases hj
    · rw [Bool.not_eq_true] at hr
      have hsame : ∀ j, L.holding (own j (.call i s r w w' :: tr)) = L.holding (own j tr) := by
        intro j
        by_cases hj : i = j
        · subst hj
          rw [own_call_self, Lock.holding_other ha hr]
        · rw [own_call_ne hj]
      have hlocked := L.other_exec ha hr hx
      refine ⟨fun j hj => ?_, fun h => ?_, fun j k hj hk => ?_⟩
      · rw [hlocked]
        exact hI.locked j (hsame j ▸ hj)
      · obtain ⟨j, hj⟩ := hI.held (hlocked ▸ h)
        exact ⟨j, (hsame j).trans hj⟩
      · exact hI.unique j k (hsame j ▸ hj) (hsame k ▸ hk)

/-- **Mutual exclusion.** -/
theorem Run.exclusive (hφ : ∀ i, Obeys (φ i) (Q i) [] (c₀.procs i))
    (hrel : ∀ i l s, φ i l s → L.releases s = true → L.holding l = true)
    (h0 : L.locked c₀.world = false) (h : Run c₀ tr c) : L.Exclusive tr c.world := by
  refine Run.invariant (C := fun _ _ => True) (I := fun tr w => L.Exclusive tr w) hφ ?_ ?_ ?_ h
    (along_true tr)
  · refine ⟨fun i hi => ?_, fun hl => ?_, fun i j hi => ?_⟩
    · cases hi
    · rw [h0] at hl
      cases hl
    · cases hi
  · intro tr c i s r w _ hI hs hx _
    exact hI.step (hrel i _ s hs) hx
  · intro tr c e _ hI _
    exact ⟨fun i hi => by rw [L.env_locked]; exact hI.locked i hi,
      fun hl => hI.held (L.env_locked e c.world ▸ hl), hI.unique⟩

/-- **What only a holder changes** is, for the holder, what its own statements made of it since it
took the lock. -/
theorem Run.mine {V : Type} {v : M.World → V} {P : Log M → V → Prop}
    (hφ : ∀ i, Obeys (φ i) (Q i) [] (c₀.procs i))
    (hrel : ∀ i l s, φ i l s → L.releases s = true → L.holding l = true)
    (h0 : L.locked c₀.world = false)
    (hacquire : ∀ l s r w w', L.acquires s = true → M.exec s w = some (r, w') →
      P (⟨s, r⟩ :: l) (v w'))
    (hown : ∀ i l s r w w', L.acquires s = false → L.holding l = true → φ i l s → P l (v w) →
      M.exec s w = some (r, w') → P (⟨s, r⟩ :: l) (v w'))
    (hother : ∀ i l s r w w', L.acquires s = false → L.holding l = false → φ i l s →
      M.exec s w = some (r, w') → v w' = v w)
    (henv : ∀ e w, v (M.env e w) = v w) (h : Run c₀ tr c) {i : ι}
    (hi : L.holding (own i tr) = true) : P (own i tr) (v c.world) := by
  refine Run.invariant (C := fun _ _ => True)
    (I := fun tr w => ∀ i, L.holding (own i tr) = true → P (own i tr) (v w)) hφ ?_ ?_ ?_ h
    (along_true tr) i hi
  · intro i hi
    cases hi
  · intro tr c j s r w hrun hI hs hx _ i hi
    have hex := hrun.exclusive hφ hrel h0
    by_cases ha : L.acquires s = true
    · by_cases hij : j = i
      · subst hij
        rw [own_call_self]
        exact hacquire _ s r _ w ha hx
      · -- `j` cannot take what `i` holds
        rw [own_call_ne hij] at hi
        have hfree := (L.acquire_exec ha hx).1
        rw [hex.locked i hi] at hfree
        cases hfree
    · rw [Bool.not_eq_true] at ha
      by_cases hij : j = i
      · subst hij
        rw [own_call_self] at hi ⊢
        have hheld := (Lock.holding_before ha hi).2
        exact hown j _ s r _ w ha hheld hs (hI j hheld) hx
      · rw [own_call_ne hij] at hi ⊢
        have hnot : L.holding (own j tr) = false := by
          rw [Bool.eq_false_iff]
          exact fun hj => hij (hex.unique j i hj hi)
        rw [hother j _ s r _ w ha hnot hs hx]
        exact hI i hi
  · intro tr c e _ hI _ i hi
    rw [henv]
    exact hI i hi

/-- **What a lock protects**: `free` holds while the lock is free; whoever takes the lock has `held`
of its own log instead, keeps it by its own statements, and turns it into `free` when it releases.
Nobody else, and no move of the environment, breaks either. -/
structure Lock.Resource (ι : Type) [DecidableEq ι] (L : Lock M) (φ : ι → Log M → M.Stmt → Prop) where
  free : List (Entry M ι) → M.World → Prop
  held : Log M → List (Entry M ι) → M.World → Prop
  acquire : ∀ {i l s r w w' tr}, L.acquires s = true → M.exec s w = some (r, w') → free tr w →
    held (⟨s, r⟩ :: l) (.call i s r w w' :: tr) w'
  release : ∀ {i l s r w w' tr}, L.acquires s = false → L.releases s = true → φ i l s →
    M.exec s w = some (r, w') → held l tr w → free (.call i s r w w' :: tr) w'
  hold : ∀ {i l s r w w' tr}, L.acquires s = false → L.releases s = false → φ i l s →
    M.exec s w = some (r, w') → held l tr w → held (⟨s, r⟩ :: l) (.call i s r w w' :: tr) w'
  other : ∀ {i l s r w w' tr}, L.acquires s = false → L.releases s = false →
    L.holding l = false → φ i l s → M.exec s w = some (r, w') →
    (free tr w → free (.call i s r w w' :: tr) w') ∧
      ∀ l', held l' tr w → held l' (.call i s r w w' :: tr) w'
  env : ∀ {v w tr}, (free tr w → free (.env v w (M.env v w) :: tr) (M.env v w)) ∧
    ∀ l, held l tr w → held l (.env v w (M.env v w) :: tr) (M.env v w)

/-- The protected assertion, with its holder or free. -/
structure Lock.Resource.Protected (R : L.Resource ι φ) (tr : List (Entry M ι)) (w : M.World) :
    Prop where
  free : L.locked w = false → R.free tr w
  held : ∀ i, L.holding (own i tr) = true → R.held (own i tr) tr w

theorem Run.resource (R : L.Resource ι φ) (hφ : ∀ i, Obeys (φ i) (Q i) [] (c₀.procs i))
    (hrel : ∀ i l s, φ i l s → L.releases s = true → L.holding l = true)
    (h0 : L.locked c₀.world = false) (hfree : R.free [] c₀.world) (h : Run c₀ tr c) :
    R.Protected tr c.world := by
  refine Run.invariant (C := fun _ _ => True) (I := fun tr w => R.Protected tr w) hφ
    ⟨fun _ => hfree, fun i hi => ?_⟩ ?_ ?_ h (along_true tr)
  · cases hi
  · intro tr c j s r w hrun hI hs hx _
    have hex := hrun.exclusive hφ hrel h0
    by_cases ha : L.acquires s = true
    · -- the lock was free, and is `j`'s now
      obtain ⟨hwas, his⟩ := L.acquire_exec ha hx
      refine ⟨fun hl => ?_, fun i hi => ?_⟩
      · rw [hl] at his
        cases his
      · by_cases hij : j = i
        · subst hij
          rw [own_call_self]
          exact R.acquire ha hx (hI.free hwas)
        · rw [own_call_ne hij] at hi
          rw [hex.locked i hi] at hwas
          cases hwas
    rw [Bool.not_eq_true] at ha
    by_cases hr : L.releases s = true
    · -- the lock was `j`'s, and is free now
      have hheld := hrel j _ s hs hr
      refine ⟨fun _ => R.release ha hr hs hx (hI.held j hheld), fun i hi => ?_⟩
      by_cases hij : j = i
      · subst hij
        rw [own_call_self, Lock.holding_release ha hr] at hi
        cases hi
      · rw [own_call_ne hij] at hi
        exact absurd (hex.unique j i hheld hi) hij
    rw [Bool.not_eq_true] at hr
    have hlocked := L.other_exec ha hr hx
    by_cases hj : L.holding (own j tr) = true
    · -- the holder goes on
      refine ⟨fun hl => ?_, fun i hi => ?_⟩
      · rw [hlocked, hex.locked j hj] at hl
        cases hl
      · by_cases hij : j = i
        · subst hij
          rw [own_call_self]
          exact R.hold ha hr hs hx (hI.held j hj)
        · rw [own_call_ne hij] at hi
          exact absurd (hex.unique j i hj hi) hij
    · rw [Bool.not_eq_true] at hj
      obtain ⟨hfree, hkeep⟩ := R.other ha hr hj hs hx
      refine ⟨fun hl => hfree (hI.free (hlocked ▸ hl)), fun i hi => ?_⟩
      by_cases hij : j = i
      · subst hij
        rw [own_call_self, Lock.holding_other ha hr, hj] at hi
        cases hi
      · rw [own_call_ne hij] at hi ⊢
        exact hkeep _ (hI.held i hi)
  · intro tr c e _ hI _
    exact ⟨fun hl => R.env.1 (hI.free (L.env_locked e c.world ▸ hl)),
      fun i hi => R.env.2 _ (hI.held i hi)⟩

end Runs

end Meridian.Interleave
