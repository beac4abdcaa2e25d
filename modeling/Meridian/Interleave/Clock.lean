import Mathlib.Algebra.Order.Field.Rat
import Mathlib.Tactic.Linarith
import Meridian.Interleave.Run

/-!
# Machines with a clock

A clock is a reading of the world that no step lowers.

* `Run.clock_le`, `Run.clock_mem`: so a history's steps are between the readings at its two ends.
* `times` is when the steps of a kind happened. Where they are kept a time `d` apart, a part of a run
  that takes a time `t` has at most `1 + t / d` of them (`Run.rate`).
-/

namespace Meridian.Interleave

/-- A reading of the world that no step lowers. -/
structure Clock (M : Machine) where
  read : M.World → ℚ
  exec_le : ∀ {s w r w'}, M.exec s w = some (r, w') → read w ≤ read w'
  env_le : ∀ e w, read w ≤ read (M.env e w)

variable {M : Machine} {ι α : Type} [DecidableEq ι] {T : Clock M} {c₀ c₁ c c' : Config M ι α}
  {tr tr₁ tr₂ : List (Entry M ι)} {e : Entry M ι}

theorem Step.clock_le (h : Step c e c') : T.read c.world ≤ T.read c'.world := by
  cases h with
  | call hi hx => exact T.exec_le hx
  | env v => exact T.env_le v _

theorem Run.clock_le (h : Run c₀ tr c) : T.read c₀.world ≤ T.read c.world := by
  induction h with
  | nil => exact le_rfl
  | cons _ hs ih => exact ih.trans hs.clock_le

/-- A step of a run is between its ends. -/
theorem Run.clock_mem (h : Run c₀ tr c) (he : e ∈ tr) :
    T.read c₀.world ≤ T.read e.pre ∧ T.read e.pre ≤ T.read c.world := by
  induction h with
  | nil => cases he
  | @cons tr c e' c' h hs ih =>
    rcases List.mem_cons.mp he with rfl | he
    · rw [hs.pre_eq]
      exact ⟨h.clock_le, hs.clock_le⟩
    · exact ⟨(ih he).1, (ih he).2.trans hs.clock_le⟩

/-- When the steps of a kind happened, newest first. -/
def times (T : Clock M) (p : Entry M ι → Bool) (tr : List (Entry M ι)) : List ℚ :=
  (tr.filter p).map fun e => T.read e.pre

section Times

variable {p : Entry M ι → Bool}

omit [DecidableEq ι]

@[simp] theorem times_nil : times T p [] = [] := rfl

theorem times_cons_pos (h : p e = true) : times T p (e :: tr) = T.read e.pre :: times T p tr := by
  rw [times, List.filter_cons_of_pos h, List.map_cons, times]

theorem times_cons_neg (h : p e = false) : times T p (e :: tr) = times T p tr := by
  rw [times, List.filter_cons_of_neg (by simp [h]), times]

theorem times_append : times T p (tr₂ ++ tr₁) = times T p tr₂ ++ times T p tr₁ := by
  rw [times, List.filter_append, List.map_append, times, times]

end Times

theorem Run.times_mem {p : Entry M ι → Bool} (h : Run c₀ tr c) {t : ℚ} (ht : t ∈ times T p tr) :
    T.read c₀.world ≤ t ∧ t ≤ T.read c.world := by
  obtain ⟨e, he, rfl⟩ := List.mem_map.mp ht
  exact h.clock_mem (List.mem_filter.mp he).1

/-- Times a distance apart between two others, newest first. -/
theorem length_le_of_apart {d lo : ℚ} (hd : 0 < d) : ∀ {l : List ℚ} {hi : ℚ}, lo ≤ hi →
    l.Pairwise (fun b a => a + d ≤ b) → (∀ x ∈ l, lo ≤ x ∧ x ≤ hi) →
    (l.length : ℚ) ≤ 1 + (hi - lo) / d
  | [], hi, hle, _, _ => by
    have hpos := div_nonneg (sub_nonneg.mpr hle) hd.le
    simp only [List.length_nil, Nat.cast_zero]
    linarith
  | b :: l, hi, _, hl, hb => by
    obtain ⟨hfirst, hl⟩ := List.pairwise_cons.mp hl
    obtain ⟨hlo, hhi⟩ := hb b List.mem_cons_self
    by_cases hroom : lo ≤ b - d
    · have ih := length_le_of_apart hd hroom hl fun x hx =>
        ⟨(hb x (List.mem_cons_of_mem _ hx)).1, le_sub_iff_add_le.mpr (hfirst x hx)⟩
      have hsplit : (b - d - lo) / d = (b - lo) / d - 1 := by
        rw [sub_right_comm, sub_div, div_self hd.ne']
      have hlast : (b - lo) / d ≤ (hi - lo) / d :=
        div_le_div_of_nonneg_right (sub_le_sub_right hhi lo) hd.le
      rw [hsplit] at ih
      rw [List.length_cons, Nat.cast_succ]
      linarith
    · -- there is no room for another
      have hnone : l = [] := by
        refine List.eq_nil_iff_forall_not_mem.mpr fun x hx => hroom ?_
        exact (hb x (List.mem_cons_of_mem _ hx)).1.trans (le_sub_iff_add_le.mpr (hfirst x hx))
      have hpos := div_nonneg (sub_nonneg.mpr (hlo.trans hhi)) hd.le
      rw [hnone, List.length_singleton, Nat.cast_one]
      linarith

/-- **Steps kept apart have a rate**: in any part of a run there are at most one more than the times
the distance fits into what it takes. -/
theorem Run.rate {p : Entry M ι → Bool} {d : ℚ} (hd : 0 < d) (h₂ : Run c₁ tr₂ c)
    (hapart : (times T p (tr₂ ++ tr₁)).Pairwise fun b a => a + d ≤ b) :
    ((tr₂.filter p).length : ℚ) ≤ 1 + (T.read c.world - T.read c₁.world) / d := by
  rw [times_append, List.pairwise_append] at hapart
  have hlength := length_le_of_apart hd h₂.clock_le hapart.1 fun t ht => h₂.times_mem ht
  rwa [times, List.length_map] at hlength

end Meridian.Interleave
