import Mathlib.Algebra.Order.Field.Basic
import Mathlib.Data.Prod.Lex
import Mathlib.Data.Real.Basic
import Mathlib.Data.List.Dedup
import Mathlib.Data.List.Pairwise
import Mathlib.Tactic.Linarith
import Meridian.Grouping.Adjacent

/-!
# The retrieval threshold

`threshold_errors` and `calibrate_threshold` of the evaluation harness. Scores are exact rationals,
and `next` is `math.nextafter(x, math.inf)`, of which `x < next x` is all that is used.

The errors of a cutoff depend only on which scores lie below it (`errors_congr`), and the scores
below a cutoff are the scores below some candidate (`exists_candidate`): one midpoint for each pair
of neighbouring scores, the least score, and a value above the greatest.

* `calibrate_le`: no real cutoff makes fewer errors than the calibrated one.
* `calibrate_widest`: when a cutoff between neighbouring scores makes as few, the calibrated one is
  the midpoint of a widest such gap.
-/

namespace Meridian.Rag

open Grouping Python

/-- Answerable scores below a cutoff, and unanswerable scores at or above it. -/
def thresholdErrors (ans una : List ℚ) (t : ℚ) : ℕ × ℕ := (ans.countP (· < t), una.countP (t ≤ ·))

/-- `errors` of the calibration, for cutoffs of any ordered type. -/
def errors {K : Type} [LinearOrder K] (ans una : List K) (t : K) : ℕ :=
  ans.countP (· < t) + una.countP (t ≤ ·)

/-- The errors of a real cutoff. -/
noncomputable def realErrors (ans una : List ℚ) (r : ℝ) : ℕ :=
  errors (ans.map fun s : ℚ => (s : ℝ)) (una.map fun s : ℚ => (s : ℝ)) r

/-- `sorted(set(scores))` -/
def points (ans una : List ℚ) : List ℚ := sortBy id (ans ++ una).dedup

/-- The pairs of neighbouring scores. -/
def gapsOf (ps : List ℚ) : List (ℚ × ℚ) := ps.zip ps.tail

/-- The midpoint of a gap, with the gap's width. -/
def midpoint (x : ℚ × ℚ) : ℚ × ℚ := ((x.1 + x.2) / 2, x.2 - x.1)

section Calibration

variable (next : ℚ → ℚ) (ans una : List ℚ)

/-- The cutoffs that are tried, with the gap they lie in. -/
def cutoffs (ps : List ℚ) : List (ℚ × ℚ) :=
  (gapsOf ps).map midpoint ++ [(ps.headD 0, 0), (next (ps.getLastD 0), 0)]

/-- What the least cutoff is chosen by: few errors, then a wide gap. -/
def cutoffKey (c : ℚ × ℚ) : ℕ ×ₗ ℚ := toLex (errors ans una c.1, -c.2)

/-- `calibrate_threshold` -/
def calibrateThreshold : ℚ :=
  if (points ans una).length < 2 then 0
  else ((minBy (cutoffKey ans una) (cutoffs next (points ans una))).map Prod.fst).getD 0

end Calibration

variable {next : ℚ → ℚ} {ans una ps : List ℚ} {t : ℚ} {r : ℝ}

theorem thresholdErrors_sum (ans una : List ℚ) (t : ℚ) :
    (thresholdErrors ans una t).1 + (thresholdErrors ans una t).2 = errors ans una t := rfl

/-- **The errors of a cutoff** depend on the scores below it. -/
theorem errors_congr (h : ∀ s ∈ ans ++ una, s < t ↔ (s : ℝ) < r) :
    errors ans una t = realErrors ans una r := by
  unfold realErrors errors
  rw [List.countP_map, List.countP_map]
  congr 1
  · refine List.countP_congr fun s hs => ?_
    simpa using h s (List.mem_append_left una hs)
  · refine List.countP_congr fun s hs => ?_
    have := not_congr (h s (List.mem_append_right ans hs))
    simpa using this

theorem mem_points {s : ℚ} : s ∈ points ans una ↔ s ∈ ans ++ una := by
  rw [points, (sortBy_perm id _).mem_iff, List.mem_dedup]

theorem points_strict (ans una : List ℚ) : (points ans una).Pairwise (· < ·) :=
  sortBy_strict (List.nodup_dedup _) fun _ _ _ _ h => h

/-- Between a score of a part and one outside it, the part ends somewhere. -/
theorem exists_boundary {below : ℚ → Prop} {p q : ℚ} {ps : List ℚ} (hp : below p)
    (hq : q ∈ p :: ps) (hnot : ¬ below q) :
    ∃ x ∈ gapsOf (p :: ps), below x.1 ∧ ¬ below x.2 := by
  induction ps generalizing p with
  | nil =>
    rw [List.mem_singleton.mp hq] at hnot
    exact absurd hp hnot
  | cons b ps ih =>
    by_cases hb : below b
    · have hq' : q ∈ b :: ps := by
        rcases List.mem_cons.mp hq with rfl | hq
        · exact absurd hp hnot
        · exact hq
      obtain ⟨x, hx, hbelow⟩ := ih hb hq'
      exact ⟨x, List.mem_cons_of_mem _ hx, hbelow⟩
    · exact ⟨(p, b), List.mem_cons_self, hp, hb⟩

/-- Nothing lies strictly inside a gap. -/
theorem outside_gap (hps : ps.Pairwise (· < ·)) {x : ℚ × ℚ} (hx : x ∈ gapsOf ps) {s : ℚ}
    (hs : s ∈ ps) : s ≤ x.1 ∨ x.2 ≤ s := by
  have hstrict : ps.Pairwise fun a b => id a < id b := hps
  by_contra! h
  obtain ⟨-, -, -, hnone⟩ := (mem_zip_tail_iff hstrict).mp hx
  exact hnone s hs h

theorem lt_of_gap (hps : ps.Pairwise (· < ·)) {x : ℚ × ℚ} (hx : x ∈ gapsOf ps) : x.1 < x.2 :=
  rel_of_mem_zip_tail hps hx

/-- What lies below a cutoff inside a gap is what lies below the gap. -/
theorem lt_inside_iff {K : Type} [LinearOrder K] {f : ℚ → K} (hf : StrictMono f)
    (hps : ps.Pairwise (· < ·)) {x : ℚ × ℚ} (hx : x ∈ gapsOf ps) {t : K} (hlo : f x.1 < t)
    (hhi : t ≤ f x.2) {s : ℚ} (hs : s ∈ ps) : f s < t ↔ s ≤ x.1 := by
  refine ⟨fun h => ?_, fun h => (hf.monotone h).trans_lt hlo⟩
  rcases outside_gap hps hx hs with hle | hge
  · exact hle
  · exact absurd (h.trans_le hhi) (hf.monotone hge).not_gt

theorem lt_midpoint_iff (hps : ps.Pairwise (· < ·)) {x : ℚ × ℚ} (hx : x ∈ gapsOf ps) {s : ℚ}
    (hs : s ∈ ps) : s < (midpoint x).1 ↔ s ≤ x.1 := by
  have hlt := lt_of_gap hps hx
  refine lt_inside_iff (f := id) strictMono_id hps hx ?_ ?_ hs
  · simp only [midpoint, id]
    linarith
  · simp only [midpoint, id]
    linarith

/-- **One candidate for each region**: whatever part of the scores, closed downwards, is to lie
below, some candidate has that part below it. -/
theorem exists_candidate (hnext : ∀ x, x < next x) (hps : ps.Pairwise (· < ·)) (hne : ps ≠ [])
    {below : ℚ → Prop} (hlow : ∀ s s', s' ≤ s → below s → below s') :
    ∃ c ∈ cutoffs next ps, ∀ s ∈ ps, s < c.1 ↔ below s := by
  obtain ⟨p, rest, rfl⟩ := List.exists_cons_of_ne_nil hne
  have hleast : ∀ s ∈ p :: rest, p ≤ s := fun s hs => by
    rcases List.mem_cons.mp hs with rfl | hs
    · exact le_rfl
    · exact ((List.pairwise_cons.mp hps).1 s hs).le
  by_cases hp : below p
  · by_cases hall : ∀ s ∈ p :: rest, below s
    · -- everything: a value above the greatest score
      refine ⟨(next ((p :: rest).getLastD 0), 0), by simp [cutoffs], fun s hs => ?_⟩
      refine iff_of_true ?_ (hall s hs)
      have hlast : (p :: rest).getLastD 0 = (p :: rest).getLast hne := by
        rw [List.getLastD_eq_getLast?, List.getLast?_eq_getLast_of_ne_nil hne, Option.getD_some]
      rw [hlast]
      have hle : (p :: rest).Pairwise (· ≤ ·) := hps.imp fun h => h.le
      exact (hle.rel_getLast hs).trans_lt (hnext _)
    · push Not at hall
      obtain ⟨q, hq, hnot⟩ := hall
      obtain ⟨x, hx, hx1, hx2⟩ := exists_boundary hp hq hnot
      refine ⟨midpoint x, List.mem_append_left _ (List.mem_map_of_mem hx), fun s hs => ?_⟩
      rw [lt_midpoint_iff hps hx hs]
      refine ⟨fun h => hlow _ _ h hx1, fun h => ?_⟩
      rcases outside_gap hps hx hs with hle | hge
      · exact hle
      · exact absurd (hlow _ _ hge h) hx2
  · -- nothing: the least score itself
    refine ⟨(p, 0), by simp [cutoffs], fun s hs => ?_⟩
    exact iff_of_false (hleast s hs).not_gt fun h => hp (hlow _ _ (hleast s hs) h)

/-- The calibrated cutoff is the best candidate. -/
theorem calibrate_spec (next : ℚ → ℚ) (h : 2 ≤ (points ans una).length) :
    ∃ c ∈ cutoffs next (points ans una), calibrateThreshold next ans una = c.1 ∧
      ∀ d ∈ cutoffs next (points ans una), cutoffKey ans una c ≤ cutoffKey ans una d := by
  have hsome : (minBy (cutoffKey ans una) (cutoffs next (points ans una))).isSome := by
    rw [Option.isSome_iff_ne_none, Ne, minBy_eq_none]
    simp [cutoffs]
  obtain ⟨c, hc⟩ := Option.isSome_iff_exists.mp hsome
  refine ⟨c, minBy_mem hc, ?_, fun d hd => minBy_le hc hd⟩
  rw [calibrateThreshold, if_neg (by omega), hc]
  rfl

/-- **The calibrated cutoff is a global minimum.** -/
theorem calibrate_le (hnext : ∀ x, x < next x) (h : 2 ≤ (points ans una).length) (r : ℝ) :
    errors ans una (calibrateThreshold next ans una) ≤ realErrors ans una r := by
  have hne : points ans una ≠ [] := List.ne_nil_of_length_pos (by omega)
  obtain ⟨c, -, ht, hle⟩ := calibrate_spec next h
  have hlow : ∀ s s' : ℚ, s' ≤ s → (s : ℝ) < r → (s' : ℝ) < r :=
    fun s s' hs hr => lt_of_le_of_lt (Rat.cast_le.mpr hs) hr
  obtain ⟨d, hd, hbelow⟩ := exists_candidate hnext (points_strict ans una) hne hlow
  have hmin : errors ans una c.1 ≤ errors ans una d.1 := by
    rcases Prod.Lex.toLex_le_toLex.mp (hle d hd) with hlt | ⟨heq, -⟩
    · exact hlt.le
    · exact heq.le
  rw [ht, ← errors_congr fun s hs => hbelow s (mem_points.mpr hs)]
  exact hmin

/-- A cutoff inside a gap errs as the gap's midpoint does. -/
theorem errors_midpoint {y : ℚ × ℚ} (hy : y ∈ gapsOf (points ans una)) (hlo : (y.1 : ℝ) < r)
    (hhi : r < y.2) : errors ans una (midpoint y).1 = realErrors ans una r := by
  refine errors_congr fun s hs => ?_
  have hps := points_strict ans una
  have hs := mem_points.mpr hs
  rw [lt_midpoint_iff hps hy hs]
  exact (lt_inside_iff Rat.cast_strictMono hps hy hlo hhi.le hs).symm

/-- **When a gap does as well**, the calibrated cutoff is the midpoint of a widest such gap. -/
theorem calibrate_widest (h : 2 ≤ (points ans una).length) {y : ℚ × ℚ}
    (hy : y ∈ gapsOf (points ans una)) (hlo : (y.1 : ℝ) < r) (hhi : r < y.2)
    (hr : realErrors ans una r = errors ans una (calibrateThreshold next ans una)) :
    ∃ x ∈ gapsOf (points ans una), calibrateThreshold next ans una = (x.1 + x.2) / 2 ∧
      ∀ z ∈ gapsOf (points ans una), ∀ r' : ℝ, z.1 < r' → r' < z.2 →
        realErrors ans una r' = errors ans una (calibrateThreshold next ans una) →
          z.2 - z.1 ≤ x.2 - x.1 := by
  obtain ⟨c, hc, ht, hle⟩ := calibrate_spec next h
  have hwide : ∀ z ∈ gapsOf (points ans una), ∀ r' : ℝ, z.1 < r' → r' < z.2 →
      realErrors ans una r' = errors ans una (calibrateThreshold next ans una) →
        z.2 - z.1 ≤ c.2 := by
    intro z hz r' hlo' hhi' hr'
    have hkey := hle (midpoint z) (List.mem_append_left _ (List.mem_map_of_mem hz))
    rcases Prod.Lex.toLex_le_toLex.mp hkey with hlt | ⟨-, hgap⟩
    · rw [ht, ← errors_midpoint hz hlo' hhi'] at hr'
      exact absurd hlt hr'.not_gt
    · exact neg_le_neg_iff.mp hgap
  rcases List.mem_append.mp hc with hc | hc
  · obtain ⟨x, hx, rfl⟩ := List.mem_map.mp hc
    exact ⟨x, hx, ht, hwide⟩
  · -- the outer candidates have no gap
    have hzero : c.2 = 0 := by
      rcases List.mem_cons.mp hc with rfl | hc
      · rfl
      · rw [List.mem_singleton.mp hc]
    have hpos := lt_of_gap (points_strict ans una) hy
    have hno := hwide y hy r hlo hhi hr
    rw [hzero] at hno
    linarith

end Meridian.Rag
