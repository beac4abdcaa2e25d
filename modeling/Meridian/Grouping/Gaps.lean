import Mathlib.Algebra.GroupWithZero.Nat
import Mathlib.Data.List.TakeWhile
import Mathlib.Tactic.Common

/-!
# Runs of scattered elements

`gaps p l` is the elements of a class in a list, each with its distance to the one before. `runs`
goes through them from left to right and takes up the runs that no gap over `limit` parts: as long
as possible up to `most` elements, and passing over what is shorter than `least`.
-/

namespace Meridian.Grouping

variable {α : Type}

/-- The elements of the class, each with the number of others between it and the one before;
`k` others have been passed already. -/
def gapsFrom (p : α → Bool) : ℕ → List α → List (ℕ × α)
  | _, [] => []
  | k, a :: l => if p a then (k, a) :: gapsFrom p 0 l else gapsFrom p (k + 1) l

def gaps (p : α → Bool) (l : List α) : List (ℕ × α) := gapsFrom p 0 l

/-- How many of the next `n` elements follow without a gap over `limit`. -/
def reach (limit n : ℕ) (xs : List (ℕ × α)) : ℕ :=
  ((xs.take n).takeWhile fun x => x.1 ≤ limit).length

/-- The runs of elements, `skip` of which have been taken up. -/
def runs (limit least most : ℕ) : ℕ → List (ℕ × α) → List (List α)
  | _, [] => []
  | skip + 1, _ :: xs => runs limit least most skip xs
  | 0, x :: xs =>
    let n := reach limit (most - 1) xs
    if least ≤ n + 1 then (x :: xs.take n).map Prod.snd :: runs limit least most n xs
    else runs limit least most 0 xs

section Gaps

variable {p : α → Bool} {limit least most n k : ℕ} {l : List α} {x : ℕ × α} {xs : List (ℕ × α)}

@[simp] theorem map_gapsFrom (p : α → Bool) (k : ℕ) (l : List α) :
    (gapsFrom p k l).map Prod.snd = l.filter p := by
  induction l generalizing k with
  | nil => rfl
  | cons a l ih =>
    rw [gapsFrom]
    by_cases ha : p a = true
    · rw [if_pos ha, List.filter_cons_of_pos ha, List.map_cons, ih]
    · rw [if_neg ha, List.filter_cons_of_neg ha, ih]

theorem length_gaps (p : α → Bool) (l : List α) : (gaps p l).length = l.countP p := by
  rw [← List.length_map Prod.snd, gaps, map_gapsFrom, List.countP_eq_length_filter]

/-- The others in front are passed over. -/
theorem gapsFrom_run (p : α → Bool) (k : ℕ) (l : List α) :
    gapsFrom p k l = gapsFrom p (k + (l.takeWhile (!p ·)).length) (l.dropWhile (!p ·)) := by
  induction l generalizing k with
  | nil => rfl
  | cons a l ih =>
    by_cases ha : p a = true
    · simp [ha]
    · rw [gapsFrom, if_neg ha, List.takeWhile_cons_of_pos (by simp [ha]),
        List.dropWhile_cons_of_pos (by simp [ha]), ih, List.length_cons]
      congr 1
      omega

theorem reach_le (limit n : ℕ) (xs : List (ℕ × α)) : reach limit n xs ≤ n :=
  (List.takeWhile_prefix _).length_le.trans (List.length_take_le n xs)

theorem reach_le_length (limit n : ℕ) (xs : List (ℕ × α)) : reach limit n xs ≤ xs.length :=
  (List.takeWhile_prefix _).length_le.trans (List.length_take_le' n xs)

@[simp] theorem reach_nil (limit n : ℕ) : reach limit n ([] : List (ℕ × α)) = 0 := by
  simp [reach]

@[simp] theorem reach_zero (limit : ℕ) (xs : List (ℕ × α)) : reach limit 0 xs = 0 := rfl

theorem reach_succ : reach limit (n + 1) (x :: xs) =
    if x.1 ≤ limit then reach limit n xs + 1 else 0 := by
  unfold reach
  rw [List.take_succ_cons, List.takeWhile_cons]
  split_ifs <;> simp_all

theorem runs_skip (n : ℕ) (xs : List (ℕ × α)) :
    runs limit least most n xs = runs limit least most 0 (xs.drop n) := by
  induction n generalizing xs with
  | zero => rfl
  | succ n ih =>
    cases xs with
    | nil => rfl
    | cons x xs =>
      rw [runs, ih]
      rfl

theorem runs_cons (x : ℕ × α) (xs : List (ℕ × α)) : runs limit least most 0 (x :: xs) =
    if least ≤ reach limit (most - 1) xs + 1 then
      (x :: xs.take (reach limit (most - 1) xs)).map Prod.snd ::
        runs limit least most 0 (xs.drop (reach limit (most - 1) xs))
    else runs limit least most 0 xs := by
  rw [runs, runs_skip (reach limit (most - 1) xs)]

/-- A run is taken up, or an element is passed over. -/
theorem runs_induct {P : List (ℕ × α) → List (List α) → Prop} (hnil : P [] [])
    (hpass : ∀ x xs, reach limit (most - 1) xs + 1 < least →
      P xs (runs limit least most 0 xs) → P (x :: xs) (runs limit least most 0 xs))
    (hrun : ∀ x xs ys, ys = xs.take (reach limit (most - 1) xs) → least ≤ ys.length + 1 →
      P (xs.drop ys.length) (runs limit least most 0 (xs.drop ys.length)) →
      P (x :: xs) ((x :: ys).map Prod.snd :: runs limit least most 0 (xs.drop ys.length)))
    (xs : List (ℕ × α)) : P xs (runs limit least most 0 xs) := by
  obtain ⟨n, hn⟩ : ∃ n, xs.length ≤ n := ⟨_, Nat.le_refl _⟩
  induction n generalizing xs with
  | zero =>
    rw [List.length_eq_zero_iff.mp (Nat.le_zero.mp hn)]
    exact hnil
  | succ n ih =>
    cases xs with
    | nil => exact hnil
    | cons x xs =>
      have hxs : xs.length ≤ n := by simpa using hn
      have hlength : (xs.take (reach limit (most - 1) xs)).length = reach limit (most - 1) xs :=
        List.length_take_of_le (reach_le_length _ _ _)
      rw [runs_cons]
      split_ifs with hleast
      · have hrest := hrun x xs _ rfl (by rwa [hlength]) (ih _ (by simp; omega))
        rwa [hlength] at hrest
      · exact hpass x xs (not_le.mp hleast) (ih xs hxs)

theorem length_of_mem_runs (hmost : 1 ≤ most) {c : List α} (h : c ∈ runs limit least most 0 xs) :
    least ≤ c.length ∧ c.length ≤ most := by
  refine runs_induct (P := fun _ cs => c ∈ cs → least ≤ c.length ∧ c.length ≤ most) nofun
    (fun _ _ _ ih => ih) ?_ xs h
  intro x xs ys hys hleast ih h
  rcases List.mem_cons.mp h with rfl | h
  · have hle : ys.length ≤ most - 1 := by
      rw [hys]
      exact (List.length_take_le _ _).trans (reach_le _ _ _)
    simp only [List.length_map, List.length_cons]
    omega
  · exact ih h

/-- Runs do not overlap. -/
theorem sum_runs_le (limit least most : ℕ) (xs : List (ℕ × α)) :
    ((runs limit least most 0 xs).map List.length).sum ≤ xs.length := by
  refine runs_induct (P := fun xs cs => (cs.map List.length).sum ≤ xs.length) (Nat.le_refl 0) ?_ ?_
    xs
  · intro x xs _ ih
    exact ih.trans (Nat.le_succ _)
  · intro x xs ys hys _ ih
    have hle : ys.length ≤ xs.length := by
      rw [hys]
      exact List.length_take_le' _ _
    simp only [List.map_cons, List.sum_cons, List.length_map, List.length_cons, List.length_drop]
      at ih ⊢
    omega

theorem length_le_of_mem_runs {c : List α} (h : c ∈ runs limit least most 0 xs) :
    c.length ≤ xs.length := by
  obtain ⟨cs, ds, hcs⟩ := List.append_of_mem h
  have hsum := sum_runs_le limit least most xs
  rw [hcs] at hsum
  simp only [List.map_append, List.map_cons, List.sum_append, List.sum_cons] at hsum
  omega

theorem reach_eq_length (hxs : xs.length ≤ n) :
    reach limit n xs = xs.length ↔ ∀ x ∈ xs, x.1 ≤ limit := by
  unfold reach
  rw [List.take_of_length_le hxs]
  constructor
  · intro h x hx
    have hall : xs.takeWhile (fun x => x.1 ≤ limit) = xs :=
      (List.takeWhile_prefix _).eq_of_length h
    rw [← hall] at hx
    simpa using List.mem_takeWhile_imp hx
  · intro h
    rw [List.takeWhile_eq_self_iff.mpr fun x hx => by simpa using h x hx]

/-- Everything is one run. -/
theorem runs_eq_whole (hleast : least ≤ (x :: xs).length) (hmost : (x :: xs).length ≤ most)
    (hgaps : ∀ y ∈ xs, y.1 ≤ limit) :
    runs limit least most 0 (x :: xs) = [(x :: xs).map Prod.snd] := by
  have hreach : reach limit (most - 1) xs = xs.length :=
    (reach_eq_length (by simp at hmost; omega)).mpr hgaps
  rw [runs_cons, hreach, if_pos (by simpa using hleast), List.take_length, List.drop_length]
  rfl

/-- A run of as many elements as there are is everything. -/
theorem whole_of_runs_eq {c : List α} (h : runs limit least most 0 xs = [c])
    (hlength : c.length = xs.length) :
    c = xs.map Prod.snd ∧ least ≤ xs.length ∧ ∀ y ∈ xs.tail, y.1 ≤ limit := by
  cases xs with
  | nil => cases h
  | cons x xs =>
    rw [runs_cons] at h
    split_ifs at h with hleast
    · obtain ⟨rfl, -⟩ := List.cons.inj h
      have hn := reach_le_length limit (most - 1) xs
      have hreach : reach limit (most - 1) xs = xs.length := by
        simp only [List.length_map, List.length_cons, List.length_take] at hlength
        omega
      have hbound : xs.length ≤ most - 1 := by
        rw [← hreach]
        exact reach_le _ _ _
      rw [hreach, List.take_length]
      exact ⟨rfl, by rwa [hreach] at hleast, (reach_eq_length hbound).mp hreach⟩
    · have hle := sum_runs_le limit least most xs
      rw [h] at hle
      simp only [List.map_cons, List.map_nil, List.sum_cons, List.sum_nil, List.length_cons]
        at hle hlength
      omega

end Gaps

end Meridian.Grouping
