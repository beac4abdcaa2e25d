import Mathlib.Data.List.Basic
import Mathlib.Order.Basic

/-!
# Dropping from the front until the rest fits

`trim fits l` drops the first element of a list as long as the list does not fit, and counts what it
drops. What it leaves is a suffix (`trim_eq_drop`), every longer one does not fit (`not_fits_drop`),
and it fits unless it is empty (`fits_trim`).
-/

namespace Meridian.Grouping

variable {α : Type} (fits : List α → Bool)

/-- What is left of a list, and how many elements were dropped. -/
def trim : List α → List α × ℕ
  | [] => ([], 0)
  | a :: l => if fits (a :: l) then (a :: l, 0) else ((trim l).1, (trim l).2 + 1)

variable {fits}

theorem trim_of_fits {l : List α} (h : fits l = true) : trim fits l = (l, 0) := by
  cases l with
  | nil => rfl
  | cons a l => rw [trim, if_pos h]

theorem trim_cons {a : α} {l : List α} (h : fits (a :: l) = false) :
    trim fits (a :: l) = ((trim fits l).1, (trim fits l).2 + 1) := by
  rw [trim, if_neg (by rw [h]; exact Bool.false_ne_true)]

/-- What is left is the list without what was dropped. -/
theorem trim_eq_drop (l : List α) : (trim fits l).1 = l.drop (trim fits l).2 := by
  induction l with
  | nil => rfl
  | cons a l ih =>
    by_cases h : fits (a :: l) = true
    · rw [trim_of_fits h]
      rfl
    · rw [trim_cons (by simpa using h), ih]
      rfl

/-- What is left fits, if the empty list does. -/
theorem fits_trim (hnil : fits [] = true) (l : List α) : fits (trim fits l).1 = true := by
  induction l with
  | nil => exact hnil
  | cons a l ih =>
    by_cases h : fits (a :: l) = true
    · rwa [trim_of_fits h]
    · rwa [trim_cons (by simpa using h)]

/-- Before the cut nothing fitted. -/
theorem not_fits_drop {l : List α} {n : ℕ} (h : n < (trim fits l).2) :
    fits (l.drop n) = false := by
  induction l generalizing n with
  | nil => exact absurd h (Nat.not_lt_zero n)
  | cons a l ih =>
    by_cases hfits : fits (a :: l) = true
    · rw [trim_of_fits hfits] at h
      exact absurd h (Nat.not_lt_zero n)
    · have hfits : fits (a :: l) = false := by simpa using hfits
      rw [trim_cons hfits] at h
      cases n with
      | zero => exact hfits
      | succ n => exact ih (Nat.lt_of_succ_lt_succ h)

/-- The cut is no later than any suffix that fits. -/
theorem trim_le_of_fits {l : List α} {n : ℕ} (h : fits (l.drop n) = true) :
    (trim fits l).2 ≤ n := by
  by_contra hlt
  have hover := not_fits_drop (Nat.lt_of_not_le hlt)
  rw [h] at hover
  exact Bool.noConfusion hover

theorem trim_le_length (l : List α) : (trim fits l).2 ≤ l.length := by
  induction l with
  | nil => exact Nat.le_refl 0
  | cons a l ih =>
    by_cases h : fits (a :: l) = true
    · rw [trim_of_fits h]
      exact Nat.zero_le _
    · rw [trim_cons (by simpa using h)]
      exact Nat.succ_le_succ ih

/-- Where a shorter rest always fits with a longer one, the cut is between two neighbouring
suffixes, of which the shorter one fits. -/
theorem trim_iff (hnil : fits [] = true)
    (hmono : ∀ a l, fits (a :: l) = true → fits l = true) {l : List α} {n : ℕ} :
    (trim fits l).2 = n + 1 ↔ fits (l.drop n) = false ∧ fits (l.drop (n + 1)) = true := by
  constructor
  · intro h
    refine ⟨not_fits_drop (by omega), ?_⟩
    rw [← h, ← trim_eq_drop]
    exact fits_trim hnil l
  · rintro ⟨hover, hfits⟩
    have hdrop : ∀ k m, fits (l.drop k) = true → fits (l.drop (k + m)) = true := by
      intro k m hk
      induction m with
      | zero => exact hk
      | succ m ih =>
        by_cases hlen : k + m < l.length
        · rw [List.drop_eq_getElem_cons hlen] at ih
          exact hmono _ _ ih
        · rw [List.drop_eq_nil_of_le (by omega)]
          exact hnil
    have hlast : fits (l.drop (trim fits l).2) = true := by
      rw [← trim_eq_drop]
      exact fits_trim hnil l
    by_contra hne
    rcases Nat.lt_or_gt_of_ne hne with hlt | hgt
    · have := hdrop (trim fits l).2 (n - (trim fits l).2) hlast
      rw [Nat.add_sub_cancel' (by omega)] at this
      rw [this] at hover
      exact Bool.noConfusion hover
    · have := not_fits_drop hgt
      rw [this] at hfits
      exact Bool.noConfusion hfits

end Meridian.Grouping
