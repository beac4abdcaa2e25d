import Mathlib.Data.List.Lex
import Mathlib.Order.Monotone.Basic
import Meridian.Python.Date

/-!
# ISO dates in order

The ISO texts of dates sort as the dates do, since every field has its digits padded.

* `ordinal_lex`: an earlier date is earlier by its first different field.
* `isoDate_lt`: and so is its text.
-/

namespace Meridian.Python

variable {y m d y' m' d' : Nat} {a b : Int}

/-! ## Fields -/

theorem daysBeforeYear_mono : Monotone daysBeforeYear := by
  refine monotone_nat_of_le_succ fun y => ?_
  rcases Nat.eq_zero_or_pos y with rfl | hy
  · exact le_of_eq rfl
  · rw [daysBeforeYear_succ hy]
    exact Nat.le_add_right _ _

theorem daysBeforeMonth_mono (y : Nat) : Monotone (daysBeforeMonth y) := by
  refine monotone_nat_of_le_succ fun m => ?_
  rcases Nat.eq_zero_or_pos m with rfl | hm
  · exact le_of_eq rfl
  · rw [daysBeforeMonth_succ y hm]
    exact Nat.le_add_right _ _

/-- What an ordinal is made of. -/
theorem ordinal_cases (h : ordinal y m d = some a) :
    1 ≤ y ∧ 1 ≤ m ∧ m ≤ 12 ∧ 1 ≤ d ∧ d ≤ daysInMonth y m ∧
      a = (daysBeforeYear y + daysBeforeMonth y m + d : Nat) := by
  unfold ordinal at h
  split at h
  · rename_i hin
    cases h
    exact ⟨hin.1, hin.2.2.1, hin.2.2.2.1, hin.2.2.2.2.1, hin.2.2.2.2.2, rfl⟩
  · cases h

/-- A date is in its year. -/
theorem ordinal_year (h : ordinal y m d = some a) :
    (daysBeforeYear y : Int) < a ∧ a ≤ daysBeforeYear (y + 1) := by
  obtain ⟨hy, hm, hm', hd, hd', rfl⟩ := ordinal_cases h
  have hmonth := daysBeforeMonth_succ y hm
  have hlast : daysBeforeMonth y (m + 1) ≤ daysBeforeMonth y 13 :=
    daysBeforeMonth_mono y (Nat.succ_le_succ hm')
  rw [daysBeforeYear_succ hy]
  constructor <;> push_cast <;> omega

/-- A date is in its month. -/
theorem ordinal_month (h : ordinal y m d = some a) :
    (daysBeforeYear y + daysBeforeMonth y m : Nat) < a ∧
      a ≤ (daysBeforeYear y + daysBeforeMonth y (m + 1) : Nat) := by
  obtain ⟨-, hm, -, hd, hd', rfl⟩ := ordinal_cases h
  have hmonth := daysBeforeMonth_succ y hm
  constructor <;> push_cast <;> omega

/-- **An earlier date** is earlier in its first different field. -/
theorem ordinal_lex (ha : ordinal y m d = some a) (hb : ordinal y' m' d' = some b) (h : a < b) :
    y < y' ∨ y = y' ∧ (m < m' ∨ m = m' ∧ d < d') := by
  rcases Nat.lt_trichotomy y y' with hy | rfl | hy
  · exact .inl hy
  · rcases Nat.lt_trichotomy m m' with hm | rfl | hm
    · exact .inr ⟨rfl, .inl hm⟩
    · obtain ⟨-, -, -, -, -, rfl⟩ := ordinal_cases ha
      obtain ⟨-, -, -, -, -, rfl⟩ := ordinal_cases hb
      exact .inr ⟨rfl, .inr ⟨rfl, by omega⟩⟩
    · have hmono := daysBeforeMonth_mono y (Nat.succ_le_of_lt hm)
      have := (ordinal_month ha).1
      have := (ordinal_month hb).2
      simp only [Nat.succ_eq_add_one] at hmono
      omega
  · have hmono := daysBeforeYear_mono (Nat.succ_le_of_lt hy)
    have := (ordinal_year ha).1
    have := (ordinal_year hb).2
    simp only [Nat.succ_eq_add_one] at hmono
    omega

/-! ## Texts -/

theorem digitChar_lt {i j : Nat} (h : i < j) (hj : j < 10) : digitChar i < digitChar j := by
  revert i
  interval_cases j <;> decide

theorem append_lt_append {s t : Text} (u : Text) (h : s < t) : u ++ s < u ++ t := by
  induction u with
  | nil => exact h
  | cons c u ih => exact List.cons_lt_cons_iff.mpr (.inr ⟨rfl, ih⟩)

theorem twoDigits_lt {i j : Nat} (h : i < j) (hj : j < 100) (s t : Text) :
    twoDigits i ++ s < twoDigits j ++ t := by
  simp only [twoDigits, List.cons_append, List.nil_append, List.cons_lt_cons_iff]
  rcases Nat.lt_or_ge (i / 10) (j / 10) with htens | htens
  · exact .inl (digitChar_lt htens (by omega))
  · have heq : i / 10 = j / 10 := by omega
    rw [heq]
    exact .inr ⟨rfl, .inl (digitChar_lt (by omega) (by omega))⟩

theorem isoFormat_lt (ha : ordinal y m d = some a) (hb : ordinal y' m' d' = some b) (h : a < b) :
    isoFormat y m d < isoFormat y' m' d' := by
  obtain ⟨hy, -, hm, -, hd⟩ := ordinal_range hb
  have hlex := ordinal_lex ha hb h
  simp only [isoFormat, List.append_assoc]
  rcases hlex with hlt | ⟨rfl, hlt | ⟨rfl, hlt⟩⟩
  · rcases Nat.lt_or_ge (y / 100) (y' / 100) with hcentury | hcentury
    · exact twoDigits_lt hcentury (by omega) _ _
    · have heq : y / 100 = y' / 100 := by omega
      rw [heq]
      exact append_lt_append _ (twoDigits_lt (by omega) (by omega) _ _)
  · refine append_lt_append _ (append_lt_append _ (List.cons_lt_cons_iff.mpr (.inr ⟨rfl, ?_⟩)))
    exact twoDigits_lt hlt (by omega) _ _
  · refine append_lt_append _ (append_lt_append _ (List.cons_lt_cons_iff.mpr (.inr ⟨rfl, ?_⟩)))
    refine append_lt_append _ (List.cons_lt_cons_iff.mpr (.inr ⟨rfl, ?_⟩))
    simpa using twoDigits_lt hlt (by omega) [] []

/-! ## Ordinals -/

/-- The fields of a date are found from its ordinal. -/
theorem isoDate_eq (h : ordinal y m d = some a) : isoDate a = isoFormat y m d := by
  obtain ⟨hy, hm, hm', hd, hd', ha⟩ := ordinal_cases h
  have hyear : Nat.findGreatest (fun y => (daysBeforeYear y : Int) < a) 9999 = y := by
    refine Nat.findGreatest_eq_iff.mpr ⟨(ordinal_range h).1, fun _ => (ordinal_year h).1, ?_⟩
    intro n hn _ hlt
    have := daysBeforeYear_mono (Nat.succ_le_of_lt hn)
    have := (ordinal_year h).2
    simp only [Nat.succ_eq_add_one] at *
    omega
  have hmonth : Nat.findGreatest
      (fun m => (daysBeforeYear y + daysBeforeMonth y m : Int) < a) 12 = m := by
    refine Nat.findGreatest_eq_iff.mpr ⟨hm', fun _ => by exact_mod_cast (ordinal_month h).1, ?_⟩
    intro n hn _ hlt
    have := daysBeforeMonth_mono y (Nat.succ_le_of_lt hn)
    have := (ordinal_month h).2
    simp only [Nat.succ_eq_add_one] at *
    push_cast at *
    omega
  simp only [isoDate, hyear, hmonth]
  congr 1
  rw [ha]
  push_cast
  omega

/-- **ISO texts sort as their dates.** -/
theorem isoDate_lt (ha : 1 ≤ a) (hb : b ≤ maxOrdinal) (h : a < b) : isoDate a < isoDate b := by
  obtain ⟨y, m, d, hya⟩ := exists_ordinal ha (by omega)
  obtain ⟨y', m', d', hyb⟩ := exists_ordinal (by omega : 1 ≤ b) hb
  rw [isoDate_eq hya, isoDate_eq hyb]
  exact isoFormat_lt hya hyb h

/-- A date's ISO text reads back. -/
theorem parseDate_isoDate (ha : 1 ≤ a) (ha' : a ≤ maxOrdinal) : parseDate (isoDate a) = some a := by
  obtain ⟨y, m, d, h⟩ := exists_ordinal ha ha'
  rw [isoDate_eq h]
  exact parseDate_isoFormat h

end Meridian.Python
