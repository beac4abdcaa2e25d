import Meridian.Grouping.Gaps
import Meridian.Regex.Scanning

/-!
# Scattered elements of a class

The pattern `p(¬p{0,limit}p){least-1,most-1}`: between `least` and `most` elements of a class, with
at most `limit` others between two of them. Its matches are the runs of `Grouping/Gaps.lean`, so
what replacing them leaves of the class is counted there (`countP_sub_scattered`).
-/

namespace Meridian.Regex

open Grouping

variable {α : Type} {p : α → Bool} {limit least most : ℕ}

/-- At most `limit` others, and an element of the class. -/
def further (p : α → Bool) (limit : ℕ) : Pattern α :=
  .cat (.rep true 0 (some limit) (.one (!p ·))) (.cat (.one p) .empty)

def scattered (p : α → Bool) (limit least most : ℕ) : Pattern α :=
  .cat (.one p) (.cat (.rep true (least - 1) (some (most - 1)) (further p limit)) .empty)

/-- The cursor behind the next element of the class, when it is near enough. -/
def next (p : α → Bool) (limit : ℕ) (s : Cursor α) : Option (Cursor α) :=
  if run (!p ·) s ≤ limit then
    (s.skip (run (!p ·) s)).after.head?.map fun a =>
      ⟨some a, (s.skip (run (!p ·) s)).after.tail, s.groups⟩
  else none

/-- Where the others end. -/
theorem skip_run (p : α → Bool) (s : Cursor α) :
    (s.skip (run (!p ·) s)).after = s.after.dropWhile (!p ·) := by
  have hdrop : (s.after.takeWhile (!p ·) ++ s.after.dropWhile (!p ·)).drop (run (!p ·) s) =
      s.after.dropWhile (!p ·) := List.drop_left
  rwa [List.takeWhile_append_dropWhile] at hdrop

theorem head_dropWhile {l rest : List α} {a : α} (h : l.dropWhile (!p ·) = a :: rest) :
    p a = true := by
  have hne : l.dropWhile (!p ·) ≠ [] := by
    rw [h]
    exact List.cons_ne_nil a rest
  have hhead := List.head_dropWhile_not (!p ·) hne
  simpa [h] using hhead

/-- The next element is one step on, or too far away. -/
theorem next_spec (s : Cursor α) :
    (next p limit s = none ∧ ∀ n, reach limit n (gaps p s.after) = 0) ∨
    ∃ u x w, next p limit s = some u ∧ gaps p s.after = x :: gaps p u.after ∧ x.1 ≤ limit ∧
      Leads s u w ∧ w.filter p = [x.2] ∧ u.groups = s.groups := by
  have hgaps : gaps p s.after = gapsFrom p (run (!p ·) s) (s.after.dropWhile (!p ·)) := by
    rw [gaps, gapsFrom_run, Nat.zero_add]
    rfl
  unfold next
  cases hrest : s.after.dropWhile (!p ·) with
  | nil =>
    rw [hrest] at hgaps
    refine .inl ⟨?_, fun n => ?_⟩
    · rw [skip_run, hrest]
      split_ifs <;> rfl
    · rw [hgaps]
      exact reach_nil _ _
  | cons a rest =>
    have ha := head_dropWhile hrest
    rw [hrest, gapsFrom, if_pos ha] at hgaps
    by_cases hnear : run (!p ·) s ≤ limit
    · refine .inr ⟨⟨some a, rest, s.groups⟩, (run (!p ·) s, a), s.after.takeWhile (!p ·) ++ [a],
        ?_, hgaps, hnear, ⟨?_, by simp⟩, ?_, rfl⟩
      · rw [if_pos hnear, skip_run, hrest]
        rfl
      · rw [List.append_assoc]
        conv_lhs => rw [← List.takeWhile_append_dropWhile (p := fun a => !p a) (l := s.after), hrest]
        rfl
      · have hothers : (s.after.takeWhile (!p ·)).filter p = [] := by
          rw [List.filter_eq_nil_iff]
          intro b hb
          simpa using List.mem_takeWhile_imp hb
        rw [List.filter_append, hothers, List.filter_cons_of_pos ha]
        rfl
    · refine .inl ⟨if_neg hnear, fun n => ?_⟩
      rw [hgaps]
      cases n with
      | zero => exact reach_zero _ _
      | succ n => rw [reach_succ, if_neg hnear]

theorem next_shorter (s : Cursor α) : ∀ t ∈ next p limit s, t.after.length < s.after.length := by
  intro t ht
  rcases @next_spec _ p limit s with ⟨hnone, -⟩ | ⟨u, x, w, hu, -, -, hw, hx, -⟩
  · rw [hnone] at ht
    cases ht
  · cases hu.symm.trans ht
    have hlength := hw.length
    have hne : w ≠ [] := by
      rintro rfl
      cases hx
    have := List.length_pos_iff.mpr hne
    omega

/-- How far a run reaches, and what it takes up. -/
theorem chain_next (n : ℕ) (s : Cursor α) : ∃ t w,
    (chain (next p limit) n s).length = reach limit n (gaps p s.after) + 1 ∧
    (chain (next p limit) n s).getLast? = some t ∧ Leads s t w ∧
    w.filter p = ((gaps p s.after).take (reach limit n (gaps p s.after))).map Prod.snd ∧
    gaps p t.after = (gaps p s.after).drop (reach limit n (gaps p s.after)) ∧
    t.groups = s.groups := by
  induction n generalizing s with
  | zero => exact ⟨s, [], rfl, rfl, leads_nil s, rfl, rfl, rfl⟩
  | succ n ih =>
    rw [chain]
    rcases @next_spec _ p limit s with
      ⟨hnone, hreach⟩ | ⟨u, x, v, hu, hgaps, hx, hv, hfilter, hgroups⟩
    · rw [hnone, hreach]
      exact ⟨s, [], rfl, rfl, leads_nil s, rfl, rfl, rfl⟩
    · obtain ⟨t, w, hlength, hlast, hw, htaken, hrest, hsame⟩ := ih u
      rw [hu, hgaps, reach_succ, if_pos hx]
      refine ⟨t, v ++ w, by simp [hlength], ?_, hv.trans hw, ?_, by simpa using hrest,
        hsame.trans hgroups⟩
      · rw [Option.elim_some, List.getLast?_cons, hlast]
        rfl
      · rw [List.filter_append, hfilter, htaken]
        rfl

variable [DecidableEq α]

theorem avoids_element : Avoids (.cat (.one p) .empty) (!p ·) :=
  (avoids_one fun a ha => by simpa using ha).cat _

theorem ends_further (s : Cursor α) : ends (further p limit) s = (next p limit s).toList := by
  have hempty : ∀ l : List (Cursor α), l.flatMap (ends .empty) = l := List.flatMap_singleton'
  rw [further, ends_run avoids_element 0 (some limit) (by simp) s, next]
  by_cases hnear : run (!p ·) s ≤ limit
  · rw [if_pos ⟨Nat.zero_le _, by simpa using hnear⟩, if_pos hnear, ends_cat, hempty]
    cases hrest : s.after.dropWhile (!p ·) with
    | nil =>
      rw [ends_one_of_not (by simp [skip_run, hrest]), skip_run, hrest]
      rfl
    | cons a rest =>
      have hafter : (s.skip (run (!p ·) s)).after = a :: rest := by rw [skip_run, hrest]
      rw [ends_one hafter (head_dropWhile hrest), hafter]
      rfl
  · rw [if_neg fun h => hnear (h.2 limit rfl), if_neg hnear]
    rfl

/-- A match at an element takes up as many as the run reaches. -/
theorem matchAt_element {s : Cursor α} {a : α} {rest : List α} (hs : s.after = a :: rest)
    (ha : p a = true) (hleast : 1 ≤ least) (hle : least ≤ most) :
    (least ≤ reach limit (most - 1) (gaps p rest) + 1 → ∃ t w, Leads s t w ∧
      matchAt (scattered p limit least most) s = some t ∧ t.groups = s.groups ∧
      w.filter p = a :: ((gaps p rest).take (reach limit (most - 1) (gaps p rest))).map Prod.snd ∧
      gaps p t.after = (gaps p rest).drop (reach limit (most - 1) (gaps p rest))) ∧
    (reach limit (most - 1) (gaps p rest) + 1 < least →
      matchAt (scattered p limit least most) s = none) := by
  obtain ⟨t, w, hlength, hlast, hw, htaken, hrest, hgroups⟩ :=
    @chain_next _ p limit (most - 1) ⟨some a, rest, s.groups⟩
  have hempty : ∀ l : List (Cursor α), l.flatMap (ends .empty) = l := List.flatMap_singleton'
  have hmatch : matchAt (scattered p limit least most) s =
      ((chain (next p limit) (most - 1) ⟨some a, rest, s.groups⟩).drop (least - 1)).getLast? := by
    rw [matchAt, scattered, ends_cat, ends_one hs ha, List.flatMap_singleton, ends_cat, hempty,
      ends_chain ends_further next_shorter (by omega), List.head?_reverse]
  dsimp only at hlength hrest htaken
  rw [hmatch, List.getLast?_drop, hlength]
  constructor
  · intro hreach
    have hfirst : Leads s ⟨some a, rest, s.groups⟩ [a] := ⟨hs, by simp⟩
    refine ⟨t, [a] ++ w, hfirst.trans hw, ?_, hgroups, ?_, hrest⟩
    · rw [if_neg (by omega), hlast]
    · rw [List.filter_append, List.filter_cons_of_pos ha, htaken]
      rfl
  · exact fun hreach => if_pos (by omega)

theorem matchAt_other {s : Cursor α} {a : α} {rest : List α} (hs : s.after = a :: rest)
    (ha : p a = false) : matchAt (scattered p limit least most) s = none := by
  rw [matchAt, scattered, ends_cat, ends_one_of_not (by simp [hs, ha])]
  rfl

/-- **The matches are the runs**: what is left of the class when each match is replaced, `ω` of the
elements of the class in it remaining. -/
theorem countP_sub_scattered (hleast : 1 ≤ least) (hle : least ≤ most) {f : List α → List α}
    {ω : List α → ℕ} (hω : ∀ t, (f t).countP p = ω (t.filter p)) (l : List α) :
    (sub (scattered p limit least most) (fun m => f m.text) l).countP p +
        ((runs limit least most 0 (gaps p l)).map List.length).sum =
      l.countP p + ((runs limit least most 0 (gaps p l)).map ω).sum := by
  have hscan : ∀ (n : ℕ) (k : ℕ) (prev : Option α) (l : List α), l.length ≤ n →
      ((scanFrom (scattered p limit least most) l.length prev l).flatMap
          (Piece.out fun m => f m.text)).countP p +
          ((runs limit least most 0 (gapsFrom p k l)).map List.length).sum =
        l.countP p + ((runs limit least most 0 (gapsFrom p k l)).map ω).sum := by
    intro n
    induction n with
    | zero =>
      intro k prev l hl
      rw [List.length_eq_zero_iff.mp (Nat.le_zero.mp hl)]
      rfl
    | succ n ih =>
      intro k prev l hl
      cases l with
      | nil => rfl
      | cons a rest =>
        have hrest : rest.length ≤ n := by simpa using hl
        by_cases ha : p a = true
        · obtain ⟨hhit, hmiss⟩ := @matchAt_element _ p limit least most _
            ⟨prev, a :: rest, []⟩ _ _ rfl ha hleast hle
          rw [gapsFrom, if_pos ha, runs_cons]
          by_cases hreach : least ≤ reach limit (most - 1) (gaps p rest) + 1
          · obtain ⟨t, w, hw, hm, -, hfilter, hafter⟩ := hhit hreach
            have hne : w ≠ [] := by
              rintro rfl
              cases hfilter
            have hlength := hw.length
            have hpos := List.length_pos_iff.mpr hne
            have hcount : (a :: rest).countP p = w.countP p + t.after.countP p := by
              rw [← List.countP_append, ← hw.after]
            have htail := ih 0 t.prev t.after (by simp at hlength; omega)
            rw [show gapsFrom p 0 t.after = gaps p t.after from rfl, hafter] at htail
            rw [show gapsFrom p 0 rest = gaps p rest from rfl, if_pos hreach,
              scanFrom_hit rfl hm hw hne, List.flatMap_cons, List.countP_append, hcount,
              List.countP_eq_length_filter (l := w), hfilter]
            simp only [Piece.out, hω, hfilter, List.map_cons, List.sum_cons, List.length_cons,
              List.length_map]
            omega
          · have hnone := hmiss (not_le.mp hreach)
            rw [show gapsFrom p 0 rest = gaps p rest from rfl, if_neg hreach,
              scanFrom_miss (by simp [hnone]), List.flatMap_cons, List.countP_append,
              List.countP_cons_of_pos ha]
            have htail := ih 0 (some a) rest hrest
            simp only [Piece.out, List.countP_singleton, ha, if_true]
            rw [show gapsFrom p 0 rest = gaps p rest from rfl] at htail
            omega
        · have ha : p a = false := by simpa using ha
          have hnone := @matchAt_other _ p limit least most _
            ⟨prev, a :: rest, []⟩ _ _ rfl ha
          rw [gapsFrom, if_neg (by simp [ha]), scanFrom_miss (by simp [hnone]), List.flatMap_cons,
            List.countP_append, List.countP_cons_of_neg (by simp [ha])]
          have htail := ih (k + 1) (some a) rest hrest
          simp only [Piece.out, List.countP_singleton, ha]
          simpa using htail
  exact hscan l.length 0 none l (Nat.le_refl _)

end Meridian.Regex
