import Meridian.Grouping.Total
import Meridian.Python.Sorted

/-!
# Neighbours in a list, and groups of a list

`l.zip l.tail` are the pairs of neighbours of `l`.

* `zip_tail_filter`: a part without gaps has the neighbours of the list that both lie in it.
* `mem_zip_tail_iff`: in a strictly sorted list, neighbours are the pairs with nothing between.
* `sortBy_flatMap_congr`: a list put together group by group and sorted does not depend on the order
  of the groups, when the key tells the groups apart.
* `flatMap_groups`: a sorted list is its groups, one after the other.
-/

namespace Meridian.Grouping

open Python

variable {α β γ κ : Type}

/-! ## Neighbours -/

theorem mem_of_mem_zip_tail {l : List α} {x : α × α} (h : x ∈ l.zip l.tail) : x.1 ∈ l ∧ x.2 ∈ l :=
  ⟨(List.of_mem_zip h).1, List.mem_of_mem_tail (List.of_mem_zip h).2⟩

/-- Neighbours are in the order of the list. -/
theorem rel_of_mem_zip_tail {r : α → α → Prop} {l : List α} (hl : l.Pairwise r) {x : α × α}
    (h : x ∈ l.zip l.tail) : r x.1 x.2 := by
  induction l with
  | nil => cases h
  | cons a l ih =>
    obtain ⟨ha, hl⟩ := List.pairwise_cons.mp hl
    cases l with
    | nil => cases h
    | cons b l =>
      rcases List.mem_cons.mp (show x ∈ (a, b) :: (b :: l).zip (b :: l).tail from h) with rfl | h
      · exact ha b List.mem_cons_self
      · exact ih hl h

/-- A part that holds whatever lies between two of its elements. -/
theorem zip_tail_filter {l : List α} {p : α → Bool}
    (h : ∀ a b c, [a, b, c].Sublist l → p a = true → p c = true → p b = true) :
    (l.filter p).zip (l.filter p).tail = (l.zip l.tail).filter fun x => p x.1 && p x.2 := by
  induction l with
  | nil => rfl
  | cons a l ih =>
    have ih := ih fun b c d hsub => h b c d (hsub.cons a)
    cases l with
    | nil =>
      by_cases ha : p a = true
      · simp [ha]
      · simp [ha]
    | cons b l =>
      have hpairs : (a :: b :: l).zip (a :: b :: l).tail = (a, b) :: (b :: l).zip (b :: l).tail := rfl
      rw [hpairs]
      by_cases ha : p a = true
      · rw [List.filter_cons_of_pos ha]
        by_cases hb : p b = true
        · have hkept : p (a, b).1 && p (a, b).2 := by rw [ha, hb]; rfl
          rw [List.filter_cons_of_pos (p := fun x : α × α => p x.1 && p x.2) hkept, ← ih,
            List.filter_cons_of_pos hb]
          rfl
        · -- nothing of the part comes after a gap
          have hnone : (b :: l).filter p = [] := by
            rw [List.filter_eq_nil_iff]
            intro c hc hpc
            rcases List.mem_cons.mp hc with rfl | hc
            · exact hb hpc
            · refine hb (h a b c ?_ ha hpc)
              exact ((List.singleton_sublist.mpr hc).cons_cons b).cons_cons a
          rw [List.filter_cons_of_neg (p := fun x : α × α => p x.1 && p x.2) (by simp [hb]), ← ih,
            hnone]
          rfl
      · rw [List.filter_cons_of_neg ha,
          List.filter_cons_of_neg (p := fun x : α × α => p x.1 && p x.2) (by simp [ha]), ih]

variable [LinearOrder κ] {key : α → κ}

/-- **Neighbours** of a strictly sorted list have nothing between them. -/
theorem mem_zip_tail_iff {l : List α} (hl : l.Pairwise fun a b => key a < key b) {a b : α} :
    (a, b) ∈ l.zip l.tail ↔ a ∈ l ∧ b ∈ l ∧ key a < key b ∧
      ∀ c ∈ l, ¬ (key a < key c ∧ key c < key b) := by
  induction l with
  | nil => simp
  | cons d l ih =>
    obtain ⟨hd, hrest⟩ := List.pairwise_cons.mp hl
    cases l with
    | nil =>
      refine iff_of_false (by simp) ?_
      rintro ⟨ha, hb, hlt, -⟩
      rw [List.mem_singleton.mp ha, List.mem_singleton.mp hb] at hlt
      exact lt_irrefl _ hlt
    | cons e l =>
      have hpairs : (d :: e :: l).zip (d :: e :: l).tail = (d, e) :: (e :: l).zip (e :: l).tail := rfl
      rw [hpairs, List.mem_cons, ih hrest]
      have hde := hd e List.mem_cons_self
      constructor
      · rintro (heq | ⟨ha, hb, hlt, hnone⟩)
        · cases heq
          refine ⟨by simp, by simp, hde, fun c hc hbetween => ?_⟩
          rcases List.mem_cons.mp hc with rfl | hc
          · exact lt_irrefl _ hbetween.1
          · rcases List.mem_cons.mp hc with rfl | hc
            · exact lt_irrefl _ hbetween.2
            · exact lt_asymm hbetween.2 ((List.pairwise_cons.mp hrest).1 c hc)
        · refine ⟨List.mem_cons_of_mem d ha, List.mem_cons_of_mem d hb, hlt, fun c hc => ?_⟩
          rcases List.mem_cons.mp hc with rfl | hc
          · exact fun hbetween => lt_asymm hbetween.1 (hd a ha)
          · exact hnone c hc
      · rintro ⟨ha, hb, hlt, hnone⟩
        have hb' : b ∈ e :: l := by
          rcases List.mem_cons.mp hb with rfl | hb
          · rcases List.mem_cons.mp ha with rfl | ha
            · exact absurd hlt (lt_irrefl _)
            · exact absurd hlt (lt_asymm (hd a ha))
          · exact hb
        rcases List.mem_cons.mp ha with rfl | ha
        · left
          rcases List.mem_cons.mp hb' with rfl | hb'
          · rfl
          · exact absurd ⟨hde, (List.pairwise_cons.mp hrest).1 b hb'⟩ (hnone e (by simp))
        · exact .inr ⟨ha, hb', hlt, fun c hc => hnone c (List.mem_cons_of_mem d hc)⟩

/-! ## Groups -/

variable [DecidableEq γ]

/-- The part of a group in a list put together group by group. -/
theorem filter_flatMap {groups : List γ} (hn : groups.Nodup) {f : γ → List α} (grp : α → γ)
    (hf : ∀ g, ∀ a ∈ f g, grp a = g) (g : γ) :
    (groups.flatMap f).filter (fun a => grp a = g) = if g ∈ groups then f g else [] := by
  induction groups with
  | nil => rfl
  | cons g' groups ih =>
    obtain ⟨hnot, hn⟩ := List.nodup_cons.mp hn
    rw [List.flatMap_cons, List.filter_append, ih hn]
    by_cases hg : g = g'
    · subst hg
      rw [if_neg hnot, if_pos List.mem_cons_self, List.append_nil,
        List.filter_eq_self.mpr fun a ha => by simpa using hf g a ha]
    · have hnone : (f g').filter (fun a => grp a = g) = [] := by
        rw [List.filter_eq_nil_iff]
        intro a ha hag
        exact hg ((of_decide_eq_true hag).symm.trans (hf g' a ha))
      have hmem : g ∈ g' :: groups ↔ g ∈ groups := by simp [hg]
      rw [hnone, List.nil_append, if_congr hmem rfl rfl]

/-- **The order of the groups does not matter**, nor do groups that hold nothing. -/
theorem sortBy_flatMap_congr {groups groups' : List γ} (hn : groups.Nodup) (hn' : groups'.Nodup)
    {f : γ → List α} (grp : α → γ) (hf : ∀ g, ∀ a ∈ f g, grp a = g)
    (hmem : ∀ g, f g ≠ [] → g ∈ groups ∧ g ∈ groups')
    (hkey : ∀ a b, key a = key b → grp a = grp b) :
    sortBy key (groups.flatMap f) = sortBy key (groups'.flatMap f) := by
  refine sortBy_congr fun k => ?_
  by_cases hk : ∃ g, ∃ a ∈ f g, key a = k
  · obtain ⟨g, a, ha, rfl⟩ := hk
    have hg := hf g a ha
    have hclass : ∀ l : List α, l.filter (fun b => key b = key a) =
        (l.filter fun b => grp b = g).filter fun b => key b = key a := by
      intro l
      rw [List.filter_filter]
      refine List.filter_congr fun b _ => ?_
      by_cases hb : key b = key a
      · simp [hb, (hkey b a hb).trans hg]
      · simp [hb]
    obtain ⟨hin, hin'⟩ := hmem g (List.ne_nil_of_mem ha)
    rw [hclass, hclass (groups'.flatMap f), filter_flatMap hn grp hf, filter_flatMap hn' grp hf,
      if_pos hin, if_pos hin']
  · have hnone : ∀ gs : List γ, (gs.flatMap f).filter (fun b => key b = k) = [] := by
      intro gs
      rw [List.filter_eq_nil_iff]
      intro a ha hak
      obtain ⟨g, -, ha⟩ := List.mem_flatMap.mp ha
      exact hk ⟨g, a, ha, of_decide_eq_true hak⟩
    rw [hnone, hnone]

/-- **A sorted list is its groups**, one after the other. -/
theorem flatMap_groups {l : List α} {key : α → ℕ} {n : ℕ} (hl : l.Pairwise fun a b => key a ≤ key b)
    (hn : ∀ a ∈ l, key a < n) :
    ((List.range n).flatMap fun i => l.filter fun a => key a = i) = l := by
  have hgroup : ∀ i, ∀ a ∈ l.filter fun a => key a = i, key a = i := fun i a ha => by
    simpa using (List.mem_filter.mp ha).2
  have hsorted : ((List.range n).flatMap fun i => l.filter fun a => key a = i).Pairwise
      fun a b => key a ≤ key b := by
    rw [List.pairwise_flatMap]
    refine ⟨fun i _ => hl.filter _, List.pairwise_lt_range.imp fun {i j} hij a ha b hb => ?_⟩
    rw [hgroup i a ha, hgroup j b hb]
    exact hij.le
  refine eq_of_classes hsorted hl fun i => ?_
  rw [filter_flatMap List.nodup_range key hgroup]
  by_cases hi : i < n
  · rw [if_pos (List.mem_range.mpr hi)]
  · rw [if_neg (by simpa using hi), eq_comm, List.filter_eq_nil_iff]
    intro a ha hai
    have := hn a ha
    have : key a = i := by simpa using hai
    omega

end Meridian.Grouping
