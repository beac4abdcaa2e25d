import Mathlib.Data.Char
import Mathlib.Data.List.Lex
import Mathlib.Data.List.Sort
import Mathlib.Data.Prod.Lex

/-!
# `sorted` and `min` by a key

`sortBy key` is `sorted(…, key=…)`: stable, ascending. A tuple key is a value of a lexicographic
product. `minBy key` is `min(…, key=…)`, the first of the least. When the key tells the elements
apart, a sorted list is determined by what it holds (`eq_of_sorted`); otherwise the elements of each
key keep their order, which determines it (`sortBy_congr`).
-/

namespace Meridian.Python

variable {α κ : Type} [LinearOrder κ] {key : α → κ}

/-- `sorted(l, key=key)`. -/
def sortBy (key : α → κ) (l : List α) : List α := l.insertionSort fun a b => key a ≤ key b

/-- `min(l, key=key)`: the first of the least, none of an empty list. -/
def minBy (key : α → κ) : List α → Option α
  | [] => none
  | a :: l =>
    match minBy key l with
    | none => some a
    | some b => if key a ≤ key b then some a else some b

theorem sortBy_perm (key : α → κ) (l : List α) : (sortBy key l).Perm l :=
  List.perm_insertionSort _ l

@[simp] theorem mem_sortBy (key : α → κ) {l : List α} {a : α} : a ∈ sortBy key l ↔ a ∈ l :=
  (sortBy_perm key l).mem_iff

theorem sortBy_pairwise (key : α → κ) (l : List α) :
    (sortBy key l).Pairwise fun a b => key a ≤ key b := by
  have : Std.Total fun a b : α => key a ≤ key b := ⟨fun a b => le_total _ _⟩
  have : IsTrans α fun a b => key a ≤ key b := ⟨fun a b c => le_trans⟩
  exact List.pairwise_insertionSort _ l

/-- Two sorted lists of the same elements are one list, when the key tells the elements apart. -/
theorem eq_of_sorted {l l' : List α} (hp : l.Perm l') (hl : l.Pairwise fun a b => key a ≤ key b)
    (hl' : l'.Pairwise fun a b => key a ≤ key b)
    (hkey : ∀ a ∈ l, ∀ b ∈ l, key a = key b → a = b) : l = l' :=
  hp.eq_of_pairwise (fun a b ha hb h h' => hkey a ha b (hp.mem_iff.mpr hb) (le_antisymm h h'))
    hl hl'

/-- What a sorted list holds of a part is decided by the part and its keys. -/
theorem filter_sortBy {key' : α → κ} {l l' : List α} {p : α → Bool}
    (hp : (l.filter p).Perm (l'.filter p)) (hkey : ∀ a ∈ l.filter p, key a = key' a)
    (hinj : ∀ a ∈ l.filter p, ∀ b ∈ l.filter p, key a = key b → a = b) :
    (sortBy key l).filter p = (sortBy key' l').filter p := by
  have hl := (sortBy_perm key l).filter p
  have hs := (sortBy_pairwise key l).filter p
  have hl' := (sortBy_perm key' l').filter p
  have hmem : ∀ a ∈ (sortBy key' l').filter p, a ∈ l.filter p :=
    fun a ha => hp.mem_iff.mpr (hl'.mem_iff.mp ha)
  refine eq_of_sorted (hl.trans (hp.trans hl'.symm)) hs ?_
    fun a ha b hb => hinj a (hl.mem_iff.mp ha) b (hl.mem_iff.mp hb)
  refine ((sortBy_pairwise key' l').filter p).imp_of_mem fun {a b} ha hb hle => ?_
  rw [hkey a (hmem a ha), hkey b (hmem b hb)]
  exact hle

/-! ## Stability -/

/-- Elements of one key keep their order. -/
theorem sortBy_class (key : α → κ) (l : List α) (k : κ) :
    (sortBy key l).filter (fun a => key a = k) = l.filter fun a => key a = k := by
  have : Std.Total fun a b : α => key a ≤ key b := ⟨fun a b => le_total _ _⟩
  have : IsTrans α fun a b => key a ≤ key b := ⟨fun a b c => le_trans⟩
  have hclass : (l.filter fun a => key a = k).Pairwise fun a b => key a ≤ key b := by
    refine List.pairwise_of_forall_mem_list fun a ha b hb => ?_
    have ha := (List.mem_filter.mp ha).2
    have hb := (List.mem_filter.mp hb).2
    simp only [decide_eq_true_eq] at ha hb
    rw [ha, hb]
  have hsub := (List.sublist_insertionSort (l := l) hclass List.filter_sublist).filter
    fun a => key a = k
  rw [List.filter_filter] at hsub
  simp only [Bool.and_self] at hsub
  exact (hsub.eq_of_length ((sortBy_perm key l).filter _).length_eq.symm).symm

/-- A sorted list is decided by the elements of each key, in order. -/
theorem eq_of_classes {l l' : List α} (hl : l.Pairwise fun a b => key a ≤ key b)
    (hl' : l'.Pairwise fun a b => key a ≤ key b)
    (h : ∀ k, l.filter (fun a => key a = k) = l'.filter fun a => key a = k) : l = l' := by
  have hmem : ∀ {l l' : List α} {a : α}, (∀ k, l.filter (fun a => key a = k) =
      l'.filter fun a => key a = k) → a ∈ l → a ∈ l' := fun {l l' a} h ha =>
    (List.mem_filter.mp (h (key a) ▸ List.mem_filter.mpr ⟨ha, by simp⟩)).1
  induction l generalizing l' with
  | nil =>
    cases l' with
    | nil => rfl
    | cons b l' => cases hmem (fun k => (h k).symm) List.mem_cons_self
  | cons a l ih =>
    cases l' with
    | nil => cases hmem h List.mem_cons_self
    | cons b l' =>
      obtain ⟨ha, htail⟩ := List.pairwise_cons.mp hl
      obtain ⟨hb, htail'⟩ := List.pairwise_cons.mp hl'
      -- the first elements have the least key, so they are the first of its class
      have hba : key b ≤ key a := by
        rcases List.mem_cons.mp (hmem h List.mem_cons_self) with heq | hin
        · rw [heq]
        · exact hb a hin
      have hab : key a ≤ key b := by
        rcases List.mem_cons.mp (hmem (fun k => (h k).symm) List.mem_cons_self) with heq | hin
        · rw [heq]
        · exact ha b hin
      have hkey := le_antisymm hab hba
      have hhead := h (key a)
      rw [List.filter_cons_of_pos (by simp), List.filter_cons_of_pos (by simp [hkey])] at hhead
      obtain ⟨rfl, -⟩ := List.cons.inj hhead
      congr 1
      refine ih htail htail' fun k => ?_
      have hk := h k
      by_cases hak : key a = k
      · rw [List.filter_cons_of_pos (by simpa using hak),
          List.filter_cons_of_pos (by simpa using hak)] at hk
        exact (List.cons.inj hk).2
      · rwa [List.filter_cons_of_neg (by simpa using hak),
          List.filter_cons_of_neg (by simpa using hak)] at hk

/-- **Sorting sees of a list** only the elements of each key, in order. -/
theorem sortBy_congr {l l' : List α}
    (h : ∀ k, l.filter (fun a => key a = k) = l'.filter fun a => key a = k) :
    sortBy key l = sortBy key l' :=
  eq_of_classes (sortBy_pairwise key l) (sortBy_pairwise key l') fun k => by
    rw [sortBy_class, sortBy_class, h]

/-- A part of a sorted list is the part, sorted. -/
theorem sortBy_filter (key : α → κ) (p : α → Bool) (l : List α) :
    (sortBy key l).filter p = sortBy key (l.filter p) := by
  refine eq_of_classes ((sortBy_pairwise key l).filter p) (sortBy_pairwise key _) fun k => ?_
  rw [List.filter_comm, sortBy_class, sortBy_class, List.filter_comm]

/-- When the key tells the elements apart, the order of a list does not matter. -/
theorem sortBy_of_perm {l l' : List α} (hp : l.Perm l')
    (hkey : ∀ a ∈ l, ∀ b ∈ l, key a = key b → a = b) : sortBy key l = sortBy key l' :=
  eq_of_sorted ((sortBy_perm key l).trans (hp.trans (sortBy_perm key l').symm))
    (sortBy_pairwise key l) (sortBy_pairwise key l') fun a ha b hb =>
      hkey a ((mem_sortBy key).mp ha) b ((mem_sortBy key).mp hb)

/-- Elements a key tells apart are sorted strictly. -/
theorem sortBy_strict {l : List α} (hl : l.Nodup)
    (hkey : ∀ a ∈ l, ∀ b ∈ l, key a = key b → a = b) :
    (sortBy key l).Pairwise fun a b => key a < key b := by
  have hnodup : (sortBy key l).Nodup := (sortBy_perm key l).nodup_iff.mpr hl
  refine ((sortBy_pairwise key l).and hnodup).imp_of_mem fun {a b} ha hb h => ?_
  refine lt_of_le_of_ne h.1 fun heq => h.2 ?_
  exact hkey a ((mem_sortBy key).mp ha) b ((mem_sortBy key).mp hb) heq

/-- What the key puts first comes first. -/
theorem filter_append_of_sorted {l : List α} {p : α → Bool}
    (hl : l.Pairwise fun a b => key a ≤ key b)
    (hp : ∀ a b, key a ≤ key b → p b = true → p a = true) :
    l = l.filter p ++ l.filter fun a => !p a := by
  induction l with
  | nil => rfl
  | cons a l ih =>
    obtain ⟨ha, hl⟩ := List.pairwise_cons.mp hl
    by_cases hpa : p a = true
    · rw [List.filter_cons_of_pos hpa, List.filter_cons_of_neg (by simp [hpa]), List.cons_append,
        ← ih hl]
    · have hnone : ∀ b ∈ l, ¬ p b = true := fun b hb hpb => hpa (hp a b (ha b hb) hpb)
      rw [List.filter_cons_of_neg hpa, List.filter_cons_of_pos (by simpa using hpa),
        List.filter_eq_nil_iff.mpr hnone, List.nil_append,
        List.filter_eq_self.mpr fun b hb => by simpa using hnone b hb]

/-! ## The least -/

theorem minBy_mem {l : List α} {a : α} (h : minBy key l = some a) : a ∈ l := by
  induction l generalizing a with
  | nil => cases h
  | cons b l ih =>
    unfold minBy at h
    split at h
    · cases h
      exact List.mem_cons_self
    · rename_i c hc
      split at h <;> cases h
      · exact List.mem_cons_self
      · exact List.mem_cons_of_mem _ (ih hc)

theorem minBy_eq_none {l : List α} : minBy key l = none ↔ l = [] := by
  cases l with
  | nil => exact ⟨fun _ => rfl, fun _ => rfl⟩
  | cons a l =>
    refine ⟨fun h => ?_, nofun⟩
    unfold minBy at h
    split at h
    · cases h
    · split at h <;> cases h

theorem minBy_le {l : List α} {a b : α} (h : minBy key l = some a) (hb : b ∈ l) :
    key a ≤ key b := by
  induction l generalizing a with
  | nil => cases hb
  | cons c l ih =>
    unfold minBy at h
    split at h
    · rename_i hnone
      cases h
      rcases List.mem_cons.mp hb with rfl | hb
      · exact le_refl _
      · rw [minBy_eq_none.mp hnone] at hb
        cases hb
    · rename_i d hd
      split at h <;> rename_i hle <;> cases h <;> rcases List.mem_cons.mp hb with rfl | hb
      · exact le_refl _
      · exact hle.trans (ih hd hb)
      · exact (not_le.mp hle).le
      · exact ih hd hb

theorem minBy_congr {key' : α → κ} {l : List α} (h : ∀ a ∈ l, key a = key' a) :
    minBy key l = minBy key' l := by
  induction l with
  | nil => rfl
  | cons a l ih =>
    have ih := ih fun b hb => h b (List.mem_cons_of_mem a hb)
    unfold minBy
    rw [← ih]
    cases hm : minBy key l with
    | none => rfl
    | some b =>
      simp only
      rw [h a List.mem_cons_self, h b (List.mem_cons_of_mem a (minBy_mem hm))]

/-- When the key tells the elements apart, the least does not depend on their order. -/
theorem minBy_of_perm {l l' : List α} (hp : l.Perm l')
    (hkey : ∀ a ∈ l, ∀ b ∈ l, key a = key b → a = b) : minBy key l = minBy key l' := by
  cases h : minBy key l with
  | none =>
    rw [minBy_eq_none.mp h] at hp
    rw [hp.nil_eq.symm]
    rfl
  | some a =>
    cases h' : minBy key l' with
    | none =>
      rw [minBy_eq_none.mp h'] at hp
      rw [hp.eq_nil] at h
      cases h
    | some b =>
      have hb := hp.mem_iff.mpr (minBy_mem h')
      rw [hkey a (minBy_mem h) b hb
        (le_antisymm (minBy_le h hb) (minBy_le h' (hp.mem_iff.mp (minBy_mem h))))]

end Meridian.Python
