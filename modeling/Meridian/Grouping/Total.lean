import Mathlib.Algebra.BigOperators.Group.List.Basic
import Mathlib.Algebra.Order.BigOperators.Group.List
import Mathlib.Algebra.Order.Group.Abs
import Mathlib.Algebra.Order.Ring.Int

/-!
# Totals of a part, and of all groups

`total p f l` adds up `f` over the elements of `l` with `p`. It is a measure of the list: it splits
over `++`, does not see the order, and the totals of the groups under a key add up to the total of
the whole (`sum_groups`).
-/

namespace Meridian.Grouping

variable {α β κ : Type} {p q : α → Bool} {f g : α → Int} {l l' : List α}

/-- The sum of `f` over the elements with `p`. -/
def total (p : α → Bool) (f : α → Int) (l : List α) : Int := ((l.filter p).map f).sum

@[simp] theorem total_nil (p : α → Bool) (f : α → Int) : total p f [] = 0 := rfl

@[simp] theorem total_cons (p : α → Bool) (f : α → Int) (a : α) (l : List α) :
    total p f (a :: l) = (if p a then f a else 0) + total p f l := by
  unfold total
  by_cases h : p a = true
  · rw [List.filter_cons_of_pos h, if_pos h, List.map_cons, List.sum_cons]
  · rw [List.filter_cons_of_neg h, if_neg h, Int.zero_add]

@[simp] theorem total_append (p : α → Bool) (f : α → Int) (l l' : List α) :
    total p f (l ++ l') = total p f l + total p f l' := by
  unfold total
  rw [List.filter_append, List.map_append, List.sum_append]

theorem total_perm (h : l.Perm l') : total p f l = total p f l' := ((h.filter p).map f).sum_eq

theorem total_map (p : β → Bool) (f : β → Int) (g : α → β) (l : List α) :
    total p f (l.map g) = total (fun a => p (g a)) (fun a => f (g a)) l := by
  unfold total
  rw [List.filter_map, List.map_map]
  rfl

theorem total_filter (p q : α → Bool) (f : α → Int) (l : List α) :
    total p f (l.filter q) = total (fun a => p a && q a) f l := by
  unfold total
  rw [List.filter_filter]

theorem total_true (f : α → Int) (l : List α) : total (fun _ => true) f l = (l.map f).sum := by
  unfold total
  rw [List.filter_true]

theorem total_congr (h : ∀ a ∈ l, (if p a then f a else 0) = if q a then g a else 0) :
    total p f l = total q g l := by
  induction l with
  | nil => rfl
  | cons a l ih =>
    rw [total_cons, total_cons, h a List.mem_cons_self,
      ih fun b hb => h b (List.mem_cons_of_mem a hb)]

theorem total_sub (p : α → Bool) (f g : α → Int) (l : List α) :
    total p (fun a => f a - g a) l = total p f l - total p g l := by
  induction l with
  | nil => rfl
  | cons a l ih =>
    rw [total_cons, total_cons, total_cons, ih]
    split_ifs <;> omega

theorem total_nonneg (h : ∀ a ∈ l, p a = true → 0 ≤ f a) : 0 ≤ total p f l := by
  induction l with
  | nil => exact le_refl 0
  | cons a l ih =>
    have hrest := ih fun b hb => h b (List.mem_cons_of_mem a hb)
    rw [total_cons]
    by_cases hp : p a = true
    · have := h a List.mem_cons_self hp
      rw [if_pos hp]
      omega
    · rw [if_neg hp]
      omega

theorem total_le (hsub : ∀ a ∈ l, p a = true → q a = true) (h : ∀ a ∈ l, q a = true → 0 ≤ f a) :
    total p f l ≤ total q f l := by
  induction l with
  | nil => exact le_refl _
  | cons a l ih =>
    have hrest := ih (fun b hb => hsub b (List.mem_cons_of_mem a hb))
      fun b hb => h b (List.mem_cons_of_mem a hb)
    have ha := h a List.mem_cons_self
    rw [total_cons, total_cons]
    by_cases hp : p a = true
    · rw [if_pos hp, if_pos (hsub a List.mem_cons_self hp)]
      omega
    · rw [if_neg hp]
      split_ifs with hq
      · have := ha hq
        omega
      · omega

theorem abs_total_le (p : α → Bool) (f : α → Int) (l : List α) :
    |total p f l| ≤ total p (fun a => |f a|) l := by
  induction l with
  | nil => exact le_refl _
  | cons a l ih =>
    rw [total_cons, total_cons]
    refine (abs_add_le _ _).trans (add_le_add ?_ ih)
    split_ifs
    · exact le_refl _
    · exact (abs_zero (α := Int)).le

/-! ## Groups -/

theorem nodup_eraseDups [BEq κ] [LawfulBEq κ] (l : List κ) : l.eraseDups.Nodup := by
  induction hn : l.length using Nat.strong_induction_on generalizing l with
  | _ n ih =>
    cases l with
    | nil => exact List.nodup_nil
    | cons a l =>
      have hlen : (l.filter fun b => !b == a).length < n := by
        rw [← hn, List.length_cons]
        exact Nat.lt_succ_of_le (List.length_filter_le _ l)
      rw [List.eraseDups_cons]
      refine List.nodup_cons.mpr ⟨fun hmem => ?_, ih _ hlen _ rfl⟩
      have hne := (List.mem_filter.mp (List.mem_eraseDups.mp hmem)).2
      rw [beq_self_eq_true] at hne
      cases hne

section Groups

variable [DecidableEq κ] (key : α → κ) {keys : List κ}

/-- One element counts in the group of its key, once. -/
theorem sum_single (hkeys : keys.Nodup) (k : κ) (n : Int) :
    (keys.map fun k' => if k = k' then n else 0).sum = if k ∈ keys then n else 0 := by
  induction keys with
  | nil => rfl
  | cons k' keys ih =>
    obtain ⟨hnot, hrest⟩ := List.nodup_cons.mp hkeys
    rw [List.map_cons, List.sum_cons, ih hrest]
    by_cases h : k = k'
    · subst h
      rw [if_pos rfl, if_neg hnot, if_pos List.mem_cons_self, Int.add_zero]
    · have hmem : k ∈ k' :: keys ↔ k ∈ keys := by simp [h]
      rw [if_neg h, Int.zero_add, if_congr hmem rfl rfl]

/-- **The groups of some keys** add up to the total over the elements that have one of them. -/
theorem sum_groups (hkeys : keys.Nodup) (f : α → Int) (l : List α) :
    (keys.map fun k => total (fun a => key a = k) f l).sum =
      total (fun a => decide (key a ∈ keys)) f l := by
  induction l with
  | nil =>
    simp
  | cons a l ih =>
    have hsplit := List.sum_map_add (f := fun k => if key a = k then f a else 0)
      (g := fun k => total (fun a => decide (key a = k)) f l) (l := keys)
    simp only [total_cons, decide_eq_true_eq]
    rw [hsplit, ih, sum_single hkeys]

end Groups

/-! ## The whole -/

theorem sum_sub (f g : α → Int) (l : List α) :
    (l.map fun a => f a - g a).sum = (l.map f).sum - (l.map g).sum := by
  rw [← total_true, ← total_true, ← total_true]
  exact total_sub _ f g l

theorem abs_sum_le (f : α → Int) (l : List α) : |(l.map f).sum| ≤ (l.map fun a => |f a|).sum := by
  rw [← total_true, ← total_true]
  exact abs_total_le _ f l

end Meridian.Grouping
