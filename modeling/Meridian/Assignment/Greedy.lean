import Meridian.Python.Sorted

/-!
# Greedy one-to-one assignment

Rows are served in order; each claims the best-ranked candidate still free that it is compatible
with, the first of the best. `assign` returns the pairs and what is left over on either side.

* `assign_left`, `assign_right`: every row and every candidate ends up in exactly one place.
* `assign_maximal`: nothing compatible is left over on both sides.
* `assign_left_after`, `assign_claimed_after`: what a row does without, or ranks before what it
  got, is claimed by rows served before it.
* `assign_filter`: a part of the rows and candidates that no compatible pair leaves is assigned as
  if it were alone.
* `assign_congr`: only the compatibility and the ranking among the given rows and candidates count.
* `assign_complete`: when the rows can be given the candidates' slots, one to one, so that each row
  ranks every candidate of its slot before those of later rows' slots, nothing is left over.
-/

namespace Meridian.Assignment

open Python

variable {α β κ : Type} [LinearOrder κ]

/-- The pairs of an assignment and what is left over on either side. -/
structure Assigned (α β : Type) where
  pairs : List (α × β)
  left : List α
  right : List β
  deriving DecidableEq

namespace Assigned

/-- The row goes without. -/
def pass (l : α) (a : Assigned α β) : Assigned α β := ⟨a.pairs, l :: a.left, a.right⟩

/-- The row claims the candidate. -/
def claim (l : α) (c : β) (a : Assigned α β) : Assigned α β := ⟨(l, c) :: a.pairs, a.left, a.right⟩

end Assigned

/-- Serve the rows in order. -/
def assign [DecidableEq β] (ok : α → β → Bool) (rank : α → β → κ) :
    List α → List β → Assigned α β
  | [], cs => ⟨[], [], cs⟩
  | l :: ls, cs =>
    match minBy (rank l) (cs.filter (ok l)) with
    | none => (assign ok rank ls cs).pass l
    | some c => (assign ok rank ls (cs.erase c)).claim l c

variable {ok ok' : α → β → Bool} {rank rank' : α → β → κ} {l : α} {ls : List α} {c : β}
  {cs : List β}

/-! ## One row -/

/-- The candidate a row claims is free and compatible, and none is ranked before it. -/
theorem claimed_spec (h : minBy (rank l) (cs.filter (ok l)) = some c) :
    c ∈ cs ∧ ok l c = true ∧ ∀ c' ∈ cs, ok l c' = true → rank l c ≤ rank l c' := by
  obtain ⟨hc, hok⟩ := List.mem_filter.mp (minBy_mem h)
  exact ⟨hc, hok, fun c' hc' hok' => minBy_le h (List.mem_filter.mpr ⟨hc', hok'⟩)⟩

/-- A row goes without only when no free candidate is compatible. -/
theorem unclaimed_spec (h : minBy (rank l) (cs.filter (ok l)) = none) :
    ∀ c ∈ cs, ok l c = false := by
  intro c hc
  by_contra hok
  have hmem : c ∈ cs.filter (ok l) := List.mem_filter.mpr ⟨hc, by simpa using hok⟩
  rw [minBy_eq_none.mp h] at hmem
  cases hmem

variable [DecidableEq β]

theorem assign_cons_none (h : minBy (rank l) (cs.filter (ok l)) = none) :
    assign ok rank (l :: ls) cs = (assign ok rank ls cs).pass l := by rw [assign, h]

theorem assign_cons_some (h : minBy (rank l) (cs.filter (ok l)) = some c) :
    assign ok rank (l :: ls) cs = (assign ok rank ls (cs.erase c)).claim l c := by rw [assign, h]

/-! ## Where everything ends up -/

theorem assign_left (ok : α → β → Bool) (rank : α → β → κ) (ls : List α) (cs : List β) :
    ((assign ok rank ls cs).pairs.map Prod.fst ++ (assign ok rank ls cs).left).Perm ls := by
  induction ls generalizing cs with
  | nil => exact .refl _
  | cons l ls ih =>
    cases h : minBy (rank l) (cs.filter (ok l)) with
    | none =>
      rw [assign_cons_none h]
      exact List.perm_middle.trans ((ih cs).cons l)
    | some c =>
      rw [assign_cons_some h]
      exact (ih (cs.erase c)).cons l

theorem assign_right (ok : α → β → Bool) (rank : α → β → κ) (ls : List α) (cs : List β) :
    ((assign ok rank ls cs).pairs.map Prod.snd ++ (assign ok rank ls cs).right).Perm cs := by
  induction ls generalizing cs with
  | nil => exact .refl _
  | cons l ls ih =>
    cases h : minBy (rank l) (cs.filter (ok l)) with
    | none =>
      rw [assign_cons_none h]
      exact ih cs
    | some c =>
      rw [assign_cons_some h]
      exact ((ih (cs.erase c)).cons c).trans (List.perm_cons_erase (claimed_spec h).1).symm

theorem assign_pairs {x : α × β} (h : x ∈ (assign ok rank ls cs).pairs) : ok x.1 x.2 = true := by
  induction ls generalizing cs with
  | nil => cases h
  | cons l ls ih =>
    cases hc : minBy (rank l) (cs.filter (ok l)) with
    | none =>
      rw [assign_cons_none hc] at h
      exact ih h
    | some c =>
      rw [assign_cons_some hc] at h
      rcases List.mem_cons.mp h with rfl | h
      · exact (claimed_spec hc).2.1
      · exact ih h

theorem mem_of_mem_left (h : l ∈ (assign ok rank ls cs).left) : l ∈ ls :=
  (assign_left ok rank ls cs).mem_iff.mp (List.mem_append_right _ h)

theorem mem_of_mem_right (h : c ∈ (assign ok rank ls cs).right) : c ∈ cs :=
  (assign_right ok rank ls cs).mem_iff.mp (List.mem_append_right _ h)

theorem mem_of_mem_pairs {x : α × β} (h : x ∈ (assign ok rank ls cs).pairs) :
    x.1 ∈ ls ∧ x.2 ∈ cs :=
  ⟨(assign_left ok rank ls cs).mem_iff.mp (List.mem_append_left _ (List.mem_map_of_mem h)),
    (assign_right ok rank ls cs).mem_iff.mp (List.mem_append_left _ (List.mem_map_of_mem h))⟩

/-! ## Who goes without, and who comes first -/

/-- **Nothing compatible is left over on both sides.** -/
theorem assign_maximal (hl : l ∈ (assign ok rank ls cs).left)
    (hc : c ∈ (assign ok rank ls cs).right) : ok l c = false := by
  induction ls generalizing cs with
  | nil => cases hl
  | cons l' ls ih =>
    cases h : minBy (rank l') (cs.filter (ok l')) with
    | none =>
      rw [assign_cons_none h] at hl hc
      rcases List.mem_cons.mp hl with rfl | hl
      · exact unclaimed_spec h c (mem_of_mem_right hc)
      · exact ih hl hc
    | some c' =>
      rw [assign_cons_some h] at hl hc
      exact ih hl hc

/-- A paired row ranks nothing that is left over before its own candidate. -/
theorem assign_best {x : α × β} (hx : x ∈ (assign ok rank ls cs).pairs)
    (hc : c ∈ (assign ok rank ls cs).right) (hok : ok x.1 c = true) :
    rank x.1 x.2 ≤ rank x.1 c := by
  induction ls generalizing cs with
  | nil => cases hx
  | cons l ls ih =>
    cases h : minBy (rank l) (cs.filter (ok l)) with
    | none =>
      rw [assign_cons_none h] at hx hc
      exact ih hx hc
    | some c' =>
      rw [assign_cons_some h] at hx hc
      rcases List.mem_cons.mp hx with rfl | hx
      · exact (claimed_spec h).2.2 c (List.mem_of_mem_erase (mem_of_mem_right hc)) hok
      · exact ih hx hc

/-- What a row that goes without could have had is claimed by rows served before it. -/
theorem assign_left_after {r : α → α → Prop} (hr : ls.Pairwise r) {x : α × β}
    (hl : l ∈ (assign ok rank ls cs).left) (hx : x ∈ (assign ok rank ls cs).pairs)
    (hok : ok l x.2 = true) : r x.1 l := by
  induction ls generalizing cs with
  | nil => cases hl
  | cons l' ls ih =>
    obtain ⟨hfirst, hr⟩ := List.pairwise_cons.mp hr
    cases h : minBy (rank l') (cs.filter (ok l')) with
    | none =>
      rw [assign_cons_none h] at hl hx
      rcases List.mem_cons.mp hl with rfl | hl
      · rw [unclaimed_spec h x.2 (mem_of_mem_pairs hx).2] at hok
        cases hok
      · exact ih hr hl hx
    | some c =>
      rw [assign_cons_some h] at hl hx
      rcases List.mem_cons.mp hx with rfl | hx
      · exact hfirst l (mem_of_mem_left hl)
      · exact ih hr hl hx

/-- What a paired row ranks before its own candidate is claimed by rows served before it. -/
theorem assign_claimed_after {r : α → α → Prop} (hr : ls.Pairwise r) {x y : α × β}
    (hx : x ∈ (assign ok rank ls cs).pairs) (hy : y ∈ (assign ok rank ls cs).pairs)
    (hok : ok x.1 y.2 = true) (hlt : rank x.1 y.2 < rank x.1 x.2) : r y.1 x.1 := by
  induction ls generalizing cs with
  | nil => cases hx
  | cons l ls ih =>
    obtain ⟨hfirst, hr⟩ := List.pairwise_cons.mp hr
    cases h : minBy (rank l) (cs.filter (ok l)) with
    | none =>
      rw [assign_cons_none h] at hx hy
      exact ih hr hx hy
    | some c =>
      rw [assign_cons_some h] at hx hy
      rcases List.mem_cons.mp hx with rfl | hx
      · have hmem : y.2 ∈ cs := by
          rcases List.mem_cons.mp hy with rfl | hy
          · exact (claimed_spec h).1
          · exact List.mem_of_mem_erase (mem_of_mem_pairs hy).2
        exact absurd ((claimed_spec h).2.2 y.2 hmem hok) (not_le.mpr hlt)
      · rcases List.mem_cons.mp hy with rfl | hy
        · exact hfirst x.1 (mem_of_mem_pairs hx).1
        · exact ih hr hx hy

/-! ## A part on its own -/

/-- **A closed part is assigned as if it were alone.** -/
theorem assign_filter {p : α → Bool} {q : β → Bool}
    (hclosed : ∀ l ∈ ls, ∀ c ∈ cs, ok l c = true → p l = q c) :
    assign ok rank (ls.filter p) (cs.filter q) =
      ⟨(assign ok rank ls cs).pairs.filter fun x => p x.1,
        (assign ok rank ls cs).left.filter p, (assign ok rank ls cs).right.filter q⟩ := by
  induction ls generalizing cs with
  | nil => rfl
  | cons l ls ih =>
    have hl : ∀ c ∈ cs, ok l c = true → p l = q c := fun c hc => hclosed l List.mem_cons_self c hc
    have hls : ∀ l ∈ ls, ∀ c ∈ cs, ok l c = true → p l = q c :=
      fun l' hl' => hclosed l' (List.mem_cons_of_mem l hl')
    have herase : ∀ c, ∀ l ∈ ls, ∀ c' ∈ cs.erase c, ok l c' = true → p l = q c' :=
      fun c l' hl' c' hc' => hls l' hl' c' (List.mem_of_mem_erase hc')
    by_cases hp : p l = true
    · -- a row of the part sees the candidates of the part alone
      have hcand : (cs.filter q).filter (ok l) = cs.filter (ok l) := by
        rw [List.filter_filter]
        refine List.filter_congr fun c hc => ?_
        cases hok : ok l c with
        | false => rfl
        | true => rw [← hl c hc hok, hp]; rfl
      rw [List.filter_cons_of_pos hp]
      cases h : minBy (rank l) (cs.filter (ok l)) with
      | none =>
        rw [assign_cons_none h, assign_cons_none (by rw [hcand]; exact h), ih hls]
        simp [Assigned.pass, hp]
      | some c =>
        rw [assign_cons_some h, assign_cons_some (by rw [hcand]; exact h), List.erase_filter,
          ih (herase c)]
        simp [Assigned.claim, hp]
    · -- a row outside of it takes nothing from the part
      rw [List.filter_cons_of_neg hp]
      cases h : minBy (rank l) (cs.filter (ok l)) with
      | none =>
        rw [assign_cons_none h, ih hls]
        simp [Assigned.pass, hp]
      | some c =>
        obtain ⟨hc, hok, -⟩ := claimed_spec h
        have hq : q c = false := by
          rw [← hl c hc hok]
          simpa using hp
        have hsame : (cs.erase c).filter q = cs.filter q := by
          rw [← List.erase_filter, List.erase_of_not_mem fun hmem => ?_]
          rw [(List.mem_filter.mp hmem).2] at hq
          cases hq
        rw [assign_cons_some h, ← hsame, ih (herase c)]
        simp [Assigned.claim, hp]

theorem assign_congr (hok : ∀ l ∈ ls, ∀ c ∈ cs, ok l c = ok' l c)
    (hrank : ∀ l ∈ ls, ∀ c ∈ cs, rank l c = rank' l c) :
    assign ok rank ls cs = assign ok' rank' ls cs := by
  induction ls generalizing cs with
  | nil => rfl
  | cons l ls ih =>
    have hcand : cs.filter (ok l) = cs.filter (ok' l) :=
      List.filter_congr (hok l List.mem_cons_self)
    have hmin : minBy (rank l) (cs.filter (ok l)) = minBy (rank' l) (cs.filter (ok' l)) := by
      rw [← hcand]
      exact minBy_congr fun c hc => hrank l List.mem_cons_self c (List.mem_filter.mp hc).1
    have hrest : ∀ cs', cs' ⊆ cs → assign ok rank ls cs' = assign ok' rank' ls cs' :=
      fun cs' hsub => ih (fun l' hl' c hc => hok l' (List.mem_cons_of_mem l hl') c (hsub hc))
        fun l' hl' c hc => hrank l' (List.mem_cons_of_mem l hl') c (hsub hc)
    cases h : minBy (rank l) (cs.filter (ok l)) with
    | none =>
      rw [assign_cons_none h, assign_cons_none (hmin.symm.trans h), hrest cs (List.Subset.refl cs)]
    | some c =>
      rw [assign_cons_some h, assign_cons_some (hmin.symm.trans h),
        hrest _ (List.erase_subset)]

/-! ## A complete assignment -/

/-- **Nothing is left over** when there is a plan: a slot for every row, the candidates' slots one
to one, each row compatible with the candidates of its slot and ranking them before those of the
slots of later rows. -/
theorem assign_complete {γ : Type} (slot : β → γ) (plan : List (α × γ))
    (hrows : plan.map Prod.fst = ls) (hslots : (plan.map Prod.snd).Perm (cs.map slot))
    (hok : ∀ x ∈ plan, ∀ c ∈ cs, slot c = x.2 → ok x.1 c = true)
    (hbest : plan.Pairwise fun x x' => x'.2 ≠ x.2 → ∀ c ∈ cs, slot c = x.2 →
      ∀ c' ∈ cs, slot c' = x'.2 → ok x.1 c' = true → rank x.1 c < rank x.1 c') :
    (assign ok rank ls cs).left = [] ∧ (assign ok rank ls cs).right = [] := by
  subst hrows
  induction plan generalizing cs with
  | nil => exact ⟨rfl, List.map_eq_nil_iff.mp hslots.symm.eq_nil⟩
  | cons y plan ih =>
    obtain ⟨hfirst, hlater⟩ := List.pairwise_cons.mp hbest
    -- the row's slot has a candidate, so the row claims one, and of that slot
    obtain ⟨c₀, hc₀, hs₀⟩ := List.mem_map.mp (hslots.mem_iff.mp List.mem_cons_self)
    have hok₀ := hok y List.mem_cons_self c₀ hc₀ hs₀
    cases h : minBy (rank y.1) (cs.filter (ok y.1)) with
    | none =>
      rw [unclaimed_spec h c₀ hc₀] at hok₀
      cases hok₀
    | some c =>
      obtain ⟨hc, hokc, hle⟩ := claimed_spec h
      have hs : slot c = y.2 := by
        by_contra hne
        obtain ⟨x, hx, hxs⟩ := List.mem_map.mp (hslots.mem_iff.mpr (List.mem_map_of_mem hc))
        rcases List.mem_cons.mp hx with rfl | hx
        · exact hne hxs.symm
        · exact absurd (hle c₀ hc₀ hok₀)
            (not_le.mpr (hfirst x hx (hxs ▸ hne) c₀ hc₀ hs₀ c hc hxs.symm hokc))
      have hsub : ∀ c' ∈ cs.erase c, c' ∈ cs := fun c' => List.mem_of_mem_erase
      rw [List.map_cons, assign_cons_some h]
      refine ih ?_ (fun x hx c' hc' => hok x (List.mem_cons_of_mem y hx) c' (hsub c' hc')) ?_
      · have hcs := (List.perm_cons_erase hc).map slot
        rw [List.map_cons, hs] at hcs
        exact (hslots.trans hcs).cons_inv
      · exact hlater.imp fun hxx hne c' hc' hs' d hd => hxx hne c' (hsub c' hc') hs' d (hsub d hd)

end Meridian.Assignment
