import Mathlib.Data.List.Basic
import Mathlib.Order.Basic

/-!
# Backtracking regular expressions

A `Pattern` over an alphabet, with the meaning a backtracking matcher gives it: `ends r s` lists the
cursors that `r` may leave `s` at, in the order they are tried, so the first of them is the match
that is found. A greedy repetition tries more rounds first, a lazy one fewer; a round that consumes
nothing is not repeated.

A cursor is what is left of the text, the element before it and the groups captured so far.

* `ends_leads`: a match consumes the text between its cursors.
* `mem_rep_one`, `mem_group`, `get_of_mem`: what a match of each form is.
* `ends_run`: a run of a class that what follows cannot start with is maximal.
* `ends_chain`: a repetition whose rounds leave no choice.
-/

namespace Meridian.Regex

variable {α : Type}

inductive Pattern (α : Type)
  /-- One element of a class. -/
  | one (p : α → Bool)
  | empty
  | cat (r q : Pattern α)
  /-- `r|q` -/
  | alt (r q : Pattern α)
  /-- `r{least,most}`, lazy when not `greedy`; without `most` there is no bound. -/
  | rep (greedy : Bool) (least : ℕ) (most : Option ℕ) (r : Pattern α)
  /-- A captured group. -/
  | group (k : ℕ) (r : Pattern α)
  /-- The text of a group once more. -/
  | same (k : ℕ)
  /-- `(?=r)` -/
  | ahead (r : Pattern α)
  /-- `(?!r)` -/
  | notAhead (r : Pattern α)
  /-- `\b`, `w` being what words are made of. -/
  | edge (w : α → Bool)
  /-- `$`: the end, or the place before a last element of the class. -/
  | atEnd (p : α → Bool)

structure Cursor (α : Type) where
  prev : Option α
  after : List α
  groups : List (ℕ × List α)

namespace Cursor

/-- The cursor `n` elements on. -/
def skip (s : Cursor α) (n : ℕ) : Cursor α :=
  ⟨((s.after.take n).getLast?).or s.prev, s.after.drop n, s.groups⟩

/-- What has been consumed from `s` to `t`. -/
def since (t s : Cursor α) : List α := s.after.take (s.after.length - t.after.length)

/-- The group `k` is what has been consumed since `s`. -/
def capture (t : Cursor α) (k : ℕ) (s : Cursor α) : Cursor α :=
  { t with groups := (k, t.since s) :: t.groups }

def get (s : Cursor α) (k : ℕ) : Option (List α) := s.groups.lookup k

end Cursor

/-- Exactly `n` rounds. -/
def exactly (f : Cursor α → List (Cursor α)) : ℕ → Cursor α → List (Cursor α)
  | 0, s => [s]
  | n + 1, s => (f s).flatMap (exactly f n)

/-- At most `n` rounds, each of which consumes something. -/
def upTo (f : Cursor α → List (Cursor α)) (greedy : Bool) : ℕ → Cursor α → List (Cursor α)
  | 0, s => [s]
  | n + 1, s =>
    let more := ((f s).filter fun t => t.after.length < s.after.length).flatMap (upTo f greedy n)
    if greedy then more ++ [s] else s :: more

/-! ## What is consumed -/

/-- `w` stands between two cursors. -/
structure Leads (s t : Cursor α) (w : List α) : Prop where
  after : s.after = w ++ t.after
  prev : t.prev = w.getLast?.or s.prev

section Leads

variable {s t u : Cursor α} {v w : List α}

@[simp] theorem leads_nil (s : Cursor α) : Leads s s [] := ⟨rfl, by simp⟩

theorem Leads.trans (h : Leads s t v) (h' : Leads t u w) : Leads s u (v ++ w) :=
  ⟨by rw [h.after, h'.after, List.append_assoc], by
    rw [h'.prev, h.prev, List.getLast?_append, Option.or_assoc]⟩

theorem Leads.since (h : Leads s t w) : t.since s = w := by
  unfold Cursor.since
  rw [h.after]
  simp

theorem Leads.length (h : Leads s t w) : s.after.length = w.length + t.after.length := by
  rw [h.after, List.length_append]

/-- Groups do not count. -/
theorem Leads.congr (h : Leads s t w) (hafter : u.after = t.after) (hprev : u.prev = t.prev) :
    Leads s u w :=
  ⟨by rw [hafter]; exact h.after, by rw [hprev]; exact h.prev⟩

/-- What is consumed can be cut in two. -/
theorem Leads.split (h : Leads s t (v ++ w)) (groups : List (ℕ × List α)) :
    ∃ u, Leads s u v ∧ Leads u t w ∧ u.groups = groups := by
  refine ⟨⟨v.getLast?.or s.prev, w ++ t.after, groups⟩, ⟨?_, rfl⟩, ⟨rfl, ?_⟩, rfl⟩
  · rw [h.after, List.append_assoc]
  · rw [h.prev, List.getLast?_append, Option.or_assoc]

theorem leads_skip {n : ℕ} : Leads s (s.skip n) (s.after.take n) :=
  ⟨(List.take_append_drop n s.after).symm, rfl⟩

/-- `w` stands between two cursors, and no group is captured in it. -/
structure Takes (s t : Cursor α) (w : List α) : Prop extends Leads s t w where
  groups : t.groups = s.groups

@[simp] theorem takes_nil (s : Cursor α) : Takes s s [] := ⟨leads_nil s, rfl⟩

theorem Takes.trans (h : Takes s t v) (h' : Takes t u w) : Takes s u (v ++ w) :=
  ⟨h.toLeads.trans h'.toLeads, h'.groups.trans h.groups⟩

theorem Takes.eq (h : Takes s t w) (h' : Takes s u w) : t = u := by
  have hafter : t.after = u.after :=
    List.append_cancel_left (h.after.symm.trans h'.after)
  have hprev := h.prev.trans h'.prev.symm
  have hgroups := h.groups.trans h'.groups.symm
  cases t
  cases u
  simp_all

theorem Takes.split (h : Takes s t (v ++ w)) : ∃ u, Takes s u v ∧ Takes u t w := by
  obtain ⟨u, hv, hw, hgroups⟩ := h.toLeads.split s.groups
  exact ⟨u, ⟨hv, hgroups⟩, ⟨hw, h.groups.trans hgroups.symm⟩⟩

end Leads

section Run

variable {p : α → Bool} {s : Cursor α} {a : α} {rest : List α}

/-- The length of the run of the class that a cursor is in front of. -/
def run (p : α → Bool) (s : Cursor α) : ℕ := (s.after.takeWhile p).length

@[simp] theorem skip_zero (s : Cursor α) : s.skip 0 = s := by simp [Cursor.skip]

theorem skip_cons (hs : s.after = a :: rest) (n : ℕ) :
    s.skip (n + 1) = Cursor.skip ⟨some a, rest, s.groups⟩ n := by
  unfold Cursor.skip
  rw [hs, List.take_succ_cons, List.getLast?_cons, List.drop_succ_cons]
  cases (rest.take n).getLast? <;> rfl

theorem run_cons (hs : s.after = a :: rest) (ha : p a = true) :
    run p s = run p ⟨some a, rest, s.groups⟩ + 1 := by
  unfold run
  rw [hs, List.takeWhile_cons_of_pos ha]
  rfl

theorem run_of_not (h : ∀ a ∈ s.after.head?, p a = false) : run p s = 0 := by
  unfold run
  cases hs : s.after with
  | nil => rfl
  | cons a rest => rw [List.takeWhile_cons_of_neg (by simp [h a (by rw [hs]; rfl)]), List.length_nil]

/-- A cursor is in front of an element of the class or not. -/
theorem run_cases (p : α → Bool) (s : Cursor α) : (∃ a rest, s.after = a :: rest ∧ p a = true) ∨
    ∀ a ∈ s.after.head?, p a = false := by
  cases hs : s.after with
  | nil => exact .inr (by simp)
  | cons a rest =>
    cases ha : p a with
    | true => exact .inl ⟨a, rest, rfl, ha⟩
    | false => exact .inr (by simpa using ha)

theorem skip_of_nil (hs : s.after = []) (n : ℕ) : s.skip n = s := by
  unfold Cursor.skip
  rw [hs]
  cases s
  simp_all

theorem skip_skip (s : Cursor α) (m n : ℕ) : (s.skip m).skip n = s.skip (m + n) := by
  induction m generalizing s with
  | zero => rw [skip_zero, Nat.zero_add]
  | succ m ih =>
    cases hs : s.after with
    | nil => rw [skip_of_nil hs, skip_of_nil hs, skip_of_nil hs]
    | cons a rest =>
      have hadd : m + 1 + n = m + n + 1 := by omega
      rw [skip_cons hs, ih, hadd, skip_cons hs]

theorem run_skip {m : ℕ} (h : m ≤ run p s) : run p (s.skip m) = run p s - m := by
  induction m generalizing s with
  | zero => rw [skip_zero, Nat.sub_zero]
  | succ m ih =>
    rcases run_cases p s with ⟨a, rest, hs, ha⟩ | hstop
    · rw [run_cons hs ha] at h
      rw [skip_cons hs, ih (by omega), run_cons hs ha]
      omega
    · rw [run_of_not hstop] at h
      omega

theorem run_le (p : α → Bool) (s : Cursor α) : run p s ≤ s.after.length :=
  (List.takeWhile_prefix p).length_le

end Run

/-- The cursors a step leads to, one after the other, at most `n` steps on. -/
def chain (g : Cursor α → Option (Cursor α)) : ℕ → Cursor α → List (Cursor α)
  | 0, s => [s]
  | n + 1, s => s :: (g s).elim [] (chain g n)

section Rounds

variable {f : Cursor α → List (Cursor α)} {g : Cursor α → Option (Cursor α)} {R : Cursor α → Cursor α → Prop} {greedy : Bool}

theorem exactly_induct (hrefl : ∀ s, R s s) (htrans : ∀ s t u, R s t → R t u → R s u)
    (hf : ∀ s, ∀ t ∈ f s, R s t) (n : ℕ) {s t : Cursor α} (h : t ∈ exactly f n s) : R s t := by
  induction n generalizing s with
  | zero =>
    rw [List.mem_singleton.mp h]
    exact hrefl s
  | succ n ih =>
    obtain ⟨u, hu, h⟩ := List.mem_flatMap.mp h
    exact htrans s u t (hf s u hu) (ih h)

/-- Another round, or none. -/
theorem mem_upTo_succ {n : ℕ} {s t : Cursor α} (h : t ∈ upTo f greedy (n + 1) s) :
    (∃ u ∈ f s, t ∈ upTo f greedy n u) ∨ t = s := by
  have hmore : t ∈ ((f s).filter fun t => t.after.length < s.after.length).flatMap
      (upTo f greedy n) ∨ t = s := by
    unfold upTo at h
    cases greedy with
    | false => exact (List.mem_cons.mp h).symm
    | true => exact (List.mem_append.mp h).imp_right List.mem_singleton.mp
  refine hmore.imp_left fun h => ?_
  obtain ⟨u, hu, h⟩ := List.mem_flatMap.mp h
  exact ⟨u, List.mem_of_mem_filter hu, h⟩

theorem upTo_induct (hrefl : ∀ s, R s s) (htrans : ∀ s t u, R s t → R t u → R s u)
    (hf : ∀ s, ∀ t ∈ f s, R s t) (n : ℕ) {s t : Cursor α} (h : t ∈ upTo f greedy n s) : R s t := by
  induction n generalizing s with
  | zero =>
    rw [List.mem_singleton.mp h]
    exact hrefl s
  | succ n ih =>
    rcases mem_upTo_succ h with ⟨u, hu, h⟩ | rfl
    · exact htrans s u t (hf s u hu) (ih h)
    · exact hrefl t

theorem upTo_chain (hf : ∀ s, f s = (g s).toList)
    (hg : ∀ s, ∀ t ∈ g s, t.after.length < s.after.length) (n : ℕ) (s : Cursor α) :
    upTo f true n s = (chain g n s).reverse := by
  induction n generalizing s with
  | zero => rfl
  | succ n ih =>
    rw [upTo, chain, hf]
    cases hs : g s with
    | none => rfl
    | some t =>
      have hlt := hg s t hs
      simp [hlt, ih]

end Rounds

/-! ## Matches -/

variable [DecidableEq α]

/-- The places a match from `s` may end at, in the order they are tried. -/
def ends : Pattern α → Cursor α → List (Cursor α)
  | .one p, s =>
    match s.after with
    | a :: t => if p a then [⟨some a, t, s.groups⟩] else []
    | [] => []
  | .empty, s => [s]
  | .cat r q, s => (ends r s).flatMap (ends q)
  | .alt r q, s => ends r s ++ ends q s
  | .rep greedy least most r, s =>
    (exactly (ends r) least s).flatMap fun t =>
      upTo (ends r) greedy (most.elim t.after.length (· - least)) t
  | .group k r, s => (ends r s).map fun t => t.capture k s
  | .same k, s =>
    match s.get k with
    | some w => if w.isPrefixOf s.after then [s.skip w.length] else []
    | none => []
  | .ahead r, s =>
    match ends r s with
    | t :: _ => [{ s with groups := t.groups }]
    | [] => []
  | .notAhead r, s => if (ends r s).isEmpty then [s] else []
  | .edge w, s => if s.prev.any w = s.after.head?.any w then [] else [s]
  | .atEnd p, s =>
    match s.after with
    | [] => [s]
    | [a] => if p a then [s] else []
    | _ => []

/-- The match found at `s`. -/
def matchAt (r : Pattern α) (s : Cursor α) : Option (Cursor α) := (ends r s).head?

/-- What each round keeps, a repetition keeps. -/
theorem rep_induct {R : Cursor α → Cursor α → Prop} {greedy : Bool} {least : ℕ} {most : Option ℕ}
    {r : Pattern α} (hrefl : ∀ s, R s s)
    (htrans : ∀ s t u, R s t → R t u → R s u) (hr : ∀ s, ∀ t ∈ ends r s, R s t) {s t : Cursor α}
    (h : t ∈ ends (.rep greedy least most r) s) : R s t := by
  obtain ⟨u, hu, h⟩ := List.mem_flatMap.mp h
  exact htrans s u t (exactly_induct hrefl htrans hr _ hu) (upTo_induct hrefl htrans hr _ h)

section Ends

variable {r q : Pattern α} {s t : Cursor α} {k : ℕ} {p : α → Bool}

theorem ends_cat (r q : Pattern α) (s : Cursor α) :
    ends (.cat r q) s = (ends r s).flatMap (ends q) := rfl

theorem ends_rep (greedy : Bool) (least : ℕ) (most : Option ℕ) (r : Pattern α) (s : Cursor α) :
    ends (.rep greedy least most r) s = (exactly (ends r) least s).flatMap fun t =>
      upTo (ends r) greedy (most.elim t.after.length (· - least)) t := rfl

theorem ends_one_of_not (h : ∀ a ∈ s.after.head?, p a = false) : ends (.one p) s = [] := by
  obtain ⟨prev, after, groups⟩ := s
  cases after with
  | nil => rfl
  | cons a rest => exact if_neg (by simp [h a rfl])

theorem ends_one {a : α} {rest : List α} (hs : s.after = a :: rest) (ha : p a = true) :
    ends (.one p) s = [⟨some a, rest, s.groups⟩] := by
  obtain ⟨prev, after, groups⟩ := s
  obtain rfl : after = a :: rest := hs
  exact if_pos ha

theorem mem_one : t ∈ ends (.one p) s ↔ ∃ a rest, s.after = a :: rest ∧ p a = true ∧
    t = ⟨some a, rest, s.groups⟩ := by
  rcases run_cases p s with ⟨a, rest, hs, ha⟩ | hstop
  · rw [ends_one hs ha, List.mem_singleton]
    constructor
    · exact fun ht => ⟨a, rest, hs, ha, ht⟩
    · rintro ⟨b, rest', hs', -, ht⟩
      cases hs.symm.trans hs'
      exact ht
  · rw [ends_one_of_not hstop]
    refine iff_of_false List.not_mem_nil ?_
    rintro ⟨a, rest, hs, ha, -⟩
    exact absurd (hstop a (by rw [hs]; rfl)) (by simp [ha])

theorem mem_empty : t ∈ ends .empty s ↔ t = s := List.mem_singleton

theorem mem_cat : t ∈ ends (.cat r q) s ↔ ∃ u ∈ ends r s, t ∈ ends q u := List.mem_flatMap

theorem mem_alt : t ∈ ends (.alt r q) s ↔ t ∈ ends r s ∨ t ∈ ends q s := List.mem_append

theorem mem_group : t ∈ ends (.group k r) s ↔ ∃ u ∈ ends r s, t = u.capture k s := by
  refine List.mem_map.trans ?_
  exact exists_congr fun u => and_congr_right fun _ => eq_comm

theorem mem_same : t ∈ ends (.same k) s ↔
    ∃ w, s.get k = some w ∧ w <+: s.after ∧ t = s.skip w.length := by
  change t ∈ (match s.get k with
    | some w => if w.isPrefixOf s.after then [s.skip w.length] else []
    | none => []) ↔ _
  cases s.get k with
  | none => simp
  | some w =>
    dsimp only
    by_cases hw : w <+: s.after
    · rw [if_pos (List.isPrefixOf_iff_prefix.mpr hw), List.mem_singleton]
      simp [hw]
    · rw [if_neg fun h => hw (List.isPrefixOf_iff_prefix.mp h)]
      simp [hw]

theorem mem_ahead : t ∈ ends (.ahead r) s ↔
    ∃ u ∈ (ends r s).head?, t = ⟨s.prev, s.after, u.groups⟩ := by
  change t ∈ (match ends r s with
    | u :: _ => [(⟨s.prev, s.after, u.groups⟩ : Cursor α)]
    | [] => []) ↔ _
  cases ends r s <;> simp

theorem mem_notAhead : t ∈ ends (.notAhead r) s ↔ t = s ∧ ends r s = [] := by
  change t ∈ (if (ends r s).isEmpty then [s] else []) ↔ _
  cases ends r s <;> simp

theorem mem_edge {w : α → Bool} :
    t ∈ ends (.edge w) s ↔ t = s ∧ s.prev.any w ≠ s.after.head?.any w := by
  change t ∈ (if s.prev.any w = s.after.head?.any w then [] else [s]) ↔ _
  split_ifs with h <;> simp [h]

theorem eq_of_mem_atEnd (h : t ∈ ends (.atEnd p) s) : t = s := by
  rcases s with ⟨prev, _ | ⟨a, _ | ⟨b, rest⟩⟩, groups⟩
  · exact List.mem_singleton.mp h
  · change t ∈ (if p a = true then [(⟨prev, [a], groups⟩ : Cursor α)] else []) at h
    split_ifs at h
    · exact List.mem_singleton.mp h
    · exact absurd h List.not_mem_nil
  · exact absurd h List.not_mem_nil

/-- A match consumes the text between its cursors. -/
theorem ends_leads (h : t ∈ ends r s) : ∃ w, Leads s t w := by
  induction r generalizing s t with
  | one p =>
    obtain ⟨a, rest, hs, -, rfl⟩ := mem_one.mp h
    exact ⟨[a], hs, by simp⟩
  | empty =>
    rw [List.mem_singleton.mp h]
    exact ⟨[], leads_nil s⟩
  | cat r q ihr ihq =>
    obtain ⟨u, hu, h⟩ := List.mem_flatMap.mp h
    obtain ⟨v, hv⟩ := ihr hu
    obtain ⟨w, hw⟩ := ihq h
    exact ⟨v ++ w, hv.trans hw⟩
  | alt r q ihr ihq => exact (List.mem_append.mp h).elim ihr ihq
  | rep greedy least most r ih =>
    refine rep_induct (R := fun s t => ∃ w, Leads s t w) (fun s => ⟨[], leads_nil s⟩) ?_
      (fun _ _ => ih) h
    rintro s t u ⟨v, hv⟩ ⟨w, hw⟩
    exact ⟨v ++ w, hv.trans hw⟩
  | group k r ih =>
    obtain ⟨u, hu, rfl⟩ := mem_group.mp h
    obtain ⟨w, hw⟩ := ih hu
    exact ⟨w, hw.congr rfl rfl⟩
  | same k =>
    obtain ⟨w, -, -, rfl⟩ := mem_same.mp h
    exact ⟨_, leads_skip⟩
  | ahead r ih =>
    obtain ⟨u, -, rfl⟩ := mem_ahead.mp h
    exact ⟨[], (leads_nil s).congr rfl rfl⟩
  | notAhead r ih =>
    obtain ⟨rfl, -⟩ := mem_notAhead.mp h
    exact ⟨[], leads_nil t⟩
  | edge w =>
    obtain ⟨rfl, -⟩ := mem_edge.mp h
    exact ⟨[], leads_nil t⟩
  | atEnd p =>
    rw [eq_of_mem_atEnd h]
    exact ⟨[], leads_nil s⟩

theorem exactly_leads (n : ℕ) (h : t ∈ exactly (ends r) n s) : ∃ w, Leads s t w :=
  exactly_induct (R := fun s t => ∃ w, Leads s t w) (fun s => ⟨[], leads_nil s⟩)
    (fun _ _ _ ⟨v, hv⟩ ⟨w, hw⟩ => ⟨v ++ w, hv.trans hw⟩) (fun _ _ => ends_leads) n h

theorem upTo_leads {greedy : Bool} (n : ℕ) (h : t ∈ upTo (ends r) greedy n s) : ∃ w, Leads s t w :=
  upTo_induct (R := fun s t => ∃ w, Leads s t w) (fun s => ⟨[], leads_nil s⟩)
    (fun _ _ _ ⟨v, hv⟩ ⟨w, hw⟩ => ⟨v ++ w, hv.trans hw⟩) (fun _ _ => ends_leads) n h

/-- A captured group is the text it consumed. -/
theorem of_mem_group (h : t ∈ ends (.group k r) s) : ∃ u w, u ∈ ends r s ∧ Leads s u w ∧
    Leads s t w ∧ t.get k = some w ∧ ∀ j ≠ k, t.get j = u.get j := by
  obtain ⟨u, hu, rfl⟩ := mem_group.mp h
  obtain ⟨w, hw⟩ := ends_leads hu
  refine ⟨u, w, hu, hw, hw.congr rfl rfl, ?_, fun j hj => ?_⟩
  · unfold Cursor.get Cursor.capture
    rw [List.lookup_cons_self, hw.since]
  · unfold Cursor.get Cursor.capture
    rw [List.lookup_cons, beq_false_of_ne hj]

/-- A group around what captures none. -/
theorem mem_group_takes {Q : List α → Prop} (h : ∀ t, t ∈ ends r s ↔ ∃ w, Q w ∧ Takes s t w) :
    t ∈ ends (.group k r) s ↔ ∃ w, Q w ∧ Leads s t w ∧ t.groups = (k, w) :: s.groups := by
  rw [mem_group]
  constructor
  · rintro ⟨u, hu, rfl⟩
    obtain ⟨w, hw, htakes⟩ := (h u).mp hu
    refine ⟨w, hw, htakes.congr rfl rfl, ?_⟩
    unfold Cursor.capture
    rw [htakes.since, htakes.groups]
  · rintro ⟨w, hw, hleads, hgroups⟩
    have htakes : Takes s ⟨t.prev, t.after, s.groups⟩ w := ⟨hleads.congr rfl rfl, rfl⟩
    refine ⟨_, (h _).mpr ⟨w, hw, htakes⟩, ?_⟩
    unfold Cursor.capture
    rw [htakes.since, ← hgroups]

/-- A repeated class consumes elements of the class, as many as are asked for. -/
theorem mem_rep_one {greedy : Bool} {least : ℕ} {most : Option ℕ}
    (h : t ∈ ends (.rep greedy least most (.one p)) s) : ∃ w, Leads s t w ∧ t.groups = s.groups ∧
      (∀ a ∈ w, p a = true) ∧ least ≤ w.length ∧ ∀ m ∈ most, w.length ≤ max least m := by
  have hround : ∀ {s t : Cursor α}, t ∈ ends (.one p) s → ∃ a, p a = true ∧ Leads s t [a] ∧
      t.groups = s.groups := by
    intro s t h
    obtain ⟨a, rest, hs, ha, rfl⟩ := mem_one.mp h
    exact ⟨a, ha, ⟨hs, by simp⟩, rfl⟩
  have hexactly : ∀ (n : ℕ) {s t : Cursor α}, t ∈ exactly (ends (.one p)) n s → ∃ w, Leads s t w ∧
      t.groups = s.groups ∧ (∀ a ∈ w, p a = true) ∧ w.length = n := by
    intro n
    induction n with
    | zero =>
      intro s t h
      rw [List.mem_singleton.mp h]
      exact ⟨[], leads_nil s, rfl, by simp, rfl⟩
    | succ n ih =>
      intro s t h
      obtain ⟨u, hu, h⟩ := List.mem_flatMap.mp h
      obtain ⟨a, ha, hs, hg⟩ := hround hu
      obtain ⟨w, hw, hg', hall, hlen⟩ := ih h
      exact ⟨a :: w, hs.trans hw, hg'.trans hg, List.forall_mem_cons.mpr ⟨ha, hall⟩, by simp [hlen]⟩
  have hupTo : ∀ (n : ℕ) {s t : Cursor α}, t ∈ upTo (ends (.one p)) greedy n s → ∃ w, Leads s t w ∧
      t.groups = s.groups ∧ (∀ a ∈ w, p a = true) ∧ w.length ≤ n := by
    intro n
    induction n with
    | zero =>
      intro s t h
      rw [List.mem_singleton.mp h]
      exact ⟨[], leads_nil s, rfl, by simp, Nat.le_refl _⟩
    | succ n ih =>
      intro s t h
      rcases mem_upTo_succ h with ⟨u, hu, h⟩ | rfl
      · obtain ⟨a, ha, hs, hg⟩ := hround hu
        obtain ⟨w, hw, hg', hall, hlen⟩ := ih h
        exact ⟨a :: w, hs.trans hw, hg'.trans hg, List.forall_mem_cons.mpr ⟨ha, hall⟩,
          Nat.succ_le_succ hlen⟩
      · exact ⟨[], leads_nil t, rfl, by simp, Nat.zero_le _⟩
  obtain ⟨u, hu, h⟩ := List.mem_flatMap.mp h
  obtain ⟨v, hv, hg, hall, hlen⟩ := hexactly least hu
  obtain ⟨w, hw, hg', hall', hlen'⟩ := hupTo _ h
  refine ⟨v ++ w, hv.trans hw, hg'.trans hg, ?_, by simp [hlen], ?_⟩
  · exact fun a ha => (List.mem_append.mp ha).elim (hall a) (hall' a)
  · rintro m rfl
    simp only [Option.elim_some] at hlen'
    rw [List.length_append, hlen]
    omega

/-- Any number of elements of the class that is asked for can be consumed. -/
theorem mem_rep_one_of {greedy : Bool} {least : ℕ} {most : Option ℕ} {w : List α}
    (hw : Takes s t w) (hp : ∀ a ∈ w, p a = true) (hleast : least ≤ w.length)
    (hmost : ∀ m ∈ most, w.length ≤ m) : t ∈ ends (.rep greedy least most (.one p)) s := by
  have hround : ∀ {s t : Cursor α} {a : α} {w : List α}, Takes s t (a :: w) → p a = true →
      ∃ u, u ∈ ends (.one p) s ∧ u.after.length < s.after.length ∧ Takes u t w := by
    intro s t a w hw ha
    obtain ⟨u, hu, hrest⟩ := Takes.split (v := [a]) hw
    refine ⟨u, ?_, by simp [hu.after], hrest⟩
    exact mem_one.mpr ⟨a, _, hu.after, ha, hu.eq ⟨⟨hu.after, by simp⟩, rfl⟩⟩
  have hupTo : ∀ (n : ℕ) {s t : Cursor α} {w : List α}, Takes s t w → (∀ a ∈ w, p a = true) →
      w.length ≤ n → t ∈ upTo (ends (.one p)) greedy n s := by
    intro n
    induction n with
    | zero =>
      intro s t w hw _ hn
      obtain rfl : w = [] := List.length_eq_zero_iff.mp (Nat.le_zero.mp hn)
      rw [hw.eq (takes_nil s)]
      exact List.mem_singleton_self s
    | succ n ih =>
      intro s t w hw hp hn
      unfold upTo
      have hmem : t ∈ ((ends (.one p) s).filter fun t => t.after.length < s.after.length).flatMap
          (upTo (ends (.one p)) greedy n) ∨ t = s := by
        cases w with
        | nil => exact .inr (hw.eq (takes_nil s))
        | cons a w =>
          obtain ⟨u, hu, hlt, hrest⟩ := hround hw (hp a List.mem_cons_self)
          refine .inl (List.mem_flatMap.mpr ⟨u, List.mem_filter.mpr ⟨hu, by simpa using hlt⟩, ?_⟩)
          exact ih hrest (fun b hb => hp b (List.mem_cons_of_mem _ hb)) (Nat.le_of_succ_le_succ hn)
      cases greedy with
      | false => exact List.mem_cons.mpr hmem.symm
      | true => exact List.mem_append.mpr (hmem.imp_right List.mem_singleton.mpr)
  have hexactly : ∀ (n : ℕ) {s t : Cursor α} {w : List α}, Takes s t w → (∀ a ∈ w, p a = true) →
      w.length = n → t ∈ exactly (ends (.one p)) n s := by
    intro n
    induction n with
    | zero =>
      intro s t w hw _ hn
      obtain rfl : w = [] := List.length_eq_zero_iff.mp hn
      rw [hw.eq (takes_nil s)]
      exact List.mem_singleton_self s
    | succ n ih =>
      intro s t w hw hp hn
      cases w with
      | nil => simp at hn
      | cons a w =>
        obtain ⟨u, hu, -, hrest⟩ := hround hw (hp a List.mem_cons_self)
        refine List.mem_flatMap.mpr ⟨u, hu, ?_⟩
        exact ih hrest (fun b hb => hp b (List.mem_cons_of_mem _ hb)) (Nat.succ.inj hn)
  obtain ⟨u, hu, hrest⟩ := Takes.split (v := w.take least) (w := w.drop least)
    (by rwa [List.take_append_drop])
  refine List.mem_flatMap.mpr ⟨u, hexactly least hu (fun a ha => hp a (List.mem_of_mem_take ha))
    (List.length_take_of_le hleast), hupTo _ hrest (fun a ha => hp a (List.mem_of_mem_drop ha)) ?_⟩
  cases most with
  | none =>
    rw [Option.elim_none, hrest.length]
    exact Nat.le_add_right _ _
  | some m =>
    have := hmost m rfl
    rw [Option.elim_some, List.length_drop]
    omega

/-- The groups a pattern captures. -/
def captures : Pattern α → List ℕ
  | .cat r q => captures r ++ captures q
  | .alt r q => captures r ++ captures q
  | .rep _ _ _ r => captures r
  | .group k r => k :: captures r
  | .ahead r => captures r
  | _ => []

/-- A match leaves the other groups alone. -/
theorem get_of_mem (hk : k ∉ captures r) (h : t ∈ ends r s) : t.get k = s.get k := by
  induction r generalizing s t with
  | one p =>
    obtain ⟨a, rest, -, -, rfl⟩ := mem_one.mp h
    rfl
  | empty => rw [List.mem_singleton.mp h]
  | cat r q ihr ihq =>
    obtain ⟨hr, hq⟩ := not_or.mp (mt List.mem_append.mpr hk)
    obtain ⟨u, hu, h⟩ := List.mem_flatMap.mp h
    exact (ihq hq h).trans (ihr hr hu)
  | alt r q ihr ihq =>
    obtain ⟨hr, hq⟩ := not_or.mp (mt List.mem_append.mpr hk)
    exact (List.mem_append.mp h).elim (ihr hr) (ihq hq)
  | rep greedy least most r ih =>
    exact rep_induct (R := fun s t => t.get k = s.get k) (fun _ => rfl)
      (fun _ _ _ h h' => h'.trans h) (fun _ _ => ih hk) h
  | group j r ih =>
    obtain ⟨hj, hr⟩ := not_or.mp (mt List.mem_cons.mpr hk)
    obtain ⟨u, hu, rfl⟩ := mem_group.mp h
    rw [← ih hr hu]
    unfold Cursor.get Cursor.capture
    rw [List.lookup_cons, beq_false_of_ne hj]
  | same j =>
    obtain ⟨w, -, -, rfl⟩ := mem_same.mp h
    rfl
  | ahead r ih =>
    obtain ⟨u, hu, rfl⟩ := mem_ahead.mp h
    exact ih (t := u) hk (List.mem_of_mem_head? hu)
  | notAhead r ih => rw [(mem_notAhead.mp h).1]
  | edge w => rw [(mem_edge.mp h).1]
  | atEnd p => rw [eq_of_mem_atEnd h]

/-! ## Runs -/

/-- No match of `q` starts with an element of the class. -/
def Avoids (q : Pattern α) (p : α → Bool) : Prop :=
  ∀ (s : Cursor α) (a : α) (rest : List α), s.after = a :: rest → p a = true → ends q s = []

theorem avoids_one {p' : α → Bool} (h : ∀ a, p a = true → p' a = false) : Avoids (.one p') p := by
  exact fun s a rest hs ha => ends_one_of_not (by simp [hs, h a ha])

theorem Avoids.cat (h : Avoids r p) (q : Pattern α) : Avoids (.cat r q) p := by
  intro s a rest hs ha
  rw [ends_cat, h s a rest hs ha, List.flatMap_nil]

/-- At most `n` elements are consumed, so none when the run is longer. -/
theorem upTo_run (hq : Avoids q p) (n : ℕ) (s : Cursor α) :
    (upTo (ends (.one p)) true n s).flatMap (ends q) =
      if run p s ≤ n then ends q (s.skip (run p s)) else [] := by
  induction n generalizing s with
  | zero =>
    rw [upTo, List.flatMap_singleton]
    rcases run_cases p s with ⟨a, rest, hs, ha⟩ | hstop
    · rw [run_cons hs ha, if_neg (by omega), hq s a rest hs ha]
    · rw [run_of_not hstop, if_pos (Nat.le_refl 0), skip_zero]
  | succ n ih =>
    rcases run_cases p s with ⟨a, rest, hs, ha⟩ | hstop
    · have hround : upTo (ends (.one p)) true (n + 1) s =
          upTo (ends (.one p)) true n ⟨some a, rest, s.groups⟩ ++ [s] := by
        rw [upTo, ends_one hs ha]
        simp [hs]
      rw [hround, List.flatMap_append, ih, List.flatMap_singleton, hq s a rest hs ha,
        List.append_nil, run_cons hs ha, skip_cons hs]
      simp
    · have hround : upTo (ends (.one p)) true (n + 1) s = [s] := by
        rw [upTo, ends_one_of_not hstop]
        rfl
      rw [hround, List.flatMap_singleton, run_of_not hstop, if_pos (Nat.zero_le _), skip_zero]

theorem exactly_run (n : ℕ) (s : Cursor α) : exactly (ends (.one p)) n s =
    if n ≤ run p s then [s.skip n] else [] := by
  induction n generalizing s with
  | zero =>
    rw [exactly, if_pos (Nat.zero_le _), skip_zero]
  | succ n ih =>
    rw [exactly]
    rcases run_cases p s with ⟨a, rest, hs, ha⟩ | hstop
    · rw [ends_one hs ha, List.flatMap_singleton, ih, run_cons hs ha, skip_cons hs]
      simp
    · rw [ends_one_of_not hstop, List.flatMap_nil, run_of_not hstop, if_neg (by omega)]

/-- **A run** that what follows cannot start with is consumed as a whole. -/
theorem ends_run (hq : Avoids q p) (least : ℕ) (most : Option ℕ) (hmost : ∀ m ∈ most, least ≤ m)
    (s : Cursor α) : ends (.cat (.rep true least most (.one p)) q) s =
      if least ≤ run p s ∧ ∀ m ∈ most, run p s ≤ m then ends q (s.skip (run p s)) else [] := by
  rw [ends_cat, ends_rep, List.flatMap_assoc, exactly_run]
  by_cases hleast : least ≤ run p s
  · have hrun := run_skip hleast
    have hend : (s.skip least).skip (run p s - least) = s.skip (run p s) := by
      rw [skip_skip, Nat.add_sub_cancel' hleast]
    rw [if_pos hleast, List.flatMap_singleton, upTo_run hq, hrun, hend]
    cases most with
    | none =>
      have hlength := run_le p (s.skip least)
      rw [if_pos (by rwa [← hrun]), if_pos ⟨hleast, nofun⟩]
    | some m =>
      have hm := hmost m rfl
      simp only [Option.elim_some, Option.mem_some_iff, forall_eq', hleast, true_and]
      exact if_congr (by omega) rfl rfl
  · rw [if_neg hleast, List.flatMap_nil, if_neg fun h => hleast h.1]

/-- **A repetition without a choice in its rounds** ends after any number of them it allows, the
most first. -/
theorem ends_chain {g : Cursor α → Option (Cursor α)} {least most : ℕ}
    (hr : ∀ s, ends r s = (g s).toList)
    (hg : ∀ s, ∀ t ∈ g s, t.after.length < s.after.length) (hle : least ≤ most) (s : Cursor α) :
    ends (.rep true least (some most) r) s = ((chain g most s).drop least).reverse := by
  rw [ends_rep]
  simp only [Option.elim_some]
  induction least generalizing s most with
  | zero => rw [exactly, List.flatMap_singleton, upTo_chain hr hg, Nat.sub_zero, List.drop_zero]
  | succ least ih =>
    obtain ⟨n, rfl⟩ : ∃ n, most = n + 1 := ⟨most - 1, by omega⟩
    rw [exactly, List.flatMap_assoc, chain, hr, List.drop_succ_cons, Nat.succ_sub_succ]
    cases hs : g s with
    | none => simp
    | some t =>
      simp only [Option.toList_some, List.flatMap_singleton, Option.elim_some]
      exact ih (by omega) t

end Ends

end Meridian.Regex
