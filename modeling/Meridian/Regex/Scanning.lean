import Mathlib.Algebra.Order.Group.Nat
import Meridian.Regex.Matching

/-!
# Replacing matches

`scan r text` goes through a text from left to right: at each place the match found there is a
`hit` and the scan goes on behind it, and an element no match starts at is `kept`. `sub r f text`
puts `f` of each hit in its place. Matches of nothing are passed over.

* `scan_source`: the pieces are the text.
* `of_mem_scan`: a hit is a match.
* `scanFrom_hit`, `scanFrom_miss`: one step of a scan.
* `sub_eq_self`, `countP_sub_le`, `sub_eq_or_lt`: replacing that changes nothing, or lowers a count.
-/

namespace Meridian.Regex

variable {α : Type}

/-- A match, with the groups it captured. -/
structure Hit (α : Type) where
  text : List α
  groups : List (ℕ × List α)

/-- The text of a group; a group that took no part in the match has none. -/
def Hit.get (m : Hit α) (k : ℕ) : List α := (m.groups.lookup k).getD []

inductive Piece (α : Type)
  | kept (a : α)
  | hit (m : Hit α)

namespace Piece

def source : Piece α → List α
  | kept a => [a]
  | hit m => m.text

def out (f : Hit α → List α) : Piece α → List α
  | kept a => [a]
  | hit m => f m

end Piece

variable [DecidableEq α]

/-- The pieces of a text behind `prev`, at most `fuel` of them told apart. -/
def scanFrom (r : Pattern α) : ℕ → Option α → List α → List (Piece α)
  | _, _, [] => []
  | 0, _, after => after.map .kept
  | fuel + 1, prev, a :: rest =>
    match matchAt r ⟨prev, a :: rest, []⟩ with
    | some t =>
      if t.after.length < (a :: rest).length then
        .hit ⟨t.since ⟨prev, a :: rest, []⟩, t.groups⟩ :: scanFrom r fuel t.prev t.after
      else .kept a :: scanFrom r fuel (some a) rest
    | none => .kept a :: scanFrom r fuel (some a) rest

def scan (r : Pattern α) (text : List α) : List (Piece α) := scanFrom r text.length none text

/-- Each match replaced by what `f` makes of it. -/
def sub (r : Pattern α) (f : Hit α → List α) (text : List α) : List α :=
  (scan r text).flatMap (Piece.out f)

section Scan

variable {r : Pattern α} {f : Hit α → List α} {prev : Option α} {text rest : List α} {a : α}
  {fuel : ℕ} {m : Hit α}

theorem matchAt_mem {s t : Cursor α} (h : matchAt r s = some t) : t ∈ ends r s :=
  List.mem_of_mem_head? h

/-- More fuel than text makes no difference. -/
theorem scanFrom_fuel (h : text.length ≤ fuel) :
    scanFrom r fuel prev text = scanFrom r text.length prev text := by
  induction fuel using Nat.strong_induction_on generalizing prev text with
  | _ fuel ih =>
    cases text with
    | nil => cases fuel <;> rfl
    | cons a rest =>
      obtain ⟨n, rfl⟩ : ∃ n, fuel = n + 1 := ⟨fuel - 1, by simp at h; omega⟩
      have hrest : rest.length ≤ n := by simpa using h
      have hsame : ∀ prev (text : List α), text.length ≤ rest.length →
          scanFrom r n prev text = scanFrom r rest.length prev text := by
        intro prev text htext
        rw [ih n (Nat.lt_succ_self n) (htext.trans hrest)]
        rcases Nat.lt_or_eq_of_le hrest with hlt | heq
        · rw [ih rest.length (by omega) htext]
        · rw [heq, ih n (Nat.lt_succ_self n) (by omega)]
      rw [List.length_cons, scanFrom, scanFrom]
      split
      · split_ifs with hlt
        · rw [hsame _ _ (by simpa [Nat.lt_succ_iff] using hlt)]
        · rw [hsame _ _ le_rfl]
      · rw [hsame _ _ le_rfl]

/-- Nothing starts here. -/
theorem scanFrom_miss
    (h : ∀ t ∈ matchAt r ⟨prev, a :: rest, []⟩, rest.length < t.after.length) :
    scanFrom r (a :: rest).length prev (a :: rest) =
      .kept a :: scanFrom r rest.length (some a) rest := by
  rw [List.length_cons, scanFrom]
  split
  · rename_i t ht
    have := h t ht
    rw [if_neg (by rw [List.length_cons]; omega)]
  · rfl

/-- A match starts here, and the scan goes on behind it. -/
theorem scanFrom_hit {s t : Cursor α} (hs : s = ⟨prev, text, []⟩) (h : matchAt r s = some t)
    {w : List α} (hw : Leads s t w) (hne : w ≠ []) :
    scanFrom r text.length prev text =
      .hit ⟨w, t.groups⟩ :: scanFrom r t.after.length t.prev t.after := by
  subst hs
  have hlength := hw.length
  have hpos := List.length_pos_iff.mpr hne
  cases text with
  | nil =>
    simp only [List.length_nil] at hlength
    omega
  | cons a rest =>
    simp only [List.length_cons] at hlength
    rw [List.length_cons, scanFrom, h]
    dsimp only
    rw [if_pos (by rw [List.length_cons]; omega), hw.since, scanFrom_fuel (by omega)]

/-- A scan goes by hits and by elements. -/
theorem scan_induct {P : Option α → List α → List (Piece α) → Prop}
    (hnil : ∀ prev, P prev [] [])
    (hkept : ∀ prev a rest ps, P (some a) rest ps → P prev (a :: rest) (.kept a :: ps))
    (hhit : ∀ s t w ps, s.groups = [] → t ∈ ends r s → Leads s t w → w ≠ [] →
      P t.prev t.after ps → P s.prev s.after (.hit ⟨w, t.groups⟩ :: ps))
    (prev : Option α) (text : List α) : P prev text (scanFrom r text.length prev text) := by
  obtain ⟨n, hn⟩ : ∃ n, text.length ≤ n := ⟨_, le_rfl⟩
  induction n generalizing prev text with
  | zero =>
    rw [List.length_eq_zero_iff.mp (Nat.le_zero.mp hn)]
    exact hnil prev
  | succ n ih =>
    cases text with
    | nil => exact hnil prev
    | cons a rest =>
      have hrest : rest.length ≤ n := by simpa using hn
      cases hm : matchAt r ⟨prev, a :: rest, []⟩ with
      | none =>
        rw [scanFrom_miss (by simp [hm])]
        exact hkept _ _ _ _ (ih _ _ hrest)
      | some t =>
        obtain ⟨w, hw⟩ := ends_leads (matchAt_mem hm)
        have hlength := hw.length
        simp only [List.length_cons] at hlength
        by_cases hne : w = []
        · subst hne
          have hmiss : ∀ t' ∈ matchAt r ⟨prev, a :: rest, []⟩, rest.length < t'.after.length := by
            rintro t' ht'
            cases hm.symm.trans ht'
            simp only [List.length_nil] at hlength
            omega
          rw [scanFrom_miss hmiss]
          exact hkept _ _ _ _ (ih _ _ hrest)
        · have hpos := List.length_pos_iff.mpr hne
          rw [scanFrom_hit rfl hm hw hne]
          exact hhit _ t w _ rfl (matchAt_mem hm) hw hne (ih _ _ (by omega))

/-- The pieces are the text. -/
theorem scan_source (r : Pattern α) (text : List α) : (scan r text).flatMap Piece.source = text := by
  refine scan_induct (P := fun _ text ps => ps.flatMap Piece.source = text) (fun _ => rfl) ?_ ?_
    none text
  · intro _ a rest ps ih
    rw [List.flatMap_cons, ih]
    rfl
  · intro s t w ps _ _ hw _ ih
    rw [List.flatMap_cons, ih]
    exact hw.after.symm

/-- A hit is a match. -/
theorem of_mem_scan (h : .hit m ∈ scan r text) : ∃ s t, s.groups = [] ∧ t ∈ ends r s ∧
    Leads s t m.text ∧ m.text ≠ [] ∧ m.groups = t.groups := by
  refine scan_induct (P := fun _ _ ps => Piece.hit m ∈ ps → ∃ s t, s.groups = [] ∧ t ∈ ends r s ∧
    Leads s t m.text ∧ m.text ≠ [] ∧ m.groups = t.groups) (fun _ h => nomatch h) ?_ ?_ none text h
  · intro _ _ _ _ ih h
    exact ih ((List.mem_cons.mp h).resolve_left nofun)
  · intro s t w ps hs ht hw hne ih h
    rcases List.mem_cons.mp h with heq | h
    · cases heq
      exact ⟨s, t, hs, ht, hw, hne, rfl⟩
    · exact ih h

/-- Replacing that changes no hit changes nothing. -/
theorem sub_eq_self (h : ∀ m, .hit m ∈ scan r text → f m = m.text) : sub r f text = text := by
  have hpieces : (scan r text).flatMap (Piece.out f) = (scan r text).flatMap Piece.source := by
    refine List.flatMap_congr fun x hx => ?_
    cases x with
    | kept a => rfl
    | hit m => exact h m hx
  exact hpieces.trans (scan_source r text)

/-- Replacing that raises a count at no hit does not raise it. -/
theorem countP_sub_le {p : α → Bool}
    (h : ∀ m, .hit m ∈ scan r text → (f m).countP p ≤ m.text.countP p) :
    (sub r f text).countP p ≤ text.countP p := by
  have hpieces : ∀ ps : List (Piece α),
      (∀ m, .hit m ∈ ps → (f m).countP p ≤ m.text.countP p) →
      (ps.flatMap (Piece.out f)).countP p ≤ (ps.flatMap Piece.source).countP p := by
    intro ps
    induction ps with
    | nil => exact fun _ => Nat.le_refl _
    | cons x ps ih =>
      intro h
      have hx : (x.out f).countP p ≤ x.source.countP p := by
        cases x with
        | kept a => exact Nat.le_refl _
        | hit m => exact h m List.mem_cons_self
      have hps := ih fun m hm => h m (List.mem_cons_of_mem _ hm)
      simp only [List.flatMap_cons, List.countP_append]
      omega
  have hscan := hpieces (scan r text) h
  rwa [scan_source] at hscan

/-- Replacing that lowers a count at each hit it changes lowers it, unless it changes nothing. -/
theorem sub_eq_or_lt {p : α → Bool}
    (h : ∀ m, .hit m ∈ scan r text → f m = m.text ∨ (f m).countP p < m.text.countP p) :
    sub r f text = text ∨ (sub r f text).countP p < text.countP p := by
  have hpieces : ∀ ps : List (Piece α),
      (∀ m, .hit m ∈ ps → f m = m.text ∨ (f m).countP p < m.text.countP p) →
      ps.flatMap (Piece.out f) = ps.flatMap Piece.source ∨
        (ps.flatMap (Piece.out f)).countP p < (ps.flatMap Piece.source).countP p := by
    intro ps
    induction ps with
    | nil => exact fun _ => .inl rfl
    | cons x ps ih =>
      intro h
      have hx : x.out f = x.source ∨ (x.out f).countP p < x.source.countP p := by
        cases x with
        | kept a => exact .inl rfl
        | hit m => exact h m List.mem_cons_self
      simp only [List.flatMap_cons, List.countP_append]
      rcases ih fun m hm => h m (List.mem_cons_of_mem _ hm) with hps | hps
      · rcases hx with hx | hx
        · exact .inl (by rw [hx, hps])
        · exact .inr (by rw [hps]; omega)
      · refine .inr ?_
        rcases hx with hx | hx
        · rw [hx]
          omega
        · omega
  have hscan := hpieces (scan r text) h
  rwa [scan_source] at hscan

/-! ## Two texts that start the same -/

/-- The hit at the start of a text. -/
def found (r : Pattern α) (prev : Option α) (text : List α) : Option (Hit α) :=
  ((matchAt r ⟨prev, text, []⟩).filter fun t => t.after.length < text.length).map fun t =>
    ⟨t.since ⟨prev, text, []⟩, t.groups⟩

theorem scanFrom_of_found_none (h : found r prev (a :: rest) = none) :
    scanFrom r (a :: rest).length prev (a :: rest) =
      .kept a :: scanFrom r rest.length (some a) rest := by
  refine scanFrom_miss fun t ht => ?_
  cases hm : matchAt r ⟨prev, a :: rest, []⟩ with
  | none => simp [hm] at ht
  | some u =>
    cases hm.symm.trans ht
    rw [found, hm] at h
    simp only [Option.map_eq_none_iff, Option.filter_eq_none_iff] at h
    have := h t rfl
    simpa [Nat.lt_succ_iff] using this

/-- The scan goes on behind the hit. -/
theorem scanFrom_of_found (h : found r prev text = some m) : ∃ rest, text = m.text ++ rest ∧
    m.text ≠ [] ∧ scanFrom r text.length prev text =
      .hit m :: scanFrom r rest.length (m.text.getLast?.or prev) rest := by
  unfold found at h
  obtain ⟨t, ht, rfl⟩ := Option.map_eq_some_iff.mp h
  obtain ⟨hm, hlt⟩ := Option.filter_eq_some_iff.mp ht
  obtain ⟨w, hw⟩ := ends_leads (matchAt_mem hm)
  have hne : w ≠ [] := by
    rintro rfl
    have hlength := hw.length
    simp only [List.length_nil, Nat.zero_add] at hlength
    simp only [hlength, Nat.lt_irrefl, decide_false, Bool.false_eq_true] at hlt
  refine ⟨t.after, ?_, ?_, ?_⟩
  · rw [hw.since]
    exact hw.after
  · rwa [hw.since]
  · rw [scanFrom_hit rfl hm hw hne, hw.since, hw.prev]

/-- The scan of `v ++ w` gets to `w`: no hit lies across. -/
def Stops (r : Pattern α) (v w : List α) : Prop :=
  ∃ ps qs, scan r (v ++ w) = ps ++ qs ∧ ps.flatMap Piece.source = v

/-- **Two texts that start the same**, and in which the same hits are found at each place of that
start, are scanned alike up to where the first scan gets. -/
theorem scan_of_found {v w : List α} (hstops : Stops r v w) : ∃ ps,
    ps.flatMap Piece.source = v ∧ ∀ w',
      (∀ prev x y, v = x ++ y → y ≠ [] → found r prev (y ++ w') = found r prev (y ++ w)) →
      scan r (v ++ w') = ps ++ scanFrom r w'.length v.getLast? w' := by
  have hfrom : ∀ (ps qs : List (Piece α)) (prev : Option α) (v : List α),
      scanFrom r (v ++ w).length prev (v ++ w) = ps ++ qs → ps.flatMap Piece.source = v →
      ∀ w', (∀ prev x y, v = x ++ y → y ≠ [] → found r prev (y ++ w') = found r prev (y ++ w)) →
      scanFrom r (v ++ w').length prev (v ++ w') =
        ps ++ scanFrom r w'.length (v.getLast?.or prev) w' := by
    intro ps
    induction ps with
    | nil =>
      rintro qs prev v - rfl w' -
      rfl
    | cons p ps ih =>
      rintro qs prev v hscan hv w' hagree
      rw [List.flatMap_cons] at hv
      -- the hits found further on are found in what is left
      have hrest : ∀ x prev' x' y, ps.flatMap Piece.source = x' ++ y → y ≠ [] →
          v = x ++ ps.flatMap Piece.source → found r prev' (y ++ w') = found r prev' (y ++ w) :=
        fun x prev' x' y hy hne hx => hagree prev' (x ++ x') y (by rw [hx, hy]; simp) hne
      cases hfound : found r prev (v ++ w) with
      | none =>
        cases htext : v ++ w with
        | nil =>
          rw [htext] at hscan
          cases hscan
        | cons c rest =>
          rw [htext] at hfound hscan
          rw [scanFrom_of_found_none hfound, List.cons_append] at hscan
          obtain ⟨rfl, htail⟩ := List.cons.inj hscan
          obtain rfl : v = c :: ps.flatMap Piece.source := hv.symm
          have hrest' : ps.flatMap Piece.source ++ w = rest := (List.cons.inj htext).2
          have hfound' := hagree prev [] (c :: ps.flatMap Piece.source) rfl (List.cons_ne_nil _ _)
          rw [htext, hfound] at hfound'
          rw [List.cons_append] at hfound' ⊢
          rw [scanFrom_of_found_none hfound', List.getLast?_cons, List.cons_append]
          rw [ih qs (some c) _ (by rw [hrest']; exact htail) rfl w'
            fun prev' x' y hy hne => hrest [c] prev' x' y hy hne rfl]
          cases (ps.flatMap Piece.source).getLast? <;> rfl
      | some m =>
        obtain ⟨rest, htext, hne, hstep⟩ := scanFrom_of_found hfound
        rw [hstep, List.cons_append] at hscan
        obtain ⟨rfl, htail⟩ := List.cons.inj hscan
        have hv : v = m.text ++ ps.flatMap Piece.source := hv.symm
        have hrest' : ps.flatMap Piece.source ++ w = rest := by
          rw [hv, List.append_assoc] at htext
          exact List.append_cancel_left htext
        have hfound' := hagree prev [] v rfl (by rw [hv]; simp [hne])
        obtain ⟨rest', htext', -, hstep'⟩ := scanFrom_of_found (hfound'.trans hfound)
        have hrest'' : ps.flatMap Piece.source ++ w' = rest' := by
          rw [hv, List.append_assoc] at htext'
          exact List.append_cancel_left htext'
        rw [hstep', ← hrest'', ih qs _ _ (by rw [hrest']; exact htail) rfl w'
          fun prev' x' y hy hne => hrest m.text prev' x' y hy hne hv]
        rw [hv, List.getLast?_append, Option.or_assoc]
        rfl
  obtain ⟨ps, qs, hscan, hv⟩ := hstops
  refine ⟨ps, hv, fun w' hagree => ?_⟩
  have := hfrom ps qs none v hscan hv w' hagree
  rwa [Option.or_none] at this

end Scan

end Meridian.Regex
