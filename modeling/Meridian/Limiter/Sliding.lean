import Mathlib.Algebra.Order.Group.Defs
import Mathlib.Data.List.Count
import Mathlib.Order.Basic
import Mathlib.Tactic.Linarith

/-!
# A sliding window kept in a deque

A log admits readings of some clock, at most `cap` within any `width`. It keeps a deque of the newest
admitted readings, oldest first: `evict` drops the front while it is more than `width` old, and
`admit` appends the new reading when fewer than `cap` are left.

* `Slides`: what the deque says of the readings admitted so far, `log` with the newest first.
* `Slides.admitted`, `Slides.refused`: an admission and a refusal keep it, when the reading is not
  older than those in the deque. Readings that were refused may be newer.
* `Slides.sparse`: no closed interval of `width` has more than `cap` admitted readings.
* `Slides.crowded`: a reading is refused only for `cap` admitted ones at most `width` older.
-/

namespace Meridian.Limiter

variable {T : Type} [AddCommGroup T] [LinearOrder T]

/-- `while window and now - window[0] > width: window.popleft()` -/
def evict (width now : T) (window : List T) : List T := window.dropWhile fun e => width < now - e

/-- How many readings of the log are in `[a, a + width]`. -/
def within (width a : T) (log : List T) : ℕ := log.countP fun e => a ≤ e ∧ e ≤ a + width

section Evict

variable {width now : T} {window : List T}

/-- What an earlier reading drops, a later one drops first. -/
theorem evict_of_gone {gone rest : List T} (h : ∀ e ∈ gone, width < now - e) :
    evict width now (gone ++ rest) = evict width now rest := by
  unfold evict
  rw [List.dropWhile_append_of_pos (by simpa using h)]

variable [IsOrderedAddMonoid T]

/-- What is dropped is too old, and what is left is not. -/
theorem evict_split (width now : T) (hs : window.Pairwise (· ≤ ·)) :
    ∃ gone, window = gone ++ evict width now window ∧
    (∀ e ∈ gone, width < now - e) ∧ ∀ e ∈ evict width now window, now - e ≤ width := by
  refine ⟨window.takeWhile fun e => width < now - e, List.takeWhile_append_dropWhile.symm,
    fun e he => by simpa using List.all_eq_true.mp List.all_takeWhile e he, fun e he => ?_⟩
  induction window with
  | nil => simp [evict] at he
  | cons a window ih =>
    rw [List.pairwise_cons] at hs
    by_cases ha : width < now - a
    · exact ih hs.2 (by simpa [evict, ha] using he)
    · have hmem : e = a ∨ e ∈ window := by simpa [evict, ha] using he
      have hle : a ≤ e := hmem.elim (fun h => h.ge) (hs.1 e)
      exact (sub_le_sub_left hle now).trans (not_lt.mp ha)

end Evict

/-- The deque holds the newest admitted readings, in order. A reading that is admitted next leaves the
others behind. -/
structure Slides (width : T) (cap : ℕ) (log window : List T) : Prop where
  sorted : window.Pairwise (· ≤ ·)
  short : window.length ≤ cap
  spent : ∃ old, log = window.reverse ++ old ∧
    ∀ now, (∀ e ∈ window, e ≤ now) → (evict width now window).length < cap →
      ∀ o ∈ old, width < now - o
  sparse : ∀ a, within width a log ≤ cap

namespace Slides

variable {width now : T} {cap : ℕ} {log window : List T}

theorem nil : Slides width cap ([] : List T) [] :=
  ⟨.nil, Nat.zero_le _, ⟨[], rfl, fun _ _ _ _ h => absurd h List.not_mem_nil⟩, fun _ => Nat.zero_le _⟩

variable [IsOrderedAddMonoid T]

/-- The newest admitted readings, and those an admission leaves behind. -/
theorem left (h : Slides width cap log window) (hnow : ∀ e ∈ window, e ≤ now) :
    ∃ old, log = (evict width now window).reverse ++ old ∧
      ((evict width now window).length < cap → ∀ o ∈ old, width < now - o) := by
  obtain ⟨old, hlog, hspent⟩ := h.spent
  obtain ⟨gone, hsplit, hgone, -⟩ := evict_split width now h.sorted
  refine ⟨gone.reverse ++ old, ?_, fun hroom o ho => ?_⟩
  · rw [hlog]
    conv_lhs => rw [hsplit]
    rw [List.reverse_append, List.append_assoc]
  · rcases List.mem_append.mp ho with ho | ho
    · exact hgone o (List.mem_reverse.mp ho)
    · exact hspent now hnow hroom o ho

/-- **An admission.** -/
theorem admitted (h : Slides width cap log window) (hnow : ∀ e ∈ window, e ≤ now)
    (hroom : (evict width now window).length < cap) :
    Slides width cap (now :: log) (evict width now window ++ [now]) := by
  obtain ⟨old, hlog, hold⟩ := h.left hnow
  have hold := hold hroom
  have hsub : (evict width now window).Sublist window := List.dropWhile_sublist _
  refine ⟨?_, by simpa using Nat.succ_le_of_lt hroom, ⟨old, ?_, fun now' hle _ o ho => ?_⟩, fun a => ?_⟩
  · rw [List.pairwise_append]
    exact ⟨h.sorted.sublist hsub, List.pairwise_singleton _ _, fun e he b hb =>
      List.mem_singleton.mp hb ▸ hnow e (hsub.subset he)⟩
  · rw [hlog, List.reverse_append]
    rfl
  · exact (hold o ho).trans_le (sub_le_sub_right (hle now (by simp)) o)
  · by_cases ha : a ≤ now ∧ now ≤ a + width
    · -- the others of the interval are still in the deque
      have hnone : within width a old = 0 := by
        refine List.countP_eq_zero.mpr fun o ho => ?_
        have hlt : o < a := by
          have := hold o ho
          have : width + o < a + width := (lt_sub_iff_add_lt.mp this).trans_le ha.2
          rwa [add_comm a, add_lt_add_iff_left] at this
        simp [hlt]
      have hcount : within width a (now :: log) =
          within width a (evict width now window).reverse + within width a old + 1 := by
        unfold within
        rw [List.countP_cons_of_pos (by simpa using ha), hlog, List.countP_append]
      have hle : within width a (evict width now window).reverse ≤ (evict width now window).length :=
        List.countP_le_length.trans (List.length_reverse ..).le
      omega
    · have hskip : within width a (now :: log) = within width a log := by
        unfold within
        rw [List.countP_cons_of_neg (by simpa using ha)]
      rw [hskip]
      exact h.sparse a

/-- **A refusal.** -/
theorem refused (h : Slides width cap log window) (hnow : ∀ e ∈ window, e ≤ now)
    (hfull : cap ≤ (evict width now window).length) :
    Slides width cap log (evict width now window) := by
  obtain ⟨old, hlog, hspent⟩ := h.spent
  obtain ⟨gone, hsplit, hgone, hkept⟩ := evict_split width now h.sorted
  have hsub : (evict width now window).Sublist window := List.dropWhile_sublist _
  refine ⟨h.sorted.sublist hsub, hsub.length_le.trans h.short, ⟨gone.reverse ++ old, ?_,
    fun now' hle hroom => ?_⟩, h.sparse⟩
  · rw [hlog]
    conv_lhs => rw [hsplit]
    rw [List.reverse_append, List.append_assoc]
  · -- room is made only by a reading newer than the one that was refused
    obtain ⟨gone', hsplit', hgone', -⟩ := evict_split width now'
      (h.sorted.sublist hsub)
    have hlater : now < now' := by
      cases gone' with
      | nil =>
        rw [List.nil_append] at hsplit'
        rw [← hsplit'] at hroom
        omega
      | cons e gone' =>
        have hold := hgone' e List.mem_cons_self
        have hyoung := hkept e (by rw [hsplit']; exact List.mem_append_left _ List.mem_cons_self)
        exact (sub_lt_sub_iff_right e).mp (hyoung.trans_lt hold)
    have hgone : ∀ e ∈ gone, width < now' - e := fun e he =>
      (hgone e he).trans ((sub_lt_sub_iff_right e).mpr hlater)
    intro o ho
    rcases List.mem_append.mp ho with ho | ho
    · exact hgone o (List.mem_reverse.mp ho)
    · refine hspent now' (fun e he => (hnow e he).trans hlater.le) ?_ o ho
      rw [hsplit, evict_of_gone hgone]
      exact hroom

/-- **A refusal has its reason.** -/
theorem crowded (h : Slides width cap log window) (hnow : ∀ e ∈ window, e ≤ now)
    (hfull : cap ≤ (evict width now window).length) :
    cap ≤ within width (now - width) log := by
  obtain ⟨old, hlog, -⟩ := h.left hnow
  obtain ⟨gone, -, -, hkept⟩ := evict_split width now h.sorted
  have hsub : (evict width now window).Sublist window := List.dropWhile_sublist _
  have hall : within width (now - width) (evict width now window).reverse =
      (evict width now window).reverse.length := by
    refine List.countP_eq_length.mpr fun e he => ?_
    have he := List.mem_reverse.mp he
    have hold : now - width ≤ e := sub_le_comm.mp (hkept e he)
    simpa [hold] using hnow e (hsub.subset he)
  have hsum : within width (now - width) log =
      within width (now - width) (evict width now window).reverse +
        within width (now - width) old := by
    rw [hlog]
    exact List.countP_append
  rw [List.length_reverse] at hall
  omega

end Slides

end Meridian.Limiter
