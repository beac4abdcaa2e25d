import Mathlib.Algebra.Order.Field.Basic
import Mathlib.Tactic.FieldSimp
import Mathlib.Tactic.Linarith
import Mathlib.Tactic.Ring

/-!
# Bisection

A bracket is a pair of ends. A step computes a point between them and moves one end there: the
lower one when the test says that the root lies above. `mid` is a parameter, so that a step with
rounded arithmetic is one too; with the exact midpoint the width halves (`width_bisect`), and the
test stays true below and false above (`bisect_spec`).
-/

namespace Meridian.Numeric

variable {K : Type}

/-- The bracket after `k` steps. -/
def bisect (mid : K → K → K) (above : K → Bool) : ℕ → K × K → K × K
  | 0, b => b
  | k + 1, b =>
    if above (mid b.1 b.2) then bisect mid above k (mid b.1 b.2, b.2)
    else bisect mid above k (b.1, mid b.1 b.2)

@[simp] theorem bisect_zero (mid : K → K → K) (above : K → Bool) (b : K × K) :
    bisect mid above 0 b = b := rfl

/-- One step. -/
def halve (mid : K → K → K) (above : K → Bool) (b : K × K) : K × K :=
  if above (mid b.1 b.2) then (mid b.1 b.2, b.2) else (b.1, mid b.1 b.2)

/-- The last step of a run. -/
theorem bisect_succ (mid : K → K → K) (above : K → Bool) (k : ℕ) (b : K × K) :
    bisect mid above (k + 1) b = halve mid above (bisect mid above k b) := by
  have hfirst : ∀ k b, bisect mid above (k + 1) b = bisect mid above k (halve mid above b) := by
    intro k b
    rw [bisect, halve]
    split_ifs <;> rfl
  induction k generalizing b with
  | zero => exact hfirst 0 b
  | succ k ih => rw [hfirst, ih, hfirst]

/-- What a step keeps of the ends' own properties, a run keeps. -/
theorem bisect_spec (mid : K → K → K) {above : K → Bool} {p q : K → Prop}
    (habove : ∀ x, above x = true → p x) (hbelow : ∀ x, above x = false → q x) {b : K × K}
    (hb : p b.1 ∧ q b.2) (k : ℕ) : p (bisect mid above k b).1 ∧ q (bisect mid above k b).2 := by
  induction k with
  | zero => exact hb
  | succ k ih =>
    rw [bisect_succ, halve]
    by_cases h : above (mid (bisect mid above k b).1 (bisect mid above k b).2) = true
    · rw [if_pos h]
      exact ⟨habove _ h, ih.2⟩
    · rw [if_neg h]
      exact ⟨ih.1, hbelow _ (by simpa using h)⟩

section Field

variable [Field K] [LinearOrder K] [IsStrictOrderedRing K]

/-- The exact midpoint. -/
def midpoint (lo hi : K) : K := (lo + hi) / (2 : ℕ)

omit [LinearOrder K] [IsStrictOrderedRing K] in
theorem midpoint_eq (lo hi : K) : midpoint lo hi = (lo + hi) / 2 := by
  rw [midpoint, Nat.cast_ofNat]

theorem midpoint_within {lo hi : K} (h : lo ≤ hi) : lo ≤ midpoint lo hi ∧ midpoint lo hi ≤ hi := by
  rw [midpoint_eq]
  constructor <;> linarith

theorem width_bisect (above : K → Bool) (b : K × K) (k : ℕ) :
    (bisect midpoint above k b).2 - (bisect midpoint above k b).1 = (b.2 - b.1) / 2 ^ k := by
  induction k with
  | zero => simp
  | succ k ih =>
    have hhalf : ∀ c : K × K, (halve midpoint above c).2 - (halve midpoint above c).1 =
        (c.2 - c.1) / 2 := by
      intro c
      unfold halve
      simp only [midpoint_eq]
      split_ifs <;> ring
    rw [bisect_succ, hhalf, ih, pow_succ, div_div]

/-- The ends stay within the bracket the run started from. -/
theorem bisect_within (above : K → Bool) {b : K × K} (hb : b.1 ≤ b.2) (k : ℕ) :
    b.1 ≤ (bisect midpoint above k b).1 ∧
      (bisect midpoint above k b).1 ≤ (bisect midpoint above k b).2 ∧
      (bisect midpoint above k b).2 ≤ b.2 := by
  induction k with
  | zero => exact ⟨le_refl _, hb, le_refl _⟩
  | succ k ih =>
    obtain ⟨hlow, hle, hhigh⟩ := ih
    obtain ⟨hlow', hhigh'⟩ := midpoint_within hle
    rw [bisect_succ, halve]
    split_ifs
    · exact ⟨hlow.trans hlow', hhigh', hhigh⟩
    · exact ⟨hlow, hlow', hhigh'.trans hhigh⟩

end Field

end Meridian.Numeric
