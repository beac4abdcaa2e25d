import Mathlib.Algebra.Order.Field.Basic
import Mathlib.Algebra.Order.Ring.Pow
import Mathlib.Tactic.FieldSimp
import Mathlib.Tactic.GCongr
import Mathlib.Tactic.Linarith
import Mathlib.Tactic.Positivity
import Mathlib.Tactic.Ring

/-!
# Relative error

`Near u k x y`: `k` operations, each of which is off by a part `u` of its result at most, may have
made `x` of `y`. Their number adds up over products, quotients and powers; a difference with one
costs what it cancels.

* `Near.mul`, `Near.div`, `Near.pow`, `Near.one_add`: the operations.
* `Near.sub_one`: the difference, in a coarser unit.
* `Near.abs_sub_le`: the error as a part of the exact value.

Out of scope: numbers below zero.
-/

namespace Meridian.Numeric

variable {K : Type} [Field K] [LinearOrder K]

/-- At most `k` relative errors of `u` lie between `x` and `y`. -/
structure Near (u : K) (k : ℕ) (x y : K) : Prop where
  low : y * (1 - u) ^ k ≤ x
  high : x * (1 - u) ^ k ≤ y

namespace Near

variable {u v x y x' y' : K} {k l : ℕ}

theorem refl (u x : K) : Near u 0 x x := by
  constructor <;> rw [pow_zero, mul_one]

variable [IsStrictOrderedRing K]

theorem mono (h : Near u k x y) (hu : 0 ≤ u) (hu' : u ≤ 1) (hx : 0 ≤ x) (hy : 0 ≤ y) (hkl : k ≤ l) :
    Near u l x y := by
  have hpow : (1 - u) ^ l ≤ (1 - u) ^ k := pow_le_pow_of_le_one (by linarith) (by linarith) hkl
  exact ⟨(mul_le_mul_of_nonneg_left hpow hy).trans h.low,
    (mul_le_mul_of_nonneg_left hpow hx).trans h.high⟩

/-- One more operation. -/
theorem step (h : Near u k x y) (hu : u ≤ 1) (hlow : x * (1 - u) ≤ x') (hhigh : x' * (1 - u) ≤ x) :
    Near u (k + 1) x' y := by
  constructor
  · calc y * (1 - u) ^ (k + 1) = y * (1 - u) ^ k * (1 - u) := by rw [pow_succ, mul_assoc]
      _ ≤ x * (1 - u) := mul_le_mul_of_nonneg_right h.low (by linarith)
      _ ≤ x' := hlow
  · calc x' * (1 - u) ^ (k + 1) = x' * (1 - u) * (1 - u) ^ k := by ring
      _ ≤ x * (1 - u) ^ k := mul_le_mul_of_nonneg_right hhigh (pow_nonneg (by linarith) k)
      _ ≤ y := h.high

theorem mul (h : Near u k x y) (h' : Near u l x' y') (hu : u ≤ 1) (hx : 0 ≤ x) (hy : 0 ≤ y)
    (hx' : 0 ≤ x') (hy' : 0 ≤ y') : Near u (k + l) (x * x') (y * y') := by
  have hl : 0 ≤ (1 - u) ^ l := pow_nonneg (by linarith) l
  constructor
  · calc y * y' * (1 - u) ^ (k + l) = y * (1 - u) ^ k * (y' * (1 - u) ^ l) := by ring
      _ ≤ x * x' := mul_le_mul h.low h'.low (mul_nonneg hy' hl) hx
  · calc x * x' * (1 - u) ^ (k + l) = x * (1 - u) ^ k * (x' * (1 - u) ^ l) := by ring
      _ ≤ y * y' := mul_le_mul h.high h'.high (mul_nonneg hx' hl) hy

theorem inv (h : Near u k x y) (hx : 0 < x) (hy : 0 < y) : Near u k x⁻¹ y⁻¹ := by
  constructor
  · rw [inv_mul_eq_div, div_le_iff₀ hy, ← div_eq_inv_mul, le_div_iff₀ hx, mul_comm]
    exact h.high
  · rw [inv_mul_eq_div, div_le_iff₀ hx, ← div_eq_inv_mul, le_div_iff₀ hy, mul_comm]
    exact h.low

theorem div (h : Near u k x y) (h' : Near u l x' y') (hu : u ≤ 1) (hx : 0 ≤ x) (hy : 0 ≤ y)
    (hx' : 0 < x') (hy' : 0 < y') : Near u (k + l) (x / x') (y / y') := by
  rw [div_eq_mul_inv, div_eq_mul_inv]
  exact h.mul (h'.inv hx' hy') hu hx hy (inv_nonneg.mpr hx'.le) (inv_nonneg.mpr hy'.le)

theorem pow (h : Near u k x y) (hu : u ≤ 1) (hx : 0 ≤ x) (hy : 0 ≤ y) (n : ℕ) :
    Near u (k * n) (x ^ n) (y ^ n) := by
  induction n with
  | zero =>
    rw [mul_zero, pow_zero, pow_zero]
    exact refl u 1
  | succ n ih =>
    rw [pow_succ, pow_succ, mul_add, mul_one]
    exact ih.mul h hu (pow_nonneg hx n) (pow_nonneg hy n) hx hy

/-- What is added exactly makes the error no larger. -/
theorem one_add (h : Near u k x y) (hu : 0 ≤ u) (hu' : u ≤ 1) : Near u k (1 + x) (1 + y) := by
  have hone : (1 - u) ^ k ≤ 1 := pow_le_one₀ (by linarith) (by linarith)
  constructor
  · rw [add_mul, one_mul]
    exact add_le_add hone h.low
  · rw [add_mul, one_mul]
    exact add_le_add hone h.high

/-- The same in a coarser unit. -/
theorem coarsen (h : Near u k x y) (hx : 0 ≤ x) (hy : 0 ≤ y) (hv : 1 - v ≤ (1 - u) ^ k) :
    Near v 1 x y := by
  constructor
  · rw [pow_one]
    exact (mul_le_mul_of_nonneg_left hv hy).trans h.low
  · rw [pow_one]
    exact (mul_le_mul_of_nonneg_left hv hx).trans h.high

/-- So many small errors are an error of their sum. -/
theorem one_sub_mul_le (hu : u ≤ 1) (k : ℕ) : 1 - k * u ≤ (1 - u) ^ k := by
  have hbernoulli := one_add_mul_le_pow (show -2 ≤ -u by linarith) k
  rwa [mul_neg, ← sub_eq_add_neg, ← sub_eq_add_neg] at hbernoulli

/-- **The error** is a part of the exact value. -/
theorem abs_sub_le (h : Near u k x y) (hu : 0 ≤ u) (hu' : u ≤ 1) (hx : 0 ≤ x) (hy : 0 ≤ y)
    (hk : k * u ≤ 1 / 2) : |x - y| ≤ 2 * (k * u) * y := by
  have hpow := one_sub_mul_le hu' k
  have hku : 0 ≤ k * u := mul_nonneg (Nat.cast_nonneg k) hu
  have hlow : y * (1 - k * u) ≤ x := (mul_le_mul_of_nonneg_left hpow hy).trans h.low
  have hhigh : x * (1 - k * u) ≤ y := (mul_le_mul_of_nonneg_left hpow hx).trans h.high
  generalize (k : K) * u = e at hku hk hlow hhigh ⊢
  -- a part that is at most a half is regained by twice as much
  have hback : x ≤ (1 + 2 * e) * y := by
    have hunit : 1 ≤ (1 - e) * (1 + 2 * e) := by
      have hroom : 0 ≤ e * (1 - 2 * e) := mul_nonneg hku (by linarith)
      linarith
    calc x ≤ x * ((1 - e) * (1 + 2 * e)) := le_mul_of_one_le_right hx hunit
      _ = x * (1 - e) * (1 + 2 * e) := by rw [mul_assoc]
      _ ≤ y * (1 + 2 * e) := mul_le_mul_of_nonneg_right hhigh (by linarith)
      _ = (1 + 2 * e) * y := mul_comm _ _
  rw [abs_le]
  constructor <;> linarith [mul_nonneg hku hy]

/-- **A difference with one** keeps an error of `v` where enough of the value is left. -/
theorem sub_one (h : Near u k x y) (hu : 0 ≤ u) (hu' : u ≤ 1) (hx : 0 ≤ x) (hy : 1 ≤ y)
    (hk : k * u ≤ 1 / 2) (hv : 0 ≤ v) (hv' : v ≤ 1) (hleft : 4 * (k * u) * y ≤ v * (y - 1)) :
    Near v 1 (x - 1) (y - 1) := by
  have herror := abs_le.mp (h.abs_sub_le hu hu' hx (by linarith) hk)
  have hrest : 0 ≤ v * (y - 1) := mul_nonneg hv (by linarith)
  constructor
  · rw [pow_one]
    linarith [herror.1]
  · rw [pow_one]
    calc (x - 1) * (1 - v) ≤ (1 + v / 2) * (y - 1) * (1 - v) :=
          mul_le_mul_of_nonneg_right (by linarith [herror.2]) (by linarith)
      _ = y - 1 - v * (y - 1) / 2 - v * (v * (y - 1)) / 2 := by ring
      _ ≤ y - 1 := by linarith [mul_nonneg hv hrest]

end Near

end Meridian.Numeric
