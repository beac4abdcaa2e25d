import Mathlib.Algebra.Order.Field.GeomSum
import Mathlib.Algebra.Order.BigOperators.Group.Finset
import Mathlib.Data.Rat.BigOperators
import Mathlib.Topology.Algebra.Order.Field
import Mathlib.Topology.Instances.Real.Lemmas
import Mathlib.Topology.Order.IntermediateValue

/-!
# The value of an annuity

`annuity n i` is what `n` payments of one unit, one at the end of each period, are worth at the
start when a period earns `i`. Written as the sum of the discounted payments it has no singularity
at rate zero, and each payment is worth less at a higher rate.

* `annuity_mul_rate`: the closed form, `annuity n i * i = 1 - (1 + i) ^ -n`.
* `annuity_strictAntiOn`: strictly decreasing above `-1`.
* `owed`, `repaid`, `accrued`: a loan of level payments by the number of payments left.
* `accumulation`: what the payments are worth at the end; `abs_le_accumulation` bounds by it what
  small errors come to.
* `exists_rate`: between the values at two rates every value is taken, at one rate only.
-/

namespace Meridian.Numeric

variable {K : Type} [Field K]

/-- The value at rate `i` of `n` unit payments in arrears. -/
def annuity (n : ℕ) (i : K) : K := ∑ k ∈ Finset.range n, (1 + i)⁻¹ ^ (k + 1)

@[simp] theorem annuity_rate_zero (n : ℕ) : annuity n (0 : K) = n := by
  simp [annuity]

theorem annuity_mul_rate (n : ℕ) {i : K} (hi : 1 + i ≠ 0) :
    annuity n i * i = 1 - (1 + i)⁻¹ ^ n := by
  unfold annuity
  induction n with
  | zero => simp
  | succ n ih =>
    have hlast : (1 + i)⁻¹ ^ (n + 1) * i = (1 + i)⁻¹ ^ n - (1 + i)⁻¹ ^ (n + 1) := by
      have hone : (1 + i)⁻¹ * i = 1 - (1 + i)⁻¹ := by
        field_simp
        ring
      rw [pow_succ, mul_assoc, hone]
      ring
    rw [Finset.sum_range_succ, add_mul, ih, hlast]
    ring

/-- The closed form away from rate zero. -/
theorem annuity_eq (n : ℕ) {i : K} (hi : 1 + i ≠ 0) (hne : i ≠ 0) :
    annuity n i = (1 - (1 + i)⁻¹ ^ n) / i :=
  eq_div_of_mul_eq hne (annuity_mul_rate n hi)

section Ordered

variable [LinearOrder K] [IsStrictOrderedRing K]

theorem annuity_nonneg (n : ℕ) {i : K} (hi : -1 < i) : 0 ≤ annuity n i :=
  Finset.sum_nonneg fun k _ => pow_nonneg (inv_nonneg.mpr (by linarith)) (k + 1)

theorem annuity_pos {n : ℕ} (hn : 0 < n) {i : K} (hi : -1 < i) : 0 < annuity n i := by
  refine Finset.sum_pos (fun k _ => ?_) ⟨0, Finset.mem_range.mpr hn⟩
  exact pow_pos (inv_pos.mpr (by linarith)) (k + 1)

theorem annuity_strictAntiOn {n : ℕ} (hn : 0 < n) : StrictAntiOn (annuity (K := K) n) (Set.Ioi (-1)) := by
  intro i hi j hj hij
  have hi : 0 < 1 + i := by linarith [Set.mem_Ioi.mp hi]
  have hlt : (1 + j)⁻¹ < (1 + i)⁻¹ := inv_strictAnti₀ hi (by linarith)
  have hpos : 0 ≤ (1 + j)⁻¹ := inv_nonneg.mpr (by linarith)
  refine Finset.sum_lt_sum_of_nonempty ⟨0, Finset.mem_range.mpr hn⟩ fun k _ => ?_
  exact pow_lt_pow_left₀ hlt hpos (Nat.succ_ne_zero k)

/-- At a rate that is not negative the payments are worth at most their sum. -/
theorem annuity_le (n : ℕ) {i : K} (hi : 0 ≤ i) : annuity n i ≤ n := by
  have hterm : ∀ k ∈ Finset.range n, (1 + i)⁻¹ ^ (k + 1) ≤ 1 := by
    intro k _
    have hone : (1 + i)⁻¹ ≤ 1 := inv_le_one_of_one_le₀ (by linarith)
    exact pow_le_one₀ (inv_nonneg.mpr (by linarith)) hone
  calc annuity n i ≤ ∑ _k ∈ Finset.range n, (1 : K) := Finset.sum_le_sum hterm
    _ = n := by simp

end Ordered

/-! ## A loan of level payments

By the number `j` of payments that are left, before the first of them. -/

/-- The level payment that repays `value`. -/
def level (value : K) (n : ℕ) (i : K) : K := value / annuity n i

/-- What is owed. -/
def owed (pmt i : K) (j : ℕ) : K := pmt * annuity j i

/-- The part of the next payment that repays. -/
def repaid (pmt i : K) (j : ℕ) : K := pmt * (1 + i)⁻¹ ^ j

/-- The part of the next payment that is interest. -/
def accrued (pmt i : K) (j : ℕ) : K := pmt * (1 - (1 + i)⁻¹ ^ j)

@[simp] theorem owed_zero (pmt i : K) : owed pmt i 0 = 0 := by
  simp [owed, annuity]

theorem owed_succ (pmt i : K) (j : ℕ) : owed pmt i (j + 1) = owed pmt i j + repaid pmt i (j + 1) := by
  rw [owed, owed, repaid, annuity, annuity, Finset.sum_range_succ, mul_add]

@[simp] theorem repaid_add_accrued (pmt i : K) (j : ℕ) : repaid pmt i j + accrued pmt i j = pmt := by
  unfold repaid accrued
  ring

theorem owed_mul_rate (pmt : K) {i : K} (hi : 1 + i ≠ 0) (j : ℕ) :
    owed pmt i j * i = accrued pmt i j := by
  rw [owed, accrued, mul_assoc, annuity_mul_rate j hi]

/-- A month adds its interest and takes a payment. -/
theorem owed_grow (pmt : K) {i : K} (hi : 1 + i ≠ 0) (j : ℕ) :
    owed pmt i (j + 1) * (1 + i) = owed pmt i j + pmt := by
  rw [mul_add, mul_one, owed_mul_rate pmt hi, owed_succ, add_assoc, repaid_add_accrued]

section Ordered

variable [LinearOrder K] [IsStrictOrderedRing K]

/-- The closed form of the level payment. -/
theorem level_eq (value : K) {n : ℕ} (hn : n ≠ 0) {i : K} (hi : 0 < i) :
    level value n i = value * i * (1 + i) ^ n / ((1 + i) ^ n - 1) := by
  have hgrow : 1 < (1 + i) ^ n := one_lt_pow₀ (by linarith) hn
  have hden : (1 + i) ^ n - 1 ≠ 0 := by linarith
  have hfactor : (1 + i) ^ n ≠ 0 := by linarith
  rw [level, annuity_eq _ (by linarith) hi.ne', inv_pow]
  generalize (1 + i) ^ n = factor at hden hfactor ⊢
  field_simp

theorem owed_level (value : K) {n : ℕ} (hn : 0 < n) {i : K} (hi : -1 < i) :
    owed (level value n i) i n = value :=
  div_mul_cancel₀ value (annuity_pos hn hi).ne'

/-- The level payment is no more than the value after one month. -/
theorem level_le {value : K} (hvalue : 0 ≤ value) {n : ℕ} (hn : n ≠ 0) {i : K} (hi : 0 ≤ i) :
    level value n i ≤ value * (1 + i) := by
  have hfirst : (1 + i)⁻¹ ≤ annuity n i := by
    have hterm : ∀ k ∈ Finset.range n, 0 ≤ (1 + i)⁻¹ ^ (k + 1) := fun k _ => by positivity
    have hsingle := Finset.single_le_sum hterm (Finset.mem_range.mpr (Nat.pos_of_ne_zero hn))
    rwa [zero_add, pow_one] at hsingle
  rw [level, div_le_iff₀ (annuity_pos (Nat.pos_of_ne_zero hn) (by linarith))]
  calc value = value * (1 + i) * (1 + i)⁻¹ := by
        rw [mul_assoc, mul_inv_cancel₀ (by linarith), mul_one]
    _ ≤ value * (1 + i) * annuity n i :=
        mul_le_mul_of_nonneg_left hfirst (mul_nonneg hvalue (by linarith))

theorem level_pos {value : K} (hvalue : 0 < value) {n : ℕ} (hn : 0 < n) {i : K} (hi : -1 < i) :
    0 < level value n i :=
  div_pos hvalue (annuity_pos hn hi)

variable {pmt i : K} (hpmt : 0 ≤ pmt) (hi : 0 ≤ i)

include hpmt

theorem owed_nonneg (hi : -1 < i) (j : ℕ) : 0 ≤ owed pmt i j :=
  mul_nonneg hpmt (annuity_nonneg j hi)

include hi

theorem repaid_nonneg (j : ℕ) : 0 ≤ repaid pmt i j :=
  mul_nonneg hpmt (pow_nonneg (inv_nonneg.mpr (by linarith)) j)

theorem repaid_le (j : ℕ) : repaid pmt i j ≤ pmt := by
  have hone : (1 + i)⁻¹ ≤ 1 := inv_le_one_of_one_le₀ (by linarith)
  exact mul_le_of_le_one_right hpmt (pow_le_one₀ (inv_nonneg.mpr (by linarith)) hone)

theorem accrued_nonneg (j : ℕ) : 0 ≤ accrued pmt i j := by
  have hsum := repaid_add_accrued pmt i j
  linarith [repaid_le hpmt hi j]

theorem accrued_le (j : ℕ) : accrued pmt i j ≤ pmt := by
  have hsum := repaid_add_accrued pmt i j
  linarith [repaid_nonneg hpmt hi j]

/-- No more is owed than the payments that are left. -/
theorem owed_le (j : ℕ) : owed pmt i j ≤ j * pmt := by
  rw [mul_comm]
  exact mul_le_mul_of_nonneg_left (annuity_le j hi) hpmt

/-- So many payments repay no more than they are. -/
theorem owed_le_add {j n : ℕ} (h : j ≤ n) : owed pmt i n ≤ owed pmt i j + (n - j : ℕ) * pmt := by
  induction n, h using Nat.le_induction with
  | base => simp
  | succ n hn ih =>
    have hpart := repaid_le hpmt hi (n + 1)
    rw [owed_succ, Nat.succ_sub hn, Nat.cast_succ]
    linarith

/-- What is owed falls with each payment. -/
theorem owed_mono {j n : ℕ} (h : j ≤ n) : owed pmt i j ≤ owed pmt i n := by
  induction n, h using Nat.le_induction with
  | base => exact le_rfl
  | succ n _ ih =>
    rw [owed_succ]
    linarith [repaid_nonneg hpmt hi (n + 1)]

end Ordered

/-! ## Payments at their end -/

/-- The value at the end of `n` unit payments in arrears. -/
def accumulation (n : ℕ) (i : K) : K := ∑ k ∈ Finset.range n, (1 + i) ^ k

@[simp] theorem accumulation_zero (i : K) : accumulation 0 i = 0 := by
  simp [accumulation]

theorem accumulation_succ (n : ℕ) (i : K) :
    accumulation (n + 1) i = (1 + i) * accumulation n i + 1 := geom_sum_succ

theorem accumulation_mul_rate (n : ℕ) (i : K) : accumulation n i * i = (1 + i) ^ n - 1 := by
  have hgeom := geom_sum_mul (1 + i) n
  rwa [add_sub_cancel_left] at hgeom

section Ordered

variable [LinearOrder K] [IsStrictOrderedRing K] {n : ℕ} {i η : K}

theorem accumulation_mono {m : ℕ} {j : K} (hi : 0 ≤ i) (hij : i ≤ j) (hmn : m ≤ n) :
    accumulation m i ≤ accumulation n j := by
  calc accumulation m i ≤ ∑ k ∈ Finset.range m, (1 + j) ^ k :=
        Finset.sum_le_sum fun k _ => pow_le_pow_left₀ (by linarith) (by linarith) k
    _ ≤ accumulation n j := Finset.sum_le_sum_of_subset_of_nonneg (Finset.range_mono hmn)
        fun k _ _ => pow_nonneg (by linarith) k

/-- Interest adds to the payments. -/
theorem le_accumulation (hi : 0 ≤ i) (n : ℕ) : (n : K) ≤ accumulation n i := by
  calc (n : K) = ∑ _k ∈ Finset.range n, (1 : K) := by simp
    _ ≤ accumulation n i := Finset.sum_le_sum fun k _ => one_le_pow₀ (by linarith)

/-- **Drift.** What is put in a step at a time, `η` at most, accumulates to no more than payments
of `η` do. -/
theorem abs_le_accumulation {x : ℕ → K} (hi : 0 ≤ i) (hzero : x 0 = 0)
    (hstep : ∀ k < n, |x k| ≤ η * accumulation k i → |x (k + 1) - (1 + i) * x k| ≤ η) :
    ∀ k ≤ n, |x k| ≤ η * accumulation k i := by
  intro k
  induction k with
  | zero =>
    intro _
    rw [hzero, abs_zero, accumulation_zero, mul_zero]
  | succ k ih =>
    intro hk
    have hbefore := ih (by omega)
    have hput := hstep k (by omega) hbefore
    calc |x (k + 1)| = |(1 + i) * x k + (x (k + 1) - (1 + i) * x k)| := by rw [add_sub_cancel]
      _ ≤ |(1 + i) * x k| + |x (k + 1) - (1 + i) * x k| := abs_add_le _ _
      _ ≤ (1 + i) * (η * accumulation k i) + η := by
          rw [abs_mul, abs_of_nonneg (show 0 ≤ 1 + i by linarith)]
          exact add_le_add (mul_le_mul_of_nonneg_left hbefore (by linarith)) hput
      _ = η * accumulation (k + 1) i := by
          rw [accumulation_succ]
          ring

end Ordered

theorem annuity_cast (n : ℕ) (i : ℚ) : ((annuity n i : ℚ) : ℝ) = annuity n (i : ℝ) := by
  unfold annuity
  push_cast
  exact rfl

theorem annuity_continuousOn (n : ℕ) : ContinuousOn (annuity (K := ℝ) n) (Set.Ioi (-1)) := by
  unfold annuity
  refine continuousOn_finsetSum _ fun k _ => ContinuousOn.pow (ContinuousOn.inv₀ ?_ ?_) (k + 1)
  · exact (continuous_const.add continuous_id).continuousOn
  · intro i hi
    have hpos : 0 < 1 + i := by linarith [Set.mem_Ioi.mp hi]
    exact hpos.ne'

/-- **A value between those of two rates is taken at one rate only**, and it lies between them. -/
theorem exists_rate {n : ℕ} (hn : 0 < n) {pmt value lo hi : ℝ} (hpmt : 0 < pmt) (hlo : -1 < lo)
    (hle : lo ≤ hi) (hlow : value ≤ pmt * annuity n lo) (hhigh : pmt * annuity n hi ≤ value) :
    ∃ i, lo ≤ i ∧ i ≤ hi ∧ pmt * annuity n i = value ∧
      ∀ j, -1 < j → pmt * annuity n j = value → j = i := by
  have hsub : Set.Icc lo hi ⊆ Set.Ioi (-1) := fun x hx => lt_of_lt_of_le hlo hx.1
  have hcont : ContinuousOn (fun i => pmt * annuity n i) (Set.Icc lo hi) :=
    continuousOn_const.mul ((annuity_continuousOn n).mono hsub)
  obtain ⟨i, hi, hvalue⟩ := intermediate_value_Icc' hle hcont ⟨hhigh, hlow⟩
  refine ⟨i, hi.1, hi.2, hvalue, fun j hj hvalue' => ?_⟩
  have hsame : annuity n j = annuity n i :=
    mul_left_cancel₀ hpmt.ne' (hvalue'.trans hvalue.symm)
  exact (annuity_strictAntiOn hn).injOn (Set.mem_Ioi.mpr hj) (hsub hi) hsame

end Meridian.Numeric
