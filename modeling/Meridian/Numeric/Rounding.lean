import Mathlib.Algebra.Order.Field.Power
import Mathlib.Algebra.Order.Floor.Ring
import Mathlib.Algebra.Order.Round
import Mathlib.Data.Int.Log
import Mathlib.Tactic.FieldSimp
import Mathlib.Tactic.Linarith
import Mathlib.Tactic.Positivity
import Mathlib.Tactic.Ring

/-!
# Rounding in decimal

`halfUp` and `halfEven` round to an integer, ties away from zero and to the even neighbour.
`roundTo p` keeps `p` significant digits: it rounds half to even at `quantum p x`, the place of the
`p`-th digit of `x`.

* `halfUp_near`, `halfEven_near`: at most one half off.
* `halfEven_eq`: the nearest integer, the even one of two.
* `halfUp_mono`, `halfEven_mono`: order is kept.
* `halfUp_eq_halfUp_iff`: two numbers round alike where no half separates them.
* `halfUp_add_intCast`: a rounding that stays on one side of zero commutes with whole numbers.
* `roundTo_eq`: a number of at most `p` digits is its own rounding.
* `roundTo_eq_of_near`: the number of at most `p` digits that is close is the rounding.
* `roundTo_mono`, `roundTo_idem`: it keeps order and is done once.
* `roundTo_form`: what a rounding looks like; `roundTo_near` is its relative error.
-/

namespace Meridian.Numeric

variable {K : Type} [Field K] [LinearOrder K] [IsStrictOrderedRing K] [FloorRing K]

/-! ## To an integer -/

/-- Ties away from zero. -/
def halfUp (x : K) : ℤ := if 0 ≤ x then ⌊x + 1 / 2⌋ else ⌈x - 1 / 2⌉

/-- Ties to even. -/
def halfEven (x : K) : ℤ :=
  if x - ⌊x⌋ < 1 / 2 then ⌊x⌋
  else if 1 / 2 < x - ⌊x⌋ then ⌊x⌋ + 1
  else if ⌊x⌋ % 2 = 0 then ⌊x⌋ else ⌊x⌋ + 1

theorem halfUp_near (x : K) : |(halfUp x : K) - x| ≤ 1 / 2 := by
  unfold halfUp
  rw [abs_le]
  split_ifs
  · have hlow := Int.lt_floor_add_one (x + 1 / 2)
    have hhigh := Int.floor_le (x + 1 / 2)
    constructor <;> linarith
  · have hlow := Int.le_ceil (x - 1 / 2)
    have hhigh := Int.ceil_lt_add_one (x - 1 / 2)
    constructor <;> linarith

theorem halfEven_near (x : K) : |(halfEven x : K) - x| ≤ 1 / 2 := by
  have hlow := Int.floor_le x
  have hhigh := Int.lt_floor_add_one x
  unfold halfEven
  rw [abs_le]
  split_ifs <;> push_cast <;> constructor <;> linarith

/-- Less than a half away, a number is rounded to where it is near, whatever happens to the ties. -/
theorem eq_of_near {x : K} {m n : ℤ} (hm : |(m : K) - x| ≤ 1 / 2) (hn : |x - n| < 1 / 2) :
    m = n := by
  have hlt : |((m - n : ℤ) : K)| < 1 := by
    push_cast
    calc |(m : K) - n| ≤ |(m : K) - x| + |x - n| := abs_sub_le _ _ _
      _ < 1 := by linarith
  have hzero := Int.abs_lt_one_iff.mp (show |m - n| < 1 by exact_mod_cast hlt)
  omega

@[simp] theorem halfUp_intCast (n : ℤ) : halfUp (n : K) = n := by
  have hnear := abs_le.mp (halfUp_near (n : K))
  have hlow : (n : K) < (halfUp (n : K) : K) + 1 := by linarith
  have hhigh : (halfUp (n : K) : K) < (n : K) + 1 := by linarith
  have hlow : n < halfUp (n : K) + 1 := by exact_mod_cast hlow
  have hhigh : halfUp (n : K) < n + 1 := by exact_mod_cast hhigh
  omega

@[simp] theorem halfEven_intCast (n : ℤ) : halfEven (n : K) = n := by
  unfold halfEven
  rw [Int.floor_intCast, sub_self, if_pos (by norm_num)]

/-- The nearest integer, and of two equally near ones the even one. -/
theorem halfEven_eq {x : K} {n : ℤ} (hnear : |x - n| ≤ 1 / 2)
    (htie : |x - n| = 1 / 2 → n % 2 = 0) : halfEven x = n := by
  have hlow := Int.floor_le x
  have hhigh := Int.lt_floor_add_one x
  obtain ⟨hleft, hright⟩ := abs_le.mp hnear
  have hfloor : n = ⌊x⌋ ∨ n = ⌊x⌋ + 1 := by
    have h1 : ((⌊x⌋ : ℤ) : K) - 1 < n := by linarith
    have h2 : (n : K) < ((⌊x⌋ : ℤ) : K) + 2 := by linarith
    have h1 : ⌊x⌋ - 1 < n := by exact_mod_cast h1
    have h2 : n < ⌊x⌋ + 2 := by exact_mod_cast h2
    omega
  unfold halfEven
  rcases hfloor with hn | hn
  · rw [← hn]
    have htie' : ¬x - n < 1 / 2 → n % 2 = 0 := fun h => htie (by
      rw [abs_of_nonneg (by linarith [hn ▸ hlow])]
      exact le_antisymm hright (not_lt.mp h))
    split_ifs with h1 h2 h3
    · rfl
    · exact absurd h2 (by linarith)
    · rfl
    · exact absurd (htie' h1) h3
  · have hcast : (n : K) = ((⌊x⌋ : ℤ) : K) + 1 := by rw [hn]; push_cast; rfl
    have htie' : ¬1 / 2 < x - ⌊x⌋ → n % 2 = 0 := fun h => htie (by
      rw [abs_of_nonpos (by linarith)]
      linarith)
    split_ifs with h1 h2 h3
    · exact absurd h1 (by linarith)
    · exact hn.symm
    · have := htie' h2
      omega
    · exact hn.symm

/-- A rounding that is not negative goes up from one half on. -/
theorem halfUp_eq_floor {x : K} (h : 0 ≤ halfUp x) : halfUp x = ⌊x + 1 / 2⌋ := by
  by_cases hx : 0 ≤ x
  · exact if_pos hx
  · rw [halfUp, if_neg hx] at h ⊢
    have hlow : -1 < x - 1 / 2 := by
      have hceil := Int.lt_ceil.mp (show (-1 : ℤ) < ⌈x - 1 / 2⌉ by omega)
      exact_mod_cast hceil
    have hzero : ⌈x - 1 / 2⌉ = 0 := by
      rw [Int.ceil_eq_iff]
      push_cast
      constructor <;> linarith
    have hfloor : ⌊x + 1 / 2⌋ = 0 := by
      rw [Int.floor_eq_iff]
      push_cast
      constructor <;> linarith
    rw [hzero, hfloor]

/-- **Whole numbers pass through** a rounding that is not negative on either side. -/
theorem halfUp_add_intCast {x : K} {n : ℤ} (hx : 0 ≤ halfUp x) (hxn : 0 ≤ halfUp (x + n)) :
    halfUp (x + n) = halfUp x + n := by
  rw [halfUp_eq_floor hx, halfUp_eq_floor hxn, ← Int.floor_add_intCast]
  congr 1
  ring

theorem halfUp_mono {x y : K} (h : x ≤ y) : halfUp x ≤ halfUp y := by
  unfold halfUp
  split_ifs with hx hy hy
  · exact Int.floor_le_floor (by linarith)
  · exact absurd (hx.trans h) hy
  · have hlow : ⌈x - 1 / 2⌉ ≤ 0 := Int.ceil_le.mpr (by push_cast; linarith)
    have hhigh : 0 ≤ ⌊y + 1 / 2⌋ := Int.le_floor.mpr (by push_cast; linarith)
    exact hlow.trans hhigh
  · exact Int.ceil_le_ceil (by linarith)

theorem halfUp_nonneg {x : K} (hx : 0 ≤ x) : 0 ≤ halfUp x := by
  rw [halfUp, if_pos hx]
  exact Int.floor_nonneg.mpr (by linarith)

/-- A rounding stays at or below a whole number up to the half above it. -/
theorem halfUp_le_iff {x : K} (hx : 0 ≤ x) {n : ℤ} : halfUp x ≤ n ↔ x < n + 1 / 2 := by
  rw [halfUp, if_pos hx, ← Int.lt_add_one_iff, Int.floor_lt]
  push_cast
  constructor <;> intro h <;> linarith

/-- **Two numbers round alike** where no half separates them. -/
theorem halfUp_eq_halfUp_iff {x y : K} (hx : 0 ≤ x) (hy : 0 ≤ y) :
    halfUp x = halfUp y ↔ ∀ n : ℕ, x < n + 1 / 2 ↔ y < n + 1 / 2 := by
  have hwhole : ∀ {z : K}, 0 ≤ z → ∀ n : ℕ, (halfUp z ≤ n ↔ z < n + 1 / 2) := fun hz n => by
    exact_mod_cast halfUp_le_iff hz (n := n)
  constructor
  · intro h n
    rw [← hwhole hx, ← hwhole hy, h]
  · intro h
    obtain ⟨a, ha⟩ := Int.eq_ofNat_of_zero_le (halfUp_nonneg hx)
    obtain ⟨b, hb⟩ := Int.eq_ofNat_of_zero_le (halfUp_nonneg hy)
    refine le_antisymm ?_ ?_
    · rw [hb, hwhole hx, h, ← hwhole hy, hb]
    · rw [ha, hwhole hy, ← h, ← hwhole hx, ha]

theorem halfUp_neg (x : K) : halfUp (-x) = -halfUp x := by
  rcases lt_trichotomy x 0 with hx | rfl | hx
  · rw [halfUp, halfUp, if_pos (by linarith), if_neg (not_le.mpr hx), ← Int.floor_neg]
    congr 1
    ring
  · have hzero : halfUp (0 : K) = 0 := by simpa using halfUp_intCast (K := K) 0
    rw [neg_zero, hzero, neg_zero]
  · rw [halfUp, halfUp, if_neg (by linarith), if_pos hx.le, ← Int.ceil_neg]
    congr 1
    ring

theorem halfEven_mono {x y : K} (h : x ≤ y) : halfEven x ≤ halfEven y := by
  by_contra hlt
  have hstep : (halfEven y : K) + 1 ≤ halfEven x := by exact_mod_cast not_le.mp hlt
  have hx := (abs_le.mp (halfEven_near x)).2
  have hy := (abs_le.mp (halfEven_near y)).1
  -- both roundings are off by one half, so the numbers are the same
  have hsame : x = y := by linarith
  rw [hsame] at hlt
  exact hlt le_rfl

/-! ## To significant digits -/

/-- The place of the `p`-th digit. -/
def quantum (p : ℕ) (x : K) : K := 10 ^ (Int.log 10 |x| + 1 - p)

/-- `x` rounded half to even to `p` significant digits. -/
def roundTo (p : ℕ) (x : K) : K := if x = 0 then 0 else halfEven (x / quantum p x) * quantum p x

theorem quantum_pos (p : ℕ) (x : K) : 0 < quantum p x := by
  unfold quantum
  positivity

/-- The first digit is `p - 1` places above. -/
theorem quantum_le (p : ℕ) {x : K} (hx : x ≠ 0) : quantum p x * 10 ^ ((p : ℤ) - 1) ≤ |x| := by
  have hlog := Int.zpow_log_le_self (b := 10) (by norm_num) (abs_pos.mpr hx)
  have hexp : Int.log 10 |x| + 1 - p + ((p : ℤ) - 1) = Int.log 10 |x| := by ring
  rw [quantum, ← zpow_add₀ (by norm_num), hexp]
  exact_mod_cast hlog

theorem abs_lt_quantum (p : ℕ) (x : K) : |x| < quantum p x * 10 ^ (p : ℤ) := by
  have hlog := Int.lt_zpow_succ_log_self (b := 10) (by norm_num) |x|
  have hexp : Int.log 10 |x| + 1 - p + (p : ℤ) = Int.log 10 |x| + 1 := by ring
  rw [quantum, ← zpow_add₀ (by norm_num), hexp]
  exact_mod_cast hlog

/-- **A number of at most `p` digits is kept.** -/
theorem roundTo_eq {p : ℕ} (hp : 0 < p) {x : K} (m e : ℤ) (hx : x = m * 10 ^ e)
    (hm : |m| ≤ 10 ^ p) : roundTo p x = x := by
  unfold roundTo
  by_cases h0 : x = 0
  · rw [if_pos h0, h0]
  · rw [if_neg h0]
    have hten : (0 : K) < 10 ^ e := by positivity
    -- the place of the last digit kept is not below that of `m`, or `m` is a power of ten
    have hwhole : ∃ n : ℤ, x / quantum p x = n := by
      have hlog : Int.log 10 |x| ≤ p + e := by
        have hle : |x| ≤ (10 : K) ^ ((p : ℤ) + e) := by
          rw [hx, abs_mul, abs_of_pos hten, zpow_add₀ (by norm_num), zpow_natCast]
          have hm' : |(m : K)| ≤ 10 ^ p := by exact_mod_cast hm
          exact mul_le_mul_of_nonneg_right hm' hten.le
        have hmono := Int.log_mono_right (b := 10) (abs_pos.mpr h0) hle
        have hpow : Int.log 10 ((10 : K) ^ ((p : ℤ) + e)) = p + e := by
          exact_mod_cast Int.log_zpow (R := K) (b := 10) (by norm_num) ((p : ℤ) + e)
        rwa [hpow] at hmono
      by_cases hlt : Int.log 10 |x| < p + e
      · refine ⟨m * 10 ^ (e - (Int.log 10 |x| + 1 - p)).toNat, ?_⟩
        have hsplit : (10 : K) ^ e = 10 ^ (e - (Int.log 10 |x| + 1 - p)).toNat * quantum p x := by
          rw [quantum, ← zpow_natCast, ← zpow_add₀ (by norm_num)]
          congr 1
          omega
        have hq := (quantum_pos p x).ne'
        rw [div_eq_iff hq]
        push_cast
        rw [mul_assoc, ← hsplit, hx]
      · have hlog : Int.log 10 |x| = p + e := by omega
        have habs : |x| = 10 ^ ((p : ℤ) + e) := by
          refine le_antisymm ?_ ?_
          · rw [hx, abs_mul, abs_of_pos hten, zpow_add₀ (by norm_num), zpow_natCast]
            have hm' : |(m : K)| ≤ 10 ^ p := by exact_mod_cast hm
            exact mul_le_mul_of_nonneg_right hm' hten.le
          · have hle := Int.zpow_log_le_self (b := 10) (by norm_num) (abs_pos.mpr h0)
            rw [hlog] at hle
            exact_mod_cast hle
        have hsplit : (10 : K) ^ ((p : ℤ) + e) = 10 ^ (p - 1) * quantum p x := by
          rw [quantum, hlog, ← zpow_natCast, ← zpow_add₀ (by norm_num)]
          congr 1
          omega
        have hq := (quantum_pos p x).ne'
        rcases abs_choice x with hpos | hneg
        · refine ⟨10 ^ (p - 1), ?_⟩
          rw [div_eq_iff hq]
          push_cast
          rw [← hsplit, ← habs, hpos]
        · refine ⟨-10 ^ (p - 1), ?_⟩
          rw [div_eq_iff hq]
          push_cast
          rw [neg_mul, ← hsplit, ← habs, hneg, neg_neg]
    obtain ⟨n, hn⟩ := hwhole
    rw [hn, halfEven_intCast, ← hn, div_mul_cancel₀ _ (quantum_pos p x).ne']

omit [IsStrictOrderedRing K] in
theorem roundTo_zero (p : ℕ) : roundTo p (0 : K) = 0 := if_pos rfl

/-- A rounding is a multiple of the last place kept, of at most `p` digits. -/
theorem roundTo_form (p : ℕ) (x : K) : ∃ n : ℤ, roundTo p x = n * quantum p x ∧ |n| ≤ 10 ^ p := by
  by_cases h0 : x = 0
  · exact ⟨0, by rw [h0, roundTo_zero, Int.cast_zero, zero_mul], by simp⟩
  · refine ⟨halfEven (x / quantum p x), by rw [roundTo, if_neg h0], ?_⟩
    have hq := quantum_pos p x
    have hlt : |x / quantum p x| < 10 ^ p := by
      rw [abs_div, abs_of_pos hq, div_lt_iff₀ hq, mul_comm, ← zpow_natCast]
      exact abs_lt_quantum p x
    have hnear := abs_le.mp (halfEven_near (x / quantum p x))
    have hlt := abs_lt.mp hlt
    have hlow : -((10 : K) ^ p) - 1 < (halfEven (x / quantum p x) : K) := by linarith
    have hhigh : (halfEven (x / quantum p x) : K) < 10 ^ p + 1 := by linarith
    have hlow : -(10 ^ p : ℤ) - 1 < halfEven (x / quantum p x) := by exact_mod_cast hlow
    have hhigh : halfEven (x / quantum p x) < (10 ^ p : ℤ) + 1 := by exact_mod_cast hhigh
    exact abs_le.mpr ⟨by omega, by omega⟩

/-- The relative error of a rounding. -/
theorem roundTo_near (p : ℕ) (x : K) : |roundTo p x - x| ≤ |x| * (10 ^ (1 - (p : ℤ)) / 2) := by
  by_cases h0 : x = 0
  · rw [h0, roundTo_zero, sub_self, abs_zero, zero_mul]
  · have hq := quantum_pos p x
    have hnear := halfEven_near (x / quantum p x)
    have hscale : roundTo p x - x =
        ((halfEven (x / quantum p x) : K) - x / quantum p x) * quantum p x := by
      rw [roundTo, if_neg h0, sub_mul, div_mul_cancel₀ _ hq.ne']
    have hplace : quantum p x ≤ |x| * 10 ^ (1 - (p : ℤ)) := by
      have hle := mul_le_mul_of_nonneg_right (quantum_le p h0)
        (show (0 : K) ≤ 10 ^ (1 - (p : ℤ)) by positivity)
      rw [mul_assoc, ← zpow_add₀ (by norm_num)] at hle
      simpa using hle
    calc |roundTo p x - x|
        = |(halfEven (x / quantum p x) : K) - x / quantum p x| * quantum p x := by
          rw [hscale, abs_mul, abs_of_pos hq]
      _ ≤ 1 / 2 * quantum p x := mul_le_mul_of_nonneg_right hnear hq.le
      _ ≤ 1 / 2 * (|x| * 10 ^ (1 - (p : ℤ))) := mul_le_mul_of_nonneg_left hplace (by norm_num)
      _ = |x| * (10 ^ (1 - (p : ℤ)) / 2) := by ring

/-! ## Order and sign -/

theorem halfEven_neg (x : K) : halfEven (-x) = -halfEven x := by
  have hlow := Int.floor_le x
  have hhigh := Int.lt_floor_add_one x
  by_cases hint : x = ⌊x⌋
  · rw [hint, ← Int.cast_neg, halfEven_intCast, halfEven_intCast]
  · have hfrac : 0 < x - ⌊x⌋ := lt_of_le_of_ne (by linarith) fun h => hint (by linarith)
    have hfloor : ⌊-x⌋ = -⌊x⌋ - 1 := by
      rw [Int.floor_eq_iff]
      push_cast
      constructor <;> linarith
    unfold halfEven
    rw [hfloor]
    push_cast
    rcases lt_trichotomy (x - ⌊x⌋) (1 / 2) with hlt | heq | hgt
    · rw [if_neg (by linarith), if_pos (by linarith), if_pos hlt]
      ring
    · have hparity : (-⌊x⌋ - 1) % 2 = 0 ↔ ¬⌊x⌋ % 2 = 0 := by omega
      rw [if_neg (by linarith), if_neg (by linarith), if_neg (show ¬x - ⌊x⌋ < 1 / 2 by linarith),
        if_neg (show ¬1 / 2 < x - ⌊x⌋ by linarith)]
      by_cases heven : ⌊x⌋ % 2 = 0
      · rw [if_neg (fun h => hparity.mp h heven), if_pos heven]
        ring
      · rw [if_pos (hparity.mpr heven), if_neg heven]
        ring
    · rw [if_pos (by linarith), if_neg (by linarith), if_pos hgt]
      ring

omit [IsStrictOrderedRing K] in
theorem quantum_neg (p : ℕ) (x : K) : quantum p (-x) = quantum p x := by
  rw [quantum, abs_neg, quantum]

theorem roundTo_neg (p : ℕ) (x : K) : roundTo p (-x) = -roundTo p x := by
  unfold roundTo
  by_cases h : x = 0
  · rw [if_pos h, if_pos (neg_eq_zero.mpr h), neg_zero]
  · rw [if_neg h, if_neg (neg_ne_zero.mpr h), quantum_neg, neg_div, halfEven_neg, Int.cast_neg,
      neg_mul]

theorem roundTo_nonneg (p : ℕ) {x : K} (h : 0 ≤ x) : 0 ≤ roundTo p x := by
  unfold roundTo
  split_ifs
  · exact le_rfl
  · have hq := quantum_pos p x
    have hround : halfEven (0 : K) ≤ halfEven (x / quantum p x) :=
      halfEven_mono (div_nonneg h hq.le)
    have hzero : halfEven (0 : K) = 0 := by
      simpa using halfEven_intCast (K := K) 0
    rw [hzero] at hround
    exact mul_nonneg (by exact_mod_cast hround) hq.le

theorem roundTo_mono_of_pos {p : ℕ} (hp : 0 < p) {x y : K} (hx : 0 < x) (h : x ≤ y) :
    roundTo p x ≤ roundTo p y := by
  have hy : 0 < y := hx.trans_le h
  have hlog : Int.log 10 |x| ≤ Int.log 10 |y| := by
    rw [abs_of_pos hx, abs_of_pos hy]
    exact Int.log_mono_right hx h
  rcases hlog.lt_or_eq with hlt | heq
  · -- another power of ten lies between the two
    obtain ⟨n, hn, hle⟩ := roundTo_form p x
    have hnq : (n : K) ≤ 10 ^ (p : ℤ) := by
      rw [zpow_natCast]
      exact_mod_cast (abs_le.mp hle).2
    have hxle : roundTo p x ≤ 10 ^ (Int.log 10 |x| + 1) := by
      rw [hn]
      refine (mul_le_mul_of_nonneg_right hnq (quantum_pos p x).le).trans (le_of_eq ?_)
      rw [quantum, ← zpow_add₀ (by norm_num)]
      congr 1
      ring
    have hyle : (10 : K) ^ Int.log 10 |y| ≤ roundTo p y := by
      have hq := quantum_pos p y
      have hfirst : ((10 ^ (p - 1) : ℤ) : K) ≤ y / quantum p y := by
        rw [le_div_iff₀ hq, mul_comm]
        have hle := quantum_le p hy.ne'
        rw [abs_of_pos hy] at hle
        have hexp : (10 : K) ^ ((p : ℤ) - 1) = ((10 ^ (p - 1) : ℤ) : K) := by
          push_cast
          rw [← zpow_natCast]
          congr 1
          omega
        rwa [hexp] at hle
      have hround := halfEven_mono hfirst
      rw [halfEven_intCast] at hround
      have hround : ((10 ^ (p - 1) : ℤ) : K) ≤ halfEven (y / quantum p y) := by exact_mod_cast hround
      rw [roundTo, if_neg hy.ne']
      refine le_trans (le_of_eq ?_) (mul_le_mul_of_nonneg_right hround hq.le)
      push_cast
      rw [quantum, ← zpow_natCast, ← zpow_add₀ (by norm_num)]
      congr 1
      omega
    exact hxle.trans ((zpow_le_zpow_right₀ (by norm_num) (by omega)).trans hyle)
  · have hsame : quantum p x = quantum p y := by rw [quantum, quantum, heq]
    have hq := quantum_pos p y
    rw [roundTo, roundTo, if_neg hx.ne', if_neg hy.ne', hsame]
    refine mul_le_mul_of_nonneg_right ?_ hq.le
    exact_mod_cast halfEven_mono (div_le_div_of_nonneg_right h hq.le)

/-- **Rounding keeps order.** -/
theorem roundTo_mono {p : ℕ} (hp : 0 < p) {x y : K} (h : x ≤ y) : roundTo p x ≤ roundTo p y := by
  rcases lt_trichotomy x 0 with hx | rfl | hx
  · rcases lt_or_ge y 0 with hy | hy
    · have hneg := roundTo_mono_of_pos hp (neg_pos.mpr hy) (neg_le_neg h)
      rw [roundTo_neg, roundTo_neg] at hneg
      exact neg_le_neg_iff.mp hneg
    · have hneg := roundTo_nonneg p (neg_nonneg.mpr hx.le)
      rw [roundTo_neg] at hneg
      linarith [roundTo_nonneg p hy]
  · rw [roundTo_zero]
    exact roundTo_nonneg p h
  · exact roundTo_mono_of_pos hp hx h

/-- A rounding rounds to itself. -/
theorem roundTo_idem {p : ℕ} (hp : 0 < p) (x : K) : roundTo p (roundTo p x) = roundTo p x := by
  obtain ⟨n, hn, hle⟩ := roundTo_form p x
  exact roundTo_eq hp n (Int.log 10 |x| + 1 - p) hn hle

/-! ## A number of few digits near another -/

/-- A whole number of at most `p` digits below a power of ten is not close to it. -/
theorem pow_le_pow_sub {p j : ℕ} (hp : 0 < p) (hj : p ≤ j) {m : ℤ} (hm : m ≤ 10 ^ p)
    (hlt : m < 10 ^ j) : (10 : ℤ) ^ (j - p) ≤ 10 ^ j - m := by
  rcases hj.lt_or_eq with hj | rfl
  · have hsplit : (10 : ℤ) ^ j = 10 ^ (j - p) * 10 ^ p := by
      rw [← pow_add, Nat.sub_add_cancel hj.le]
    have hleft : (10 : ℤ) ≤ 10 ^ (j - p) := le_self_pow₀ (by norm_num) (by omega)
    have hright : (10 : ℤ) ≤ 10 ^ p := le_self_pow₀ (by norm_num) (by omega)
    rw [hsplit]
    nlinarith
  · rw [Nat.sub_self, pow_zero]
    omega

/-- A number of at most `p` digits that is close to another is a multiple of the last place the
other keeps. -/
theorem exists_eq_mul_quantum {p : ℕ} (hp : 0 < p) {x s : K} (hx : 0 < x) (m t : ℤ)
    (hs : s = m * 10 ^ t) (hm : |m| ≤ 10 ^ p) (hnear : |s - x| < x * (10 ^ (-(p : ℤ)) / 2)) :
    ∃ n : ℤ, s = n * quantum p x := by
  set L := Int.log 10 |x| with hL
  have hlow : (10 : K) ^ L ≤ x := by
    have hle := Int.zpow_log_le_self (b := 10) (by norm_num) (abs_pos.mpr hx.ne')
    rw [abs_of_pos hx] at hle
    rw [hL, abs_of_pos hx]
    exact_mod_cast hle
  by_cases ht : L + 1 - p ≤ t
  · refine ⟨m * 10 ^ (t - (L + 1 - p)).toNat, ?_⟩
    have hsplit : (10 : K) ^ t = 10 ^ (t - (L + 1 - p)).toNat * quantum p x := by
      rw [quantum, ← hL, ← zpow_natCast, ← zpow_add₀ (by norm_num)]
      congr 1
      omega
    push_cast
    rw [hs, hsplit, mul_assoc]
  · have hsmall : s ≤ 10 ^ L := by
      have hmK : (m : K) ≤ 10 ^ (p : ℤ) := by
        rw [zpow_natCast]
        exact_mod_cast (abs_le.mp hm).2
      calc s = m * 10 ^ t := hs
        _ ≤ 10 ^ (p : ℤ) * 10 ^ t := mul_le_mul_of_nonneg_right hmK (by positivity)
        _ = 10 ^ ((p : ℤ) + t) := (zpow_add₀ (by norm_num) _ _).symm
        _ ≤ 10 ^ L := zpow_le_zpow_right₀ (by norm_num) (by omega)
    rcases hsmall.lt_or_eq with hlt | heq
    · -- a number of so few digits below a power of ten is too far below it
      exfalso
      have hgap : (10 : K) ^ (L - p) ≤ 10 ^ L - s := by
        obtain ⟨j, hj⟩ : ∃ j : ℕ, L = j + t := ⟨(L - t).toNat, by omega⟩
        have hten : (0 : K) < 10 ^ t := by positivity
        have hpow : (10 : K) ^ L = 10 ^ j * 10 ^ t := by
          rw [hj, zpow_add₀ (by norm_num), zpow_natCast]
        have hmlt : m < 10 ^ j := by
          rw [hs, hpow] at hlt
          exact_mod_cast lt_of_mul_lt_mul_right hlt hten.le
        have hgap := pow_le_pow_sub hp (show p ≤ j by omega) (abs_le.mp hm).2 hmlt
        have hgap : (10 : K) ^ (j - p) ≤ 10 ^ j - m := by exact_mod_cast hgap
        calc (10 : K) ^ (L - p) = 10 ^ (j - p) * 10 ^ t := by
              rw [← zpow_natCast, ← zpow_add₀ (by norm_num)]
              congr 1
              omega
          _ ≤ (10 ^ j - m) * 10 ^ t := mul_le_mul_of_nonneg_right hgap hten.le
          _ = 10 ^ L - s := by rw [hpow, hs, sub_mul]
      have hsplit : (10 : K) ^ (L - p) = 10 ^ L * 10 ^ (-(p : ℤ)) := by
        rw [← zpow_add₀ (by norm_num), sub_eq_add_neg]
      have hten : (10 : K) ^ (-(p : ℤ)) ≤ 1 := zpow_le_one_of_nonpos₀ (by norm_num) (by omega)
      have hpos : (0 : K) < 10 ^ (-(p : ℤ)) := by positivity
      have habs := (abs_lt.mp hnear).1
      have hLpos : (0 : K) < 10 ^ L := by positivity
      rw [hsplit] at hgap
      nlinarith
    · refine ⟨10 ^ (p - 1), ?_⟩
      push_cast
      rw [heq, quantum, ← hL, ← zpow_natCast, ← zpow_add₀ (by norm_num)]
      congr 1
      omega

/-- **The number of at most `p` digits that is close** is the rounding. -/
theorem roundTo_eq_of_near {p : ℕ} (hp : 0 < p) {x s : K} (hx : 0 < x) (m t : ℤ)
    (hs : s = m * 10 ^ t) (hm : |m| ≤ 10 ^ p) (hnear : |s - x| < x * (10 ^ (-(p : ℤ)) / 2)) :
    roundTo p x = s := by
  obtain ⟨n, hn⟩ := exists_eq_mul_quantum hp hx m t hs hm hnear
  have hq := quantum_pos p x
  have hplace : x * 10 ^ (-(p : ℤ)) < quantum p x := by
    have hlt := abs_lt_quantum p x
    rw [abs_of_pos hx] at hlt
    rw [zpow_neg, ← div_eq_mul_inv, div_lt_iff₀ (by positivity)]
    exact hlt
  have hclose : |x / quantum p x - n| < 1 / 2 := by
    have hscale : x / quantum p x - n = -(s - x) / quantum p x := by
      rw [hn]
      field_simp
      ring
    rw [hscale, abs_div, abs_neg, abs_of_pos hq, div_lt_iff₀ hq]
    linarith
  rw [roundTo, if_neg hx.ne', halfEven_eq hclose.le fun htie => absurd htie hclose.ne, hn]

end Meridian.Numeric
