import Mathlib.Algebra.Order.Field.Basic
import Mathlib.Algebra.Order.Ring.Abs
import Mathlib.Data.List.TakeWhile
import Mathlib.Data.Prod.Lex
import Mathlib.Tactic.Ring
import Mathlib.Tactic.Linarith
import Meridian.Python.Decimal

/-!
# Finite binary64 numbers and their `repr`

A finite `float` is `(-1) ^ neg * mant * 2 ^ exp` in the one canonical form of binary64, which the
type carries. Its text is the shortest decimal that reads back as the same number: `decpt` is the
position of the decimal point, `candidate n` the closest decimal of `n` digits that lies in the
rounding interval, and `shortest` takes the least `n` that has one (`shortest_spec`). `repr` writes
it in fixed notation for decimal points from -3 to 16 and with an exponent otherwise.
-/

namespace Meridian.Python

/-- A finite binary64 number. -/
@[ext]
structure F64 where
  neg : Bool
  mant : Nat
  exp : Int
  canonical : (mant < 2 ^ 52 ∧ exp = -1074) ∨
    (2 ^ 52 ≤ mant ∧ mant < 2 ^ 53 ∧ -1074 ≤ exp ∧ exp ≤ 971)
  deriving DecidableEq

namespace F64

def zero : F64 := ⟨false, 0, -1074, by decide⟩

/-- Numerator of the magnitude. -/
def num (f : F64) : Nat := f.mant * 2 ^ f.exp.toNat

/-- Denominator of the magnitude. -/
def den (f : F64) : Nat := 2 ^ (-f.exp).toNat

/-- The magnitude lies in `[10 ^ (decpt - 1), 10 ^ decpt)`. -/
def decpt (f : F64) : Int := (Nat.digits 10 (f.num * 10 ^ 400 / f.den)).length - 400

/-- Lower end of the rounding interval in quarters of the last place: the next number down is half
as far from a power of two. -/
def lower (f : F64) : Nat :=
  if f.mant = 2 ^ 52 ∧ -1074 < f.exp then 4 * f.mant - 1 else 4 * f.mant - 2

/-- Upper end of the rounding interval in quarters of the last place. -/
def upper (f : F64) : Nat := 4 * f.mant + 2

/-- `c * 10 ^ s` reads back as `f`: it lies in the rounding interval, whose ends read back as the
even one of two neighbours. -/
def readsBack (f : F64) (c : Nat) (s : Int) : Bool :=
  let x := c * 10 ^ s.toNat * (4 * f.den)
  let lo := f.lower * 2 ^ f.exp.toNat * 10 ^ (-s).toNat
  let hi := f.upper * 2 ^ f.exp.toNat * 10 ^ (-s).toNat
  if f.mant % 2 = 0 then lo ≤ x && x ≤ hi else lo < x && x < hi

/-- The magnitude as a fraction of `10 ^ s`. -/
def scaledNum (f : F64) (s : Int) : Nat := f.num * 10 ^ (-s).toNat
def scaledDen (f : F64) (s : Int) : Nat := f.den * 10 ^ s.toNat

/-- Of the two decimals of `n` digits around `f`, the closer first; a tie goes to the even one. -/
def around (f : F64) (n : Nat) : List Nat :=
  let s := f.decpt - n
  let q := f.scaledNum s / f.scaledDen s
  let r := f.scaledNum s % f.scaledDen s
  if 2 * r < f.scaledDen s ∨ (2 * r = f.scaledDen s ∧ q % 2 = 0) then [q, q + 1] else [q + 1, q]

/-- The closest decimal of `n` digits that reads back as `f`. -/
def candidate (f : F64) (n : Nat) : Option Nat :=
  (f.around n).find? fun c => f.readsBack c (f.decpt - n)

/-- Digits without trailing zeros, most significant first. -/
def trimmed (c : Nat) : List Nat := ((Nat.digits 10 c).dropWhile (· = 0)).reverse

/-- A decimal of `n` digits that reads back: its digits, and the position of the decimal point
before them. -/
def attempt (f : F64) (n : Nat) : Option (List Nat × Int) :=
  (f.candidate n).map fun c => (trimmed c, (Nat.digits 10 c).length + f.decpt - n)

/-- The shortest decimal that reads back as `f`; seventeen digits always do. -/
def shortest (f : F64) : List Nat × Int :=
  ((List.range' 1 17).findSome? f.attempt).getD ([0], 1)

/-! ## Text -/

def signText (neg : Bool) : Text := if neg then ['-'] else []

def digitText (ds : List Nat) : Text := ds.map digitChar

def zeros (n : Nat) : List Nat := List.replicate n 0

/-- Fixed notation: the integer part and the fraction, neither empty. -/
def fixedParts (ds : List Nat) (k : Int) : List Nat × List Nat :=
  if k ≤ 0 then ([0], zeros (-k).toNat ++ ds)
  else if k < ds.length then (ds.take k.toNat, ds.drop k.toNat)
  else (ds ++ zeros (k - ds.length).toNat, [0])

/-- The exponent: a sign and at least two digits. -/
def exponentText (e : Int) : Text :=
  let ds := (Nat.digits 10 e.natAbs).reverse
  (if e < 0 then '-' else '+') :: digitText (zeros (2 - ds.length) ++ ds)

/-- One digit before the point; no point when there is only one digit. -/
def scientificText : List Nat → Int → Text
  | [], _ => []
  | [d], k => digitChar d :: 'e' :: exponentText (k - 1)
  | d :: ds, k => digitChar d :: '.' :: (digitText ds ++ 'e' :: exponentText (k - 1))

/-- The decimal point of `repr`'s fixed notation. -/
def Fixed (k : Int) : Prop := -4 < k ∧ k ≤ 16

instance (k : Int) : Decidable (Fixed k) := inferInstanceAs (Decidable (_ ∧ _))

/-- Digits and decimal point of the text. -/
def digits (f : F64) : List Nat × Int := if f.mant = 0 then ([0], 1) else f.shortest

/-- `repr(f)`, which `str(f)` is. -/
def repr (f : F64) : Text :=
  signText f.neg ++
    if Fixed f.digits.2 then
      let p := fixedParts f.digits.1 f.digits.2
      digitText p.1 ++ '.' :: digitText p.2
    else scientificText f.digits.1 f.digits.2

/-! ## The shortest decimal

`value` is the magnitude. A decimal of seventeen digits next to it is closer than half of the last
place, so the search succeeds. -/

/-- The magnitude. -/
def value (f : F64) : ℚ := f.num / f.den

variable {f : F64}

theorem den_pos (f : F64) : 0 < f.den := Nat.pow_pos (by decide)

theorem num_pos (h : f.mant ≠ 0) : 0 < f.num :=
  Nat.mul_pos (Nat.pos_of_ne_zero h) (Nat.pow_pos (by decide))

/-- Splitting a power of ten at its sign. -/
theorem zpow_split (b : ℚ) (hb : b ≠ 0) (s : Int) : b ^ s * b ^ (-s).toNat = b ^ s.toNat := by
  rw [← zpow_natCast, ← zpow_natCast, ← zpow_add₀ hb]
  congr 1
  omega

theorem two_pow_le {a n : Nat} (h : a ≤ 3 * n) : 2 ^ a ≤ 10 ^ n :=
  calc 2 ^ a ≤ 2 ^ (3 * n) := Nat.pow_le_pow_right (by decide) h
    _ = (2 ^ 3) ^ n := pow_mul 2 3 n
    _ ≤ 10 ^ n := Nat.pow_le_pow_left (by decide) n

/-- `num * 10 ^ 400` is at least the denominator: the least number is `2 ^ -1074`. -/
theorem den_le (h : f.mant ≠ 0) : f.den ≤ f.num * 10 ^ 400 := by
  have hexp : (-f.exp).toNat ≤ 3 * 400 := by rcases f.canonical with h | h <;> omega
  calc f.den ≤ 10 ^ 400 := two_pow_le hexp
    _ ≤ f.num * 10 ^ 400 := Nat.le_mul_of_pos_left _ (num_pos h)

/-- **The decimal point is where the magnitude has it.** -/
theorem decpt_spec (h : f.mant ≠ 0) :
    (10 : ℚ) ^ (f.decpt - 1) ≤ f.value ∧ f.value < 10 ^ f.decpt := by
  have hd : 0 < f.den := f.den_pos
  have hdq : (0 : ℚ) < f.den := by exact_mod_cast hd
  obtain ⟨q, hq⟩ : ∃ q, q = f.num * 10 ^ 400 / f.den := ⟨_, rfl⟩
  have hq0 : q ≠ 0 := hq ▸ (Nat.div_pos (den_le h) hd).ne'
  obtain ⟨L, hL⟩ : ∃ L, (Nat.digits 10 q).length = L + 1 :=
    Nat.exists_eq_add_one.mpr (List.length_pos_of_ne_nil (Nat.digits_ne_nil_iff_ne_zero.mpr hq0))
  have hlo : 10 ^ L * f.den ≤ f.num * 10 ^ 400 := by
    have := (Nat.lt_digits_length_iff (b := 10) (k := L) (by decide) q).mp (by omega)
    rw [hq] at this
    exact (Nat.le_div_iff_mul_le hd).mp this
  have hhi : f.num * 10 ^ 400 < 10 ^ (L + 1) * f.den := by
    have := (Nat.digits_length_le_iff (b := 10) (k := L + 1) (by decide) q).mp (by omega)
    rw [hq] at this
    exact (Nat.div_lt_iff_lt_mul hd).mp this
  have hk : f.decpt = (L + 1 : Nat) - (400 : Nat) := by rw [decpt, ← hq, hL]; rfl
  have ht : ((10 : ℚ) ^ 400) ≠ 0 := by positivity
  rw [hk, show ((L + 1 : Nat) : Int) - (400 : Nat) - 1 = (L : Nat) - (400 : Nat) by push_cast; ring,
    zpow_sub₀ (by norm_num), zpow_sub₀ (by norm_num), zpow_natCast, zpow_natCast, zpow_natCast,
    value, div_le_div_iff₀ (by positivity) hdq, div_lt_div_iff₀ hdq (by positivity)]
  exact ⟨by exact_mod_cast hlo, by exact_mod_cast hhi⟩

/-- The magnitude in units of `10 ^ s`. -/
theorem scaled (f : F64) (s : Int) :
    (f.scaledNum s : ℚ) / f.scaledDen s = f.value / 10 ^ s := by
  have hs : (10 : ℚ) ^ (-s).toNat ≠ 0 := by positivity
  rw [scaledNum, scaledDen, value, div_div, Nat.cast_mul, Nat.cast_mul, Nat.cast_pow, Nat.cast_pow,
    Nat.cast_ofNat, ← zpow_split 10 (by norm_num) s, ← mul_assoc, mul_div_mul_right _ _ hs]

/-- A quarter of the last place. -/
def quarter (f : F64) : ℚ := 2 ^ (f.exp - 2)

theorem quarter_pos (f : F64) : 0 < f.quarter := zpow_pos (by norm_num) _

theorem value_eq (f : F64) : f.value = 4 * f.mant * f.quarter := by
  rw [value, quarter, num, den, zpow_sub₀ (by norm_num), div_eq_iff (by positivity), Nat.cast_mul,
    Nat.cast_pow, Nat.cast_pow, Nat.cast_ofNat, ← zpow_split 2 (by norm_num) f.exp]
  ring

/-- What `readsBack` compares are quarters of the last place with `c * 10 ^ s`. -/
theorem quarters_eq (f : F64) (x : ℚ) (s : Int) :
    x * 2 ^ f.exp.toNat * 10 ^ (-s).toNat = x * f.quarter * (4 * f.den * 10 ^ (-s).toNat) := by
  rw [quarter, den, zpow_sub₀ (by norm_num), ← zpow_split 2 (by norm_num) f.exp]
  push_cast
  ring

theorem decimal_eq (f : F64) (c : ℚ) (s : Int) :
    c * 10 ^ s.toNat * (4 * f.den) = c * 10 ^ s * (4 * f.den * 10 ^ (-s).toNat) := by
  rw [← zpow_split 10 (by norm_num) s]
  ring

/-- A decimal strictly inside the rounding interval reads back. -/
theorem readsBack_of_lt {c : Nat} {s : Int} (hlo : (f.lower : ℚ) * f.quarter < c * 10 ^ s)
    (hhi : (c : ℚ) * 10 ^ s < f.upper * f.quarter) : f.readsBack c s = true := by
  have hd : (0 : ℚ) < f.den := by exact_mod_cast f.den_pos
  have hpos : (0 : ℚ) < 4 * f.den * 10 ^ (-s).toNat := by positivity
  have h1 := mul_lt_mul_of_pos_right hlo hpos
  have h2 := mul_lt_mul_of_pos_right hhi hpos
  rw [← quarters_eq, ← decimal_eq] at h1 h2
  have h1 : f.lower * 2 ^ f.exp.toNat * 10 ^ (-s).toNat < c * 10 ^ s.toNat * (4 * f.den) := by
    exact_mod_cast h1
  have h2 : c * 10 ^ s.toNat * (4 * f.den) < f.upper * 2 ^ f.exp.toNat * 10 ^ (-s).toNat := by
    exact_mod_cast h2
  unfold readsBack
  split
  · simp [h1.le, h2.le]
  · simp [h1, h2]

/-- A decimal that reads back is not zero. -/
theorem pos_of_readsBack (h : f.mant ≠ 0) {c : Nat} {s : Int} (hc : f.readsBack c s = true) :
    0 < c := by
  rcases Nat.eq_zero_or_pos c with rfl | hc'
  · have hl : 0 < f.lower := by unfold lower; split <;> omega
    have : 0 < f.lower * 2 ^ f.exp.toNat * 10 ^ (-s).toNat := by positivity
    unfold readsBack at hc
    split at hc
    · simp at hc
      omega
    · simp at hc
  · exact hc'

theorem scaledDen_pos (f : F64) (s : Int) : 0 < f.scaledDen s :=
  Nat.mul_pos f.den_pos (Nat.pow_pos (by decide))

theorem abs_scaled_le {c x t : ℚ} (ht : 0 < t) (h : |c - x| ≤ 1 / 2) :
    |c * t - x * t| ≤ t / 2 := by
  rw [← sub_mul, abs_mul, abs_of_pos ht]
  linarith [mul_le_mul_of_nonneg_right h ht.le]

/-- The decimals of `n` digits next to `f` are at most `10 ^ n`, and the first is within half a
unit. -/
theorem around_spec (h : f.mant ≠ 0) (n : Nat) :
    (∀ c ∈ f.around n, c ≤ 10 ^ n) ∧ ∃ c ∈ f.around n,
      |(c : ℚ) * 10 ^ (f.decpt - n) - f.value| ≤ 10 ^ (f.decpt - n) / 2 := by
  obtain ⟨s, hs⟩ : ∃ s, s = f.decpt - n := ⟨_, rfl⟩
  obtain ⟨q, hq⟩ : ∃ q, q = f.scaledNum s / f.scaledDen s := ⟨_, rfl⟩
  obtain ⟨r, hr⟩ : ∃ r, r = f.scaledNum s % f.scaledDen s := ⟨_, rfl⟩
  have hd : (0 : ℚ) < f.scaledDen s := by exact_mod_cast f.scaledDen_pos s
  have hrd : r < f.scaledDen s := hr ▸ Nat.mod_lt _ (f.scaledDen_pos s)
  have h10 : (0 : ℚ) < 10 ^ s := zpow_pos (by norm_num) s
  have hval : f.value = (q + r / f.scaledDen s) * 10 ^ s := by
    have hnum : (f.scaledNum s : ℚ) = f.scaledDen s * q + r := by
      rw [hq, hr]
      exact_mod_cast (Nat.div_add_mod _ _).symm
    rw [← div_eq_iff h10.ne', ← scaled, hnum, add_div, mul_div_cancel_left₀ _ hd.ne']
  have hfrac : (r : ℚ) / f.scaledDen s < 1 := (div_lt_one hd).mpr (by exact_mod_cast hrd)
  have hfrac0 : 0 ≤ (r : ℚ) / f.scaledDen s := div_nonneg (Nat.cast_nonneg r) hd.le
  have hq10 : q < 10 ^ n := by
    have hlt := (decpt_spec h).2
    rw [show f.decpt = n + s by omega, zpow_add₀ (by norm_num), zpow_natCast, hval] at hlt
    have := lt_of_mul_lt_mul_right hlt h10.le
    have : (q : ℚ) < 10 ^ n := by linarith
    exact_mod_cast this
  have hcase : f.around n = if 2 * r < f.scaledDen s ∨ (2 * r = f.scaledDen s ∧ q % 2 = 0)
      then [q, q + 1] else [q + 1, q] := by
    subst hs hq hr
    rfl
  rw [← hs, hcase, hval]
  split
  · rename_i hle
    refine ⟨by simp; omega, q, by simp, abs_scaled_le h10 ?_⟩
    have hhalf : (r : ℚ) / f.scaledDen s ≤ 1 / 2 := by
      rw [div_le_div_iff₀ hd (by norm_num)]
      have : r * 2 ≤ 1 * f.scaledDen s := by omega
      exact_mod_cast this
    rw [abs_le]
    exact ⟨by linarith, by linarith⟩
  · rename_i hle
    refine ⟨by simp; omega, q + 1, by simp, abs_scaled_le h10 ?_⟩
    have hhalf : 1 / 2 ≤ (r : ℚ) / f.scaledDen s := by
      rw [div_le_div_iff₀ (by norm_num) hd]
      have : 1 * f.scaledDen s ≤ r * 2 := by omega
      exact_mod_cast this
    rw [Nat.cast_add, Nat.cast_one, abs_le]
    exact ⟨by linarith, by linarith⟩

/-- Half a unit of the seventeenth digit is less than the way to either end of the interval. -/
theorem interval_wide (h : f.mant ≠ 0) {x : ℚ}
    (hx : |x - f.value| ≤ 10 ^ (f.decpt - (17 : Nat)) / 2) :
    (f.lower : ℚ) * f.quarter < x ∧ x < f.upper * f.quarter := by
  obtain ⟨u, hu⟩ : ∃ u : ℚ, u = 10 ^ (f.decpt - (17 : Nat)) := ⟨_, rfl⟩
  have hq := f.quarter_pos
  have hunit : u * 10 ^ 16 ≤ f.value := by
    rw [hu, ← zpow_natCast, ← zpow_add₀ (by norm_num)]
    convert (decpt_spec h).1 using 2
    push_cast
    ring
  rw [← hu, value_eq, abs_le, mul_assoc] at hx
  rw [value_eq, mul_assoc] at hunit
  obtain ⟨hx1, hx2⟩ := hx
  have hmant : f.mant < 2 ^ 53 := by rcases f.canonical with h | h <;> omega
  have hm : (f.mant : ℚ) * f.quarter < 2 ^ 53 * f.quarter :=
    mul_lt_mul_of_pos_right (by exact_mod_cast hmant) hq
  constructor
  · unfold lower
    split
    · rename_i hpow
      rw [Nat.cast_sub (by omega), Nat.cast_mul, sub_mul, mul_assoc]
      rw [hpow.1] at hx1 hunit ⊢
      push_cast at hx1 hunit ⊢
      linarith
    · rw [Nat.cast_sub (by omega), Nat.cast_mul, sub_mul, mul_assoc]
      push_cast
      linarith
  · rw [upper, Nat.cast_add, Nat.cast_mul, add_mul, mul_assoc]
    push_cast
    linarith

/-- What the search returns: a decimal of at most `n` digits that reads back. -/
def IsDecimalOf (f : F64) (x : List Nat × Int) : Prop :=
  ∃ c n : Nat, 1 ≤ n ∧ n ≤ 17 ∧ c ≤ 10 ^ n ∧ f.readsBack c (f.decpt - n) = true ∧
    x = (trimmed c, (Nat.digits 10 c).length + f.decpt - n)

theorem isDecimalOf_of_attempt (h : f.mant ≠ 0) {n : Nat} {x : List Nat × Int} (h1 : 1 ≤ n)
    (hn : n ≤ 17) (hx : f.attempt n = some x) : f.IsDecimalOf x := by
  obtain ⟨c, hc, rfl⟩ := Option.map_eq_some_iff.mp hx
  exact ⟨c, n, h1, hn, (around_spec h n).1 c (List.mem_of_find?_eq_some hc),
    List.find?_some (p := fun c => f.readsBack c (f.decpt - n)) hc, rfl⟩

/-- Seventeen digits always suffice. -/
theorem attempt_seventeen (h : f.mant ≠ 0) : (f.attempt 17).isSome := by
  obtain ⟨c, hc, hnear⟩ := (around_spec h 17).2
  obtain ⟨hlo, hhi⟩ := interval_wide h hnear
  have : (f.candidate 17).isSome := List.find?_isSome.mpr ⟨c, hc, readsBack_of_lt hlo hhi⟩
  rwa [attempt, Option.isSome_map]

/-- **The text of a number reads back as that number.** -/
theorem shortest_spec (h : f.mant ≠ 0) : f.IsDecimalOf f.shortest := by
  have hsome : ((List.range' 1 17).findSome? f.attempt).isSome :=
    List.findSome?_isSome_iff.mpr ⟨17, by simp, attempt_seventeen h⟩
  obtain ⟨x, hx⟩ := Option.isSome_iff_exists.mp hsome
  obtain ⟨n, hmem, hn⟩ := List.exists_of_findSome?_eq_some hx
  rw [List.mem_range'_1] at hmem
  rw [shortest, hx]
  exact isDecimalOf_of_attempt h hmem.1 (by omega) hn

/-! ## The digits of the text -/

/-- Digits below ten, not empty, at most seventeen, the last one nonzero unless it is the only
one. -/
structure Digits (ds : List Nat) : Prop where
  lt : ∀ d ∈ ds, d < 10
  ne_nil : ds ≠ []
  length_le : ds.length ≤ 17
  last : ds = [0] ∨ ∃ es d, ds = es ++ [d] ∧ d ≠ 0

theorem trimmed_lt {c d : Nat} (h : d ∈ trimmed c) : d < 10 :=
  Nat.digits_lt_base (by decide) ((List.dropWhile_sublist _).subset (List.mem_reverse.mp h))

/-- The last digit kept is the first one that is not zero. -/
theorem trimmed_last {c : Nat} (h0 : 0 < c) : ∃ es d, trimmed c = es ++ [d] ∧ d ≠ 0 := by
  cases hds : (Nat.digits 10 c).dropWhile (· = 0) with
  | nil =>
    have hall := List.dropWhile_eq_nil_iff.mp hds
    have hlast := Nat.getLast_digit_ne_zero 10 h0.ne'
    exact absurd (by simpa using hall _ (List.getLast_mem _)) hlast
  | cons d es =>
    refine ⟨es.reverse, d, by rw [trimmed, hds, List.reverse_cons], ?_⟩
    have := List.head_dropWhile_not (fun x : Nat => decide (x = 0)) (l := Nat.digits 10 c)
      (by rw [hds]; simp)
    simpa [hds] using this

theorem trimmed_length {c n : Nat} (hn : 1 ≤ n) (hc : c ≤ 10 ^ n) : (trimmed c).length ≤ n := by
  rcases Nat.lt_or_eq_of_le hc with hlt | rfl
  · have := (Nat.digits_length_le_iff (b := 10) (k := n) (by decide) c).mpr hlt
    have := (List.dropWhile_sublist (l := Nat.digits 10 c) (· = 0)).length_le
    rw [trimmed, List.length_reverse]
    omega
  · have : trimmed (10 ^ n) = [1] := by
      have hdig := Nat.digits_base_pow_mul (b := 10) (k := n) (m := 1) (by decide) (by decide)
      rw [Nat.mul_one] at hdig
      rw [trimmed, hdig, List.dropWhile_append_of_pos (by simp)]
      rfl
    rw [this]
    exact hn

theorem trimmed_digits {c n : Nat} (h0 : 0 < c) (hn : 1 ≤ n) (h17 : n ≤ 17) (hc : c ≤ 10 ^ n) :
    Digits (trimmed c) := by
  obtain ⟨es, d, hd, hne⟩ := trimmed_last h0
  exact ⟨fun _ => trimmed_lt, by simp [hd], (trimmed_length hn hc).trans h17, .inr ⟨es, d, hd, hne⟩⟩

theorem digits_spec (f : F64) : Digits f.digits.1 := by
  unfold digits
  split
  · exact ⟨by simp, by simp, by simp, .inl rfl⟩
  · rename_i h
    obtain ⟨c, n, h1, hn, hc, hb, hx⟩ := shortest_spec h
    rw [hx]
    exact trimmed_digits (pos_of_readsBack h hb) h1 hn hc

/-! ## Reading the text -/

theorem mem_digitText {ds : List Nat} (h : ∀ d ∈ ds, d < 10) {c : Char} (hc : c ∈ digitText ds) :
    isSpace c = false ∧ c ≠ '_' ∧ (digit? c).isSome := by
  obtain ⟨d, hd, rfl⟩ := List.mem_map.mp hc
  have hlt := h d hd
  refine ⟨isSpace_digitChar hlt, ?_, by rw [digit?_digitChar hlt]; rfl⟩
  interval_cases d <;> decide

/-- Sign, digits, point, digits. -/
def fixedText (neg : Bool) (ip fp : List Nat) : Text :=
  signText neg ++ (digitText ip ++ '.' :: digitText fp)

theorem mem_fixedText {neg : Bool} {ip fp : List Nat} (hi : ∀ d ∈ ip, d < 10)
    (hf : ∀ d ∈ fp, d < 10) : ∀ c ∈ fixedText neg ip fp, isSpace c = false ∧ c ≠ '_' := by
  intro c hc
  rcases List.mem_append.mp hc with hc | hc
  · cases neg with
    | false => cases hc
    | true => rw [List.mem_singleton.mp hc]; decide
  · rcases List.mem_append.mp hc with hc | hc
    · exact ⟨(mem_digitText hi hc).1, (mem_digitText hi hc).2.1⟩
    · rcases List.mem_cons.mp hc with rfl | hc
      · decide
      · exact ⟨(mem_digitText hf hc).1, (mem_digitText hf hc).2.1⟩

theorem takeSign_digitText {d : Nat} {ds : List Nat} (h : d < 10) (t : Text) :
    takeSign (digitText (d :: ds) ++ t) = (false, digitText (d :: ds) ++ t) := by
  interval_cases d <;> rfl

/-- **`Decimal` reads fixed notation exactly.** -/
theorem ofText_fixedText (neg : Bool) {ip fp : List Nat} (hi : ∀ d ∈ ip, d < 10)
    (hf : ∀ d ∈ fp, d < 10) (hne : ip ≠ []) :
    Decimal.ofText (fixedText neg ip fp) = .ok ⟨neg, ofDigits (ip ++ fp), -fp.length⟩ := by
  have hmem : ∀ c ∈ fixedText neg ip fp, isSpace c = false ∧ c ≠ '_' := mem_fixedText hi hf
  have hstrip : strip (fixedText neg ip fp) = fixedText neg ip fp :=
    strip_eq fun c hc => (hmem c hc).1
  have hfilter : (fixedText neg ip fp).filter (· ≠ '_') = fixedText neg ip fp :=
    List.filter_eq_self.mpr fun c hc => by simpa using (hmem c hc).2
  have hsign : takeSign (fixedText neg ip fp) = (neg, digitText ip ++ '.' :: digitText fp) := by
    cases neg with
    | true => rfl
    | false =>
      cases ip with
      | nil => exact absurd rfl hne
      | cons d ds => exact takeSign_digitText (hi d List.mem_cons_self) _
  have hint : takeDigits (digitText ip ++ '.' :: digitText fp) = (ip, '.' :: digitText fp) :=
    takeDigits_map_digitChar hi (by simp; decide)
  have hfrac : takeDigits (digitText fp) = (fp, []) := by
    simpa [digitText] using takeDigits_map_digitChar (t := []) hf (by simp)
  unfold Decimal.ofText
  rw [hstrip, hfilter, hsign]
  simp [Decimal.unsigned?, hint, Decimal.takeFraction, hfrac, hne, Decimal.exponent?]

/-- What fixed notation writes: digits on both sides of the point, at most 21 of them, and no
trailing zero after more than one decimal place. -/
structure Parts (ip fp : List Nat) : Prop where
  int_lt : ∀ d ∈ ip, d < 10
  frac_lt : ∀ d ∈ fp, d < 10
  int_ne_nil : ip ≠ []
  frac_ne_nil : fp ≠ []
  length_le : ip.length + fp.length ≤ 21
  last : fp.length = 1 ∨ ∃ es d, fp = es ++ [d] ∧ d ≠ 0

theorem mem_zeros {n d : Nat} (h : d ∈ zeros n) : d < 10 := by
  rw [List.eq_of_mem_replicate h]
  decide

theorem fixedParts_spec {ds : List Nat} {k : Int} (h : Digits ds) (hk : Fixed k)
    (hzero : ds = [0] → k = 1) : Parts (fixedParts ds k).1 (fixedParts ds k).2 := by
  obtain ⟨hlo, hhi⟩ := hk
  have h17 := h.length_le
  have hpos := List.length_pos_iff.mpr h.ne_nil
  unfold fixedParts
  split_ifs with h0 hlen
  · refine ⟨by simp, fun d hd => ?_, by simp, by simp [h.ne_nil], ?_, .inr ?_⟩
    · rcases List.mem_append.mp hd with hd | hd
      · exact mem_zeros hd
      · exact h.lt d hd
    · simp only [zeros, List.length_append, List.length_replicate, List.length_singleton]
      omega
    · rcases h.last with rfl | ⟨es, d, rfl, hd⟩
      · have := hzero rfl
        omega
      · exact ⟨zeros (-k).toNat ++ es, d, by simp, hd⟩
  · refine ⟨fun d hd => h.lt d (List.mem_of_mem_take hd),
      fun d hd => h.lt d (List.mem_of_mem_drop hd), ?_, ?_, ?_, ?_⟩
    · simp only [ne_eq, List.take_eq_nil_iff, not_or]
      exact ⟨by omega, h.ne_nil⟩
    · simp only [ne_eq, List.drop_eq_nil_iff]
      omega
    · simp only [List.length_take, List.length_drop]
      omega
    · rcases h.last with rfl | ⟨es, d, rfl, hd⟩
      · have := hzero rfl
        simp at hlen
        omega
      · refine .inr ⟨es.drop k.toNat, d, ?_, hd⟩
        simp only [List.length_append, List.length_singleton] at hlen
        exact List.drop_append_of_le_length (by omega)
  · refine ⟨fun d hd => ?_, by simp, by simp [h.ne_nil], by simp, ?_, .inl rfl⟩
    · rcases List.mem_append.mp hd with hd | hd
      · exact h.lt d hd
      · exact mem_zeros hd
    · simp only [zeros, List.length_append, List.length_replicate, List.length_singleton]
      omega

/-- The two sides of the point of a number written in fixed notation. -/
theorem parts_spec {f : F64} (hk : Fixed f.digits.2) :
    Parts (fixedParts f.digits.1 f.digits.2).1 (fixedParts f.digits.1 f.digits.2).2 := by
  refine fixedParts_spec (digits_spec f) hk fun hds => ?_
  unfold digits at hds ⊢
  split at hds
  · rename_i h
    rw [if_pos h]
  · rename_i h
    obtain ⟨c, n, h1, hn, hc, hb, hx⟩ := shortest_spec h
    obtain ⟨es, d, hd, hne⟩ := trimmed_last (pos_of_readsBack h hb)
    rw [hx] at hds
    have hlast : es ++ [d] = [] ++ [0] := hd.symm.trans hds
    exact absurd (List.append_inj_right' hlast rfl) (by simpa using hne)

theorem repr_fixed {f : F64} (hk : Fixed f.digits.2) : f.repr =
    fixedText f.neg (fixedParts f.digits.1 f.digits.2).1 (fixedParts f.digits.1 f.digits.2).2 := by
  rw [repr, if_pos hk]
  rfl

/-- Exponent notation: digits, and later an `e`. -/
theorem scientificText_cases {ds : List Nat} (h : Digits ds) (k : Int) :
    ∃ d es, ds = d :: es ∧ scientificText ds k = digitChar d ::
      ((if es = [] then [] else '.' :: digitText es) ++ 'e' :: exponentText (k - 1)) := by
  cases ds with
  | nil => exact absurd rfl h.ne_nil
  | cons d es =>
    refine ⟨d, es, rfl, ?_⟩
    cases es <;> rfl

theorem mem_signText (neg : Bool) : ∀ c ∈ signText neg, isSpace c = false ∧ c ≠ '_' := by
  cases neg with
  | false => exact fun c hc => absurd hc List.not_mem_nil
  | true =>
    intro c hc
    rw [List.mem_singleton.mp hc]
    decide

/-- The digits of an exponent. -/
def exponentDigits (e : Int) : List Nat :=
  zeros (2 - (Nat.digits 10 e.natAbs).reverse.length) ++ (Nat.digits 10 e.natAbs).reverse

theorem exponentDigits_lt (e : Int) : ∀ d ∈ exponentDigits e, d < 10 := by
  intro d hd
  rcases List.mem_append.mp hd with hd | hd
  · exact mem_zeros hd
  · exact Nat.digits_lt_base (by decide) (List.mem_reverse.mp hd)

theorem mem_exponentText (e : Int) : ∀ c ∈ exponentText e, isSpace c = false ∧ c ≠ '_' := by
  intro c hc
  rcases List.mem_cons.mp hc with rfl | hc
  · split <;> decide
  · obtain ⟨hspace, hscore, -⟩ := mem_digitText (exponentDigits_lt e) hc
    exact ⟨hspace, hscore⟩

theorem mem_scientificText {ds : List Nat} (h : Digits ds) (k : Int) :
    ∀ c ∈ scientificText ds k, isSpace c = false ∧ c ≠ '_' := by
  obtain ⟨d, es, rfl, htext⟩ := scientificText_cases h k
  have hdigits : ∀ c ∈ digitText (d :: es), isSpace c = false ∧ c ≠ '_' := fun c hc =>
    ⟨(mem_digitText h.lt hc).1, (mem_digitText h.lt hc).2.1⟩
  rw [htext]
  intro c hc
  rcases List.mem_cons.mp hc with rfl | hc
  · exact hdigits _ List.mem_cons_self
  · rcases List.mem_append.mp hc with hc | hc
    · split at hc
      · cases hc
      · rcases List.mem_cons.mp hc with rfl | hc
        · decide
        · exact hdigits c (List.mem_cons_of_mem _ hc)
    · rcases List.mem_cons.mp hc with rfl | hc
      · decide
      · exact mem_exponentText (k - 1) c hc

/-- A `repr` has neither white space nor underscores. -/
theorem mem_repr {f : F64} : ∀ c ∈ f.repr, isSpace c = false ∧ c ≠ '_' := by
  by_cases hk : Fixed f.digits.2
  · rw [repr_fixed hk]
    exact mem_fixedText (parts_spec hk).int_lt (parts_spec hk).frac_lt
  · rw [repr, if_neg hk]
    intro c hc
    rcases List.mem_append.mp hc with hc | hc
    · exact mem_signText f.neg c hc
    · exact mem_scientificText (digits_spec f) f.digits.2 c hc

theorem isSpace_repr {f : F64} : ∀ c ∈ f.repr, isSpace c = false := fun c hc => (mem_repr c hc).1

end F64

/-! ## Any `float` -/

/-- A `float`: a finite number, an infinity, or NaN. -/
inductive Double
  | finite (f : F64)
  | infinite (neg : Bool)
  | nan
  deriving DecidableEq

namespace Double

/-- `str(x)`. -/
def repr : Double → Text
  | finite f => f.repr
  | infinite neg => F64.signText neg ++ ['i', 'n', 'f']
  | nan => ['n', 'a', 'n']

/-- The order of a DOUBLE PRECISION column: finite numbers by value, between the infinities, and
NaN above all. -/
def sortKey : Double → Int ×ₗ ℚ
  | infinite true => toLex (0, 0)
  | finite f => toLex (1, if f.neg then -f.value else f.value)
  | infinite false => toLex (2, 0)
  | nan => toLex (3, 0)

end Double

end Meridian.Python
