import Mathlib.Data.Rat.Floor
import Meridian.Numeric.Rounding
import Meridian.Python.Decimal

/-!
# Decimal arithmetic under a context

Arithmetic in terms of values: a `Decimal` is the rational it stands for, and an operation rounds
its exact result half to even to the digits of the context. Trailing zeros and the sign of a zero
are left out, nothing that is computed here depends on them, and so is the range of exponents, which
numbers of the size of an amount or a rate do not reach. `exact` is the arithmetic without rounding.

`power` is the integer power of the C module: squarings from the top bit of the exponent down, under
as many digits more as the exponent has and two, of the reciprocal for a negative exponent.
-/

namespace Meridian.Python

open Numeric

/-- What a decimal operation raises. -/
inductive DecimalFault
  /-- `DivisionByZero` -/
  | divisionByZero
  /-- `InvalidOperation` -/
  | invalidOperation
  deriving DecidableEq

/-- The number a decimal stands for. -/
def Decimal.value (d : Decimal) : ℚ := (signed d.neg d.coeff : ℚ) * 10 ^ d.exp

theorem signed_natAbs (k : ℤ) : signed (decide (k < 0)) k.natAbs = k := by
  unfold signed
  by_cases h : k < 0
  · rw [decide_eq_true h, if_pos rfl]
    omega
  · rw [decide_eq_false h, if_neg (by decide)]
    omega

namespace Decimal

theorem scaledTo_eq (d : Decimal) {e : Int} (he : e ≤ d.exp) :
    (d.scaledTo e : ℚ) = d.value * 10 ^ (-e) := by
  have hsigned : signed d.neg (d.coeff * 10 ^ (d.exp - e).toNat) =
      signed d.neg d.coeff * 10 ^ (d.exp - e).toNat := by
    unfold signed
    split_ifs <;> push_cast <;> ring
  rw [scaledTo, hsigned, value, mul_assoc, ← zpow_add₀ (by norm_num)]
  push_cast
  rw [← zpow_natCast, Int.toNat_of_nonneg (by omega), sub_eq_add_neg]

/-- `==` compares the values. -/
theorem numEq_iff {a b : Decimal} : a.numEq b = true ↔ a.value = b.value := by
  have hpos : (10 : ℚ) ^ (-min a.exp b.exp) ≠ 0 := by positivity
  rw [numEq, beq_iff_eq, ← Int.cast_inj (α := ℚ), scaledTo_eq a (min_le_left _ _),
    scaledTo_eq b (min_le_right _ _), mul_left_inj' hpos]

end Decimal

/-- The digits of a result; none when it is kept exact. -/
structure Context where
  prec : Option ℕ

namespace Context

/-- `prec = 28`, of `DefaultContext` and of the code's own contexts. -/
def default : Context := ⟨some 28⟩

def exact : Context := ⟨none⟩

variable (c : Context)

/-- The rounding of a result. -/
def fix (x : ℚ) : ℚ :=
  match c.prec with
  | none => x
  | some p => roundTo p x

/-- The context of an intermediate result with `n` digits more. -/
def widen (n : ℕ) : Context := ⟨c.prec.map (· + n)⟩

/-- `x / y` -/
def div (x y : ℚ) : Except DecimalFault ℚ :=
  if y = 0 then .error (if x = 0 then .invalidOperation else .divisionByZero) else .ok (c.fix (x / y))

/-- The result has more digits than the context. -/
def tooLong (units : ℤ) : Bool :=
  match c.prec with
  | none => false
  | some p => 10 ^ p ≤ units.natAbs

/-- `x.quantize(unit, rounding=ROUND_HALF_UP)` -/
def quantize (unit x : ℚ) : Except DecimalFault ℚ :=
  if c.tooLong (halfUp (x / unit)) then .error .invalidOperation else .ok (halfUp (x / unit) * unit)

/-- `x ** n` by squaring, for the bits of `n` below the top one; `fuel` bounds their number. -/
def powerLoop (x : ℚ) : ℕ → ℕ → ℚ
  | 0, _ => 1
  | fuel + 1, n =>
    if n = 0 then 1
    else if n = 1 then x
    else
      let half := powerLoop x fuel (n / 2)
      let square := c.fix (half * half)
      if n % 2 = 1 then c.fix (square * x) else square

/-- `x ** n` -/
def power (x : ℚ) (n : ℤ) : ℚ :=
  let w := c.widen (Decimal.numDigits n.natAbs + 2)
  if 0 ≤ n then c.fix (w.powerLoop x n.natAbs n.natAbs)
  else c.fix ((w.widen 1).powerLoop ((w.widen 1).fix (1 / x)) n.natAbs n.natAbs)

variable {c}

/-! ## Exact arithmetic -/

@[simp] theorem exact_fix (x : ℚ) : exact.fix x = x := rfl

@[simp] theorem exact_widen (n : ℕ) : exact.widen n = exact := rfl

theorem exact_div {x y : ℚ} (hy : y ≠ 0) : exact.div x y = .ok (x / y) := if_neg hy

theorem exact_quantize (unit x : ℚ) : exact.quantize unit x = .ok (halfUp (x / unit) * unit) := rfl

theorem exact_powerLoop (x : ℚ) : ∀ fuel n, n ≤ fuel → exact.powerLoop x fuel n = x ^ n
  | 0, n, h => by
    rw [Nat.le_zero.mp h, pow_zero]
    rfl
  | fuel + 1, n, h => by
    unfold powerLoop
    by_cases h0 : n = 0
    · rw [if_pos h0, h0, pow_zero]
    · rw [if_neg h0]
      by_cases h1 : n = 1
      · rw [if_pos h1, h1, pow_one]
      · rw [if_neg h1, exact_powerLoop x fuel (n / 2) (by omega)]
        simp only [exact_fix, ← pow_add]
        by_cases hodd : n % 2 = 1
        · rw [if_pos hodd, ← pow_succ]
          congr 1
          omega
        · rw [if_neg hodd]
          congr 1
          omega

@[simp] theorem exact_power (x : ℚ) (n : ℤ) : exact.power x n = x ^ n := by
  unfold power
  simp only [exact_widen, exact_fix]
  split_ifs with h
  · obtain ⟨k, rfl⟩ := Int.eq_ofNat_of_zero_le h
    rw [exact_powerLoop x _ _ (le_refl _), Int.natAbs_natCast, zpow_natCast]
  · obtain ⟨k, hk⟩ := Int.eq_ofNat_of_zero_le (show 0 ≤ -n by omega)
    have hn : n = -(k : ℤ) := by omega
    rw [exact_powerLoop _ _ _ (le_refl _), hn, Int.natAbs_neg, Int.natAbs_natCast, zpow_neg,
      zpow_natCast, one_div, inv_pow]

/-! ## Rounded arithmetic -/

theorem fix_default (x : ℚ) : default.fix x = roundTo 28 x := rfl

theorem tooLong_default {n : ℤ} : default.tooLong n = false ↔ |n| < 10 ^ 28 := by
  have hlong : default.tooLong n = decide (10 ^ 28 ≤ n.natAbs) := rfl
  rw [hlong, decide_eq_false_iff_not, not_le, Int.abs_eq_natAbs]
  exact_mod_cast Iff.rfl

end Context

end Meridian.Python
