import Mathlib.Data.Rat.Floor
import Meridian.Numeric.Rounding
import Meridian.Python.Float

/-!
# The float nearest to a number

`Double.ofRat` rounds a rational to binary64, ties to even, as a float operation does with its exact
result and `float` with a decimal. A result past the largest float is infinite.
-/

namespace Meridian.Python

open Numeric

namespace F64

/-- A mantissa and an exponent in the canonical form. -/
def Canonical (mant : ℕ) (exp : ℤ) : Prop :=
  (mant < 2 ^ 52 ∧ exp = -1074) ∨ (2 ^ 52 ≤ mant ∧ mant < 2 ^ 53 ∧ -1074 ≤ exp ∧ exp ≤ 971)

instance (mant : ℕ) (exp : ℤ) : Decidable (Canonical mant exp) :=
  inferInstanceAs (Decidable ((_ ∧ _) ∨ (_ ∧ _ ∧ _ ∧ _)))

/-- The exponent of the last place of a number that is not zero. -/
def lastPlace (x : ℚ) : ℤ := max (Int.log 2 |x| - 52) (-1074)

/-- The number with its sign. -/
def toRat (f : F64) : ℚ := if f.neg then -f.value else f.value

end F64

namespace Double

/-- The float of a rounded mantissa; a carry moves it up one place. -/
def ofParts (neg : Bool) (mant : ℕ) (exp : ℤ) : Double :=
  if h : F64.Canonical mant exp then .finite ⟨neg, mant, exp, h⟩
  else if h : F64.Canonical (mant / 2) (exp + 1) then .finite ⟨neg, mant / 2, exp + 1, h⟩
  else .infinite neg

/-- `x > y`; a NaN is above nothing and below nothing. -/
def gt : Double → Double → Bool
  | nan, _ | _, nan => false
  | finite f, finite g => g.toRat < f.toRat
  | finite _, infinite neg => neg
  | infinite neg, finite _ => !neg
  | infinite neg, infinite neg' => !neg && neg'

/-- The nearest float. -/
def ofRat (x : ℚ) : Double :=
  if x = 0 then .finite .zero
  else ofParts (x < 0) (halfEven (|x| / 2 ^ F64.lastPlace x)).toNat (F64.lastPlace x)

example : ofRat (799 / 100) = .finite ⟨false, 8995940255672566, -50, by decide⟩ := by
  decide +kernel

end Double

end Meridian.Python
