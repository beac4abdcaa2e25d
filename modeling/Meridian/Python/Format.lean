import Meridian.Python.Nearest

/-!
# Fixed formatting of a float

`fixed places x` is `f"{x:.{places}f}"` for at least one place: the exact value rounded half to even
at that place. An infinity and a NaN are written by name.
-/

namespace Meridian.Python

open Numeric

namespace F64

/-- The number in units of its last place. -/
def scaledUnits (places : ℕ) (f : F64) : ℕ := (halfEven (f.value * 10 ^ places)).toNat

/-- A whole number of units as digits with a point before the last `places` of them. -/
def unitsText (neg : Bool) (places n : ℕ) : Text :=
  let whole := n / 10 ^ places
  fixedText neg (if whole = 0 then [0] else (Nat.digits 10 whole).reverse)
    ((List.range places).map fun i => n / 10 ^ (places - 1 - i) % 10)

def fixed (places : ℕ) (f : F64) : Text := unitsText f.neg places (f.scaledUnits places)

end F64

namespace Double

def fixed (places : ℕ) : Double → Text
  | finite f => f.fixed places
  | infinite neg => F64.signText neg ++ ['i', 'n', 'f']
  | nan => ['n', 'a', 'n']

end Double

example : (Double.ofRat (1234567 / 1000)).fixed 2 = "1234.57".toList := by decide +kernel

end Meridian.Python
