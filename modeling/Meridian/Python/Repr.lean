import Meridian.Python.JsonText

/-!
# `str` and `repr`

`str` of what `json.loads` gives, where a container shows its items by `repr`. `printable` tells
the printable characters beyond ASCII.
-/

namespace Meridian.Python

/-- A hexadecimal escape of so many digits. -/
def hexEscape (mark : Char) (digits n : ℕ) : Text :=
  '\\' :: mark :: ((List.range digits).reverse.map fun i => Item.hexDigit (n / 16 ^ i % 16))

section Repr

variable (printable : Char → Bool)

/-- A character of a text's `repr` between quotes. -/
def reprChar (quote c : Char) : Text :=
  if c = quote ∨ c = '\\' then ['\\', c]
  else if c = '\t' then ['\\', 't']
  else if c = '\n' then ['\\', 'n']
  else if c = '\r' then ['\\', 'r']
  else if c.toNat < 0x20 ∨ c.toNat = 0x7f then hexEscape 'x' 2 c.toNat
  else if c.toNat < 0x7f ∨ printable c then [c]
  else if c.toNat ≤ 0xff then hexEscape 'x' 2 c.toNat
  else if c.toNat ≤ 0xffff then hexEscape 'u' 4 c.toNat
  else hexEscape 'U' 8 c.toNat

/-- The quotes of a text's `repr`: double ones where it has single ones only. -/
def reprQuote (t : Text) : Char :=
  if Char.ofNat 0x27 ∈ t ∧ '"' ∉ t then '"' else Char.ofNat 0x27

/-- `repr` of a text. -/
def reprText (t : Text) : Text :=
  reprQuote t :: (t.flatMap (reprChar printable (reprQuote t)) ++ [reprQuote t])

/-- `str` of a float. -/
def strDouble : Double → Text
  | .finite f => f.repr
  | .infinite neg => F64.signText neg ++ "inf".toList
  | .nan => "nan".toList

mutual

/-- `repr(value)` -/
def reprOf : Value → Text
  | .none => "None".toList
  | .bool b => if b then "True".toList else "False".toList
  | .int n => Item.intText n
  | .float x => strDouble x
  | .str t => reprText printable t
  | .list items => '[' :: (reprItems items ++ [']'])
  | .dict members => '\x7b' :: (reprMembers members ++ ['\x7d'])

def reprItems : List Value → Text
  | [] => []
  | [v] => reprOf v
  | v :: w :: rest => reprOf v ++ ", ".toList ++ reprItems (w :: rest)

def reprMembers : List (Text × Value) → Text
  | [] => []
  | [(k, v)] => reprText printable k ++ ": ".toList ++ reprOf v
  | (k, v) :: m :: rest =>
    reprText printable k ++ ": ".toList ++ reprOf v ++ ", ".toList ++ reprMembers (m :: rest)

end

/-- `str(value)` -/
def strOf : Value → Text
  | .str t => t
  | v => reprOf printable v

end Repr

end Meridian.Python
