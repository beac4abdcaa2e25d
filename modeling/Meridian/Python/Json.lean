import Meridian.Python.Text

/-!
# `json.dumps` of a flat list

The list's items are numbers, texts and `None`, written without blanks and with every character
outside printable ASCII escaped (`ensure_ascii`).
-/

namespace Meridian.Python

/-- An item of the list. -/
inductive Item
  | null
  | int (n : Int)
  | text (t : Text)

namespace Item

def hexDigit (n : Nat) : Char := if n < 10 then digitChar n else Char.ofNat (0x61 + (n - 10))

/-- A UTF-16 unit as an escape of four hexadecimal digits. -/
def unit (n : Nat) : Text :=
  ['\\', 'u', hexDigit (n / 4096 % 16), hexDigit (n / 256 % 16), hexDigit (n / 16 % 16),
    hexDigit (n % 16)]

/-- One character of a string literal. -/
def escape (c : Char) : Text :=
  if c = '"' then ['\\', '"']
  else if c = '\\' then ['\\', '\\']
  else if c = '\n' then ['\\', 'n']
  else if c = '\r' then ['\\', 'r']
  else if c = '\t' then ['\\', 't']
  else if c.toNat = 0x8 then ['\\', 'b']
  else if c.toNat = 0xc then ['\\', 'f']
  else if 0x20 ≤ c.toNat ∧ c.toNat ≤ 0x7e then [c]
  else if c.toNat < 0x10000 then unit c.toNat
  -- beyond the basic plane, a surrogate pair
  else unit (0xd800 + (c.toNat - 0x10000) / 1024) ++ unit (0xdc00 + (c.toNat - 0x10000) % 1024)

/-- `str(n)` of an integer. -/
def intText (n : Int) : Text :=
  (if n < 0 then ['-'] else []) ++
    if n = 0 then ['0'] else ((Nat.digits 10 n.natAbs).reverse.map digitChar)

def dump : Item → Text
  | null => ['n', 'u', 'l', 'l']
  | int n => intText n
  | text t => '"' :: (t.flatMap escape ++ ['"'])

end Item

/-- `json.dumps(items, separators=(",", ":"))`. -/
def dumps (items : List Item) : Text :=
  '[' :: ((items.map Item.dump).intersperse [',']).flatten ++ [']']

end Meridian.Python
