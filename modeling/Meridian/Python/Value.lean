import Meridian.Python.Float

/-!
# Values a JSON text stands for

What `json.loads` returns: `None`, booleans, numbers, strings, lists and dictionaries. A dictionary
is its list of members; a key that is looked up is the first one of its name.

* `truthy` is `bool(v)`, `orElse` is `v or w`.
* `isJson` says that a `jsonb` column takes the value.
* `get` is `v.get(key)`, which only a dictionary has; `item` is `v[key]`.
-/

namespace Meridian.Python

inductive Value
  | none
  | bool (b : Bool)
  | int (n : ℤ)
  | float (x : Double)
  | str (t : Text)
  | list (items : List Value)
  | dict (members : List (Text × Value))

/-- What reading a value raises. -/
inductive Misread
  | attributeError
  | keyError
  | typeError
  deriving DecidableEq

/-- `bool(x)` of a float: every float but the two zeros, NaN included. -/
def Double.truthy : Double → Bool
  | .finite f => f.mant ≠ 0
  | _ => true

/-- A number JSON has a text for. -/
def Double.isFinite : Double → Bool
  | .finite _ => true
  | _ => false

namespace Value

/-! A `NaN` or an infinity anywhere in a value keeps it out of a JSON column. -/

mutual

def isJson : Value → Bool
  | float x => x.isFinite
  | list items => isJsonList items
  | dict members => isJsonMembers members
  | _ => true

def isJsonList : List Value → Bool
  | [] => true
  | v :: items => v.isJson && isJsonList items

def isJsonMembers : List (Text × Value) → Bool
  | [] => true
  | (_, v) :: members => v.isJson && isJsonMembers members

end

def truthy : Value → Bool
  | none => false
  | bool b => b
  | int n => n ≠ 0
  | float x => x.truthy
  | str t => !t.isEmpty
  | list items => !items.isEmpty
  | dict members => !members.isEmpty

/-- `v or w` -/
def orElse (v w : Value) : Value := if v.truthy then v else w

/-- `v.get(key)`; a missing key gives `None`. -/
def get (key : Text) : Value → Except Misread Value
  | dict members => .ok ((members.lookup key).getD none)
  | _ => .error .attributeError

/-- `v[key]` with a string key. -/
def item (key : Text) : Value → Except Misread Value
  | dict members =>
    match members.lookup key with
    | some v => .ok v
    | .none => .error .keyError
  | _ => .error .typeError

/-- `v == t` against a string. -/
def isStr (t : Text) : Value → Bool
  | str u => u = t
  | _ => false

theorem isStr_iff {t : Text} {v : Value} : v.isStr t = true ↔ v = str t := by
  cases v <;> simp [isStr]

end Value

end Meridian.Python
