import Meridian.Python.Json
import Meridian.Python.Nearest
import Meridian.Python.Raise
import Meridian.Python.Value

/-!
# `json.loads` and `json.dumps`

`loads depth text` is the scanner of the standard library over the text: white space is the four
characters JSON names, digits are ASCII, a control character inside a string is refused, and `NaN`
and the infinities are read. A key written twice keeps its first place and its last value. `depth`
is what is left of the recursion limit; an object or an array costs one.

The loops of an object and of an array run on fuel, of which the length of the text is enough
(`members_fuel`, `elements_fuel`).

An escape of a lone surrogate gives the replacement character, since a `Text` has no surrogates;
`json.loads` keeps it, and a text with one is outside the model.
-/

namespace Meridian.Python

namespace Json

/-- `JSONDecodeError`, by its message. -/
inductive DecodeError
  | unexpectedBom
  | expectingValue
  | expectingName
  | expectingColon
  | expectingComma
  | extraData
  | unterminatedString
  | invalidControl
  | invalidEscape
  | invalidUnicodeEscape
  deriving DecidableEq

def DecodeError.msg : DecodeError → Text
  | unexpectedBom => "Unexpected UTF-8 BOM (decode using utf-8-sig)".toList
  | expectingValue => "Expecting value".toList
  | expectingName => "Expecting property name enclosed in double quotes".toList
  | expectingColon => "Expecting ':' delimiter".toList
  | expectingComma => "Expecting ',' delimiter".toList
  | extraData => "Extra data".toList
  | unterminatedString => "Unterminated string starting at".toList
  | invalidControl => "Invalid control character at".toList
  | invalidEscape => "Invalid \\escape".toList
  | invalidUnicodeEscape => "Invalid \\uXXXX escape".toList

/-- What `json.loads` raises. -/
inductive Fault
  | decode (e : DecodeError)
  /-- `ValueError`: an integer of more digits than `int()` converts -/
  | tooManyDigits
  /-- `RecursionError` -/
  | recursion
  deriving DecidableEq

/-- Reading a part of a text: the part's value, and the rest of the text. -/
abbrev Scan (α : Type) := Text → Except Fault (α × Text)

/-- White space as JSON has it. -/
def isBlank (c : Char) : Bool := c = ' ' || c = '\t' || c = '\n' || c = '\r'

def skipBlanks (t : Text) : Text := t.dropWhile isBlank

/-! ## Strings -/

/-- The value of a hexadecimal digit. -/
def hex? (c : Char) : Option ℕ :=
  if '0' ≤ c ∧ c ≤ '9' then some (c.toNat - 0x30)
  else if 'a' ≤ c ∧ c ≤ 'f' then some (c.toNat - 0x61 + 10)
  else if 'A' ≤ c ∧ c ≤ 'F' then some (c.toNat - 0x41 + 10)
  else none

/-- The UTF-16 unit four hexadecimal digits spell. -/
def unit? (a b c d : Char) : Option ℕ := do
  pure (0x1000 * (← hex? a) + 0x100 * (← hex? b) + 0x10 * (← hex? c) + (← hex? d))

/-- The character after a backslash, other than `u`. -/
def escaped? (c : Char) : Option Char :=
  [('"', '"'), ('\\', '\\'), ('/', '/'), ('b', Char.ofNat 0x8), ('f', Char.ofNat 0xc),
    ('n', '\n'), ('r', '\r'), ('t', '\t')].lookup c

/-- A character of a string: written out, or as an escaped UTF-16 unit. -/
inductive Piece
  | char (c : Char)
  | unit (n : ℕ)

/-- The pieces of a string after its opening quote. -/
def scanPieces : Scan (List Piece)
  | [] => .error (.decode .unterminatedString)
  | c :: t =>
    if c = '"' then .ok ([], t)
    else if c = '\\' then
      match t with
      | [] => .error (.decode .unterminatedString)
      | e :: u =>
        if e = 'u' then
          match u with
          -- the four digits are read only where another character follows them
          | a :: b :: c :: d :: f :: u =>
            match unit? a b c d with
            | some n => (scanPieces (f :: u)).map fun r => (.unit n :: r.1, r.2)
            | none => .error (.decode .invalidUnicodeEscape)
          | _ => .error (.decode .invalidUnicodeEscape)
        else
          match escaped? e with
          | some x => (scanPieces u).map fun r => (.char x :: r.1, r.2)
          | none => .error (.decode .invalidEscape)
    else if c.toNat < 0x20 then .error (.decode .invalidControl)
    else (scanPieces t).map fun r => (.char c :: r.1, r.2)

def isHigh (n : ℕ) : Bool := 0xd800 ≤ n && n ≤ 0xdbff
def isLow (n : ℕ) : Bool := 0xdc00 ≤ n && n ≤ 0xdfff

/-- The character of a unit that stands alone. A lone surrogate has none: `json.loads` keeps it, and
such texts are outside the model. -/
def loneUnit (n : ℕ) : Char :=
  if isHigh n || isLow n then Char.ofNat 0xfffd else Char.ofNat n

/-- The text of the pieces; a high surrogate and a low one after it are one character. -/
def joinPieces : List Piece → Text
  | [] => []
  | .char c :: rest => c :: joinPieces rest
  | .unit m :: .unit n :: rest =>
    if isHigh m && isLow n then
      Char.ofNat (0x10000 + 0x400 * (m - 0xd800) + (n - 0xdc00)) :: joinPieces rest
    else loneUnit m :: joinPieces (.unit n :: rest)
  | .unit m :: rest => loneUnit m :: joinPieces rest

/-- `scanstring` after the opening quote. -/
def scanString : Scan Text := fun t => (scanPieces t).map fun r => (joinPieces r.1, r.2)

/-! ## Numbers -/

def isAsciiDigit (c : Char) : Bool := '0' ≤ c && c ≤ '9'

/-- The longest run of digits, with their values. -/
def digitRun (t : Text) : List ℕ × Text :=
  ((t.takeWhile isAsciiDigit).map fun c => c.toNat - 0x30, t.dropWhile isAsciiDigit)

/-- `-?` -/
def minus : Text → Bool × Text
  | '-' :: t => (true, t)
  | t => (false, t)

/-- `(?:0|[1-9]\d*)` -/
def wholePart : Text → Option (List ℕ × Text)
  | [] => none
  | c :: t =>
    if c = '0' then some ([0], t)
    else if isAsciiDigit c then some (digitRun (c :: t))
    else none

/-- `(\.\d+)?` -/
def fraction : Text → Option (List ℕ) × Text
  | '.' :: d :: t =>
    if isAsciiDigit d then (some (digitRun (d :: t)).1, (digitRun (d :: t)).2)
    else (none, '.' :: d :: t)
  | t => (none, t)

/-- The digits of an exponent after its letter, with their sign. -/
def exponentDigits (t : Text) : Option (ℤ × Text) :=
  let signed := takeSign t
  match digitRun signed.2 with
  | ([], _) => none
  | (ds, rest) => some (Python.signed signed.1 (ofDigits ds), rest)

/-- `([eE][-+]?\d+)?` -/
def exponent : Text → Option ℤ × Text
  | [] => (none, [])
  | c :: t =>
    if c = 'e' ∨ c = 'E' then
      match exponentDigits t with
      | some (e, rest) => (some e, rest)
      | none => (none, c :: t)
    else (none, c :: t)

/-- `float` of a decimal: a zero keeps its sign. -/
def toFloat (neg : Bool) (x : ℚ) : Double :=
  if x = 0 then .finite { F64.zero with neg := neg }
  else Double.ofRat (if neg then -x else x)

/-- `NUMBER_RE` -/
def scanNumber : Scan Value := fun t =>
  match wholePart (minus t).2 with
  | none => .error (.decode .expectingValue)
  | some (ds, rest) =>
    let fp := fraction rest
    let ex := exponent fp.2
    if fp.1.isNone && ex.1.isNone then
      if maxStrDigits < ds.length then .error .tooManyDigits
      else .ok (.int (signed (minus t).1 (ofDigits ds)), ex.2)
    else
      let digits := ds ++ fp.1.getD []
      let e := ex.1.getD 0 - (fp.1.getD []).length
      .ok (.float (toFloat (minus t).1 (ofDigits digits * 10 ^ e)), ex.2)

/-! ## Values -/

def literals : List (Text × Value) :=
  [("null".toList, .none), ("true".toList, .bool true), ("false".toList, .bool false),
    ("NaN".toList, .float .nan), ("Infinity".toList, .float (.infinite false)),
    ("-Infinity".toList, .float (.infinite true))]

def literal? (t : Text) : Option (Value × Text) :=
  literals.findSome? fun l => (l.1.isPrefixOf? t).map (l.2, ·)

/-- `d[key] = v` on the members of a dictionary. -/
def setItem (members : List (Text × Value)) (key : Text) (v : Value) : List (Text × Value) :=
  if (members.lookup key).isSome then members.map fun m => if m.1 = key then (key, v) else m
  else members ++ [(key, v)]

/-- The members of an object from a key on, after those that were read. -/
def members (scan : Scan Value) : ℕ → List (Text × Value) → Scan (List (Text × Value))
  | 0, _, _ => .error (.decode .expectingName)
  | fuel + 1, read, t =>
    match t with
    | '"' :: t => do
      let (key, t) ← scanString t
      match skipBlanks t with
      | ':' :: t => do
        let (v, t) ← scan (skipBlanks t)
        match skipBlanks t with
        | '}' :: t => pure (setItem read key v, t)
        | ',' :: t => members scan fuel (setItem read key v) (skipBlanks t)
        | _ => .error (.decode .expectingComma)
      | _ => .error (.decode .expectingColon)
    | _ => .error (.decode .expectingName)

/-- The elements of an array from one on. -/
def elements (scan : Scan Value) : ℕ → Scan (List Value)
  | 0, _ => .error (.decode .expectingValue)
  | fuel + 1, t => do
    let (v, t) ← scan t
    match skipBlanks t with
    | ']' :: t => pure ([v], t)
    | ',' :: t => do
      let (rest, t) ← elements scan fuel (skipBlanks t)
      pure (v :: rest, t)
    | _ => .error (.decode .expectingComma)

/-- An object after its opening brace. -/
def scanObject (scan : Scan Value) : Scan Value := fun t =>
  match skipBlanks t with
  | '}' :: t => .ok (.dict [], t)
  | t => (members scan t.length [] t).map fun r => (.dict r.1, r.2)

/-- An array after its opening bracket. -/
def scanArray (scan : Scan Value) : Scan Value := fun t =>
  match skipBlanks t with
  | ']' :: t => .ok (.list [], t)
  | t => (elements scan t.length t).map fun r => (.list r.1, r.2)

/-- A value, with the scanner of the values inside it; none where the recursion limit is reached. -/
def scanAt (nested : Option (Scan Value)) : Scan Value
  | [] => .error (.decode .expectingValue)
  | c :: t =>
    if c = '"' then (scanString t).map fun r => (.str r.1, r.2)
    else if c = '{' then
      match nested with
      | some scan => scanObject scan t
      | none => .error .recursion
    else if c = '[' then
      match nested with
      | some scan => scanArray scan t
      | none => .error .recursion
    else
      match literal? (c :: t) with
      | some r => .ok r
      | none => scanNumber (c :: t)

/-- `scan_once` -/
def scanOnce : ℕ → Scan Value
  | 0 => scanAt none
  | depth + 1 => scanAt (some (scanOnce depth))

/-- `json.loads` -/
def loads (depth : ℕ) (t : Text) : Except Fault Value :=
  if t.head? = some (Char.ofNat 0xfeff) then .error (.decode .unexpectedBom)
  else do
    let (v, rest) ← scanOnce depth (skipBlanks t)
    if skipBlanks rest = [] then pure v else .error (.decode .extraData)

/-! ## Writing -/

/-- A character of a string literal with `ensure_ascii=False`. -/
def escapeRaw (c : Char) : Text :=
  if c = '"' ∨ c = '\\' ∨ c.toNat < 0x20 then Item.escape c else [c]

def quoted (escape : Char → Text) (t : Text) : Text := '"' :: (t.flatMap escape ++ ['"'])

/-- A float: its `repr`, and the names JSON text has for the others. -/
def floatText : Double → Text
  | .finite f => f.repr
  | .infinite neg => F64.signText neg ++ "Infinity".toList
  | .nan => "NaN".toList

mutual

/-- `json.dumps` with the default separators. -/
def dumpsWith (escape : Char → Text) : Value → Text
  | .none => "null".toList
  | .bool b => if b then "true".toList else "false".toList
  | .int n => Item.intText n
  | .float x => floatText x
  | .str t => quoted escape t
  | .list items => '[' :: (dumpsItems escape items ++ [']'])
  | .dict members => '{' :: (dumpsMembers escape members ++ ['}'])

def dumpsItems (escape : Char → Text) : List Value → Text
  | [] => []
  | [v] => dumpsWith escape v
  | v :: w :: rest => dumpsWith escape v ++ ", ".toList ++ dumpsItems escape (w :: rest)

def dumpsMembers (escape : Char → Text) : List (Text × Value) → Text
  | [] => []
  | [(k, v)] => quoted escape k ++ ": ".toList ++ dumpsWith escape v
  | (k, v) :: m :: rest =>
    quoted escape k ++ ": ".toList ++ dumpsWith escape v ++ ", ".toList ++
      dumpsMembers escape (m :: rest)

end

/-- `json.dumps(value)` -/
def dumps : Value → Text := dumpsWith Item.escape

/-- `json.dumps(value, ensure_ascii=False)` -/
def dumpsRaw : Value → Text := dumpsWith escapeRaw

end Json

end Meridian.Python
