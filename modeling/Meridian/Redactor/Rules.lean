import Meridian.Python.Text
import Meridian.Regex.Scanning

/-!
# The redactor

`PiiRedactor`: `redact` rewrites a text by one pass after another (`passes`), each of which replaces
the matches of a pattern. The patterns are transcribed one to one; `u` tells the alphanumeric
characters, which `\b` turns on.

Under `re.IGNORECASE` a letter stands for its two cases and for the characters beyond ASCII that
fold to it (`caseless`).
-/

namespace Meridian.Redactor

open Python Regex

/-! ## Characters -/

/-- What the Unicode database says of a character, as far as the passes ask for it. -/
structure Unicode where
  /-- `c.isalnum()` -/
  isAlnum : Char → Bool
  ascii : ∀ c, c.toNat < 0x80 → isAlnum c = c.isAlphanum

/-- A database in which no character beyond ASCII is alphanumeric. -/
def asciiUnicode : Unicode := ⟨fun c => c.toNat < 0x80 && c.isAlphanum, fun c h => by simp [h]⟩

/-- `\w` -/
def Unicode.word (u : Unicode) (c : Char) : Bool := u.isAlnum c || c = '_'

/-- `\d` -/
def decimal (c : Char) : Bool := (digit? c).isSome

def oneOf (t : String) (c : Char) : Bool := t.toList.contains c

/-- `[A-Z]`, `[a-z]` and `[0-9]` -/
def upper (c : Char) : Bool := 'A' ≤ c && c ≤ 'Z'
def lower (c : Char) : Bool := 'a' ≤ c && c ≤ 'z'
def asciiDigit (c : Char) : Bool := '0' ≤ c && c ≤ '9'

theorem decimal_of_asciiDigit {c : Char} (h : asciiDigit c = true) : decimal c = true := by
  simp only [asciiDigit, Bool.and_eq_true, decide_eq_true_eq, Char.le_def,
    UInt32.le_iff_toNat_le] at h
  simp only [decimal, digit?, Option.isSome_map, List.find?_isSome]
  refine ⟨0x30, List.mem_cons_self, ?_⟩
  have htoNat : c.toNat = c.val.toNat := rfl
  simp at h
  simp only [Bool.and_eq_true, decide_eq_true_eq]
  omega

def letter (c : Char) : Bool := upper c || lower c

/-- A check made on each character of a text. -/
theorem forall_of_all {p : Char → Prop} [DecidablePred p] {t : Text}
    (h : (t.all fun c => decide (p c)) = true) : ∀ c ∈ t, p c :=
  fun c hc => of_decide_eq_true (List.all_eq_true.mp h c hc)

/-- A letter under `re.IGNORECASE`. -/
def caseless (c d : Char) : Bool :=
  d.toLower = c ||
    match c with
    | 'i' => d.toNat = 0x130 || d.toNat = 0x131
    | 's' => d.toNat = 0x17f
    | 'k' => d.toNat = 0x212a
    | _ => false

/-- `•` -/
def bullet : Char := '•'

/-- The two quotes. -/
def quote (c : Char) : Bool := c = '"' || c.toNat = 0x27

/-! ## Patterns -/

abbrev P := Pattern Char

/-- Patterns one after the other. -/
def seq (rs : List P) : P := rs.foldr .cat .empty

/-- Patterns tried in order; there is one at least. -/
def anyOf : List P → P
  | [] => .notAhead .empty
  | [r] => r
  | r :: rs => .alt r (anyOf rs)

def opt (r : P) : P := .rep true 0 (some 1) r
def star (r : P) : P := .rep true 0 none r
def plus (r : P) : P := .rep true 1 none r
def times (least most : ℕ) (r : P) : P := .rep true least (some most) r

def char (c : Char) : P := .one (· = c)
def text (t : String) : P := seq (t.toList.map char)

/-- A word under `re.IGNORECASE`. -/
def word (t : String) : P := seq (t.toList.map fun c => .one (caseless c))

def space : P := .one isSpace
def digit : P := .one decimal
def digits (n : ℕ) : P := times n n digit

/-- `[_ ]?` -/
def gap : P := opt (.one (oneOf "_ "))

/-- `["']?` -/
def optQuote : P := opt (.one quote)

/-- `\s*[:=]\s*` -/
def assigned : P := seq [star space, .one (oneOf ":="), star space]

/-- `(?=[\s,;}\])]|$)` -/
def fieldEnd : P :=
  .ahead (.alt (.one fun c => isSpace c || oneOf ",;\x7d])" c) (.atEnd (· = '\n')))

/-- `[^\s"',;}\])&]+` -/
def bareValue : P := plus (.one fun c => !(isSpace c || quote c || oneOf ",;\x7d])&" c))

/-- `\b` -/
def edge (u : Unicode) : P := .edge u.word

/-! ## Masks -/

def bullets (n : ℕ) : Text := List.replicate n bullet

/-- `_mask_with_last_4` -/
def maskWithLast4 (t : Text) : Text :=
  if t.length ≤ 4 then bullets t.length else bullets (t.length - 4) ++ t.drop (t.length - 4)

/-- `re.sub(r"\D", "", value)` -/
def digitsOf (value : Text) : Text := value.filter decimal

/-- The tag of a masked card number. -/
def panTag : Text := " (PAN)".toList

/-- `_mask_pan_value` -/
def maskPanValue (value : Text) : Text :=
  if (digitsOf value).length < 13 then value else maskWithLast4 (digitsOf value) ++ panTag

/-- What a digit adds to the checksum, the last digit having the index zero. -/
def luhnTerm (i d : ℕ) : ℕ := if i % 2 = 1 then if 9 < d * 2 then d * 2 - 9 else d * 2 else d

/-- `_luhn_valid` -/
def luhnValid (ds : Text) : Bool :=
  (ds.reverse.mapIdx fun i c => luhnTerm i ((digit? c).getD 0)).sum % 10 = 0

/-- `_redact_if_pan`, on the text of a match. -/
def redactIfPan (raw : Text) : Text :=
  let ds := digitsOf raw
  if 13 ≤ ds.length ∧ ds.length ≤ 19 ∧ luhnValid ds = true then maskWithLast4 ds ++ panTag else raw

/-- `_mask_bank_value` -/
def maskBankValue (value : Text) : Text :=
  if value.contains bullet then value
  else if (digitsOf value).length < 4 then value
  else maskWithLast4 (digitsOf value)

/-- `_MAX_SEPARATOR_RUN` -/
def maxSeparatorRun : ℕ := 8

/-- `\d(?:\D{0,8}\d){12,18}` -/
def cardRun : P :=
  seq [digit, times 12 18 (seq [times 0 maxSeparatorRun (.one (!decimal ·)), digit])]

/-- `_mask_pan_in_value` -/
def maskPanInValue (value : Text) : Text :=
  if value.countP isDigit < 13 then value else sub cardRun (fun m => redactIfPan m.text) value

/-- The value of a hexadecimal digit. -/
def hexDigit? (c : Char) : Option ℕ :=
  if asciiDigit c then some (c.toNat - 0x30)
  else if 'A' ≤ c && c ≤ 'F' then some (c.toNat - 0x37)
  else if 'a' ≤ c && c ≤ 'f' then some (c.toNat - 0x57)
  else none

/-- `%([0-9A-Fa-f]{2})` -/
def percentEscape : P := seq [char '%', .group 1 (times 2 2 (.one fun c => (hexDigit? c).isSome))]

/-- `chr(int(text, 16))` -/
def escaped (t : Text) : Char :=
  Char.ofNat (t.foldl (fun n c => 16 * n + (hexDigit? c).getD 0) 0)

/-- `_percent_decode` -/
def percentDecode (t : Text) : Text := sub percentEscape (fun m => [escaped (m.get 1)]) t

/-- `_mask_pan_token` -/
def maskPanToken (token : Text) : Text :=
  let decoded := percentDecode token
  if decoded ≠ token ∧ maskPanInValue decoded ≠ decoded then maskPanInValue decoded
  else maskPanInValue token

/-! ## The passes -/

section Passes

variable (u : Unicode)

/-- `_REQUEST_LINE` -/
def requestLine : P :=
  seq [edge u,
    .group 1 (anyOf [word "get", word "post", word "put", word "patch", word "delete", word "head",
      word "options"]),
    .group 2 (plus space), .group 3 (plus (.one (!isSpace ·))),
    .group 4 (seq [plus space, word "http", char '/', digit])]

/-- What replaces a query. -/
def queryMark : Text := '?' :: bullets 3

/-- `_mask_request_target_query` -/
def maskRequestTargetQuery (m : Hit Char) : Text :=
  if (m.get 3).contains '?' then
    m.get 1 ++ m.get 2 ++ ((m.get 3).takeWhile (· ≠ '?') ++ queryMark) ++ m.get 4
  else m.text

/-- Pass 0: the query of a request target. -/
def maskQueries (t : Text) : Text := sub (requestLine u) maskRequestTargetQuery t

/-- `(?:number|no|num)` -/
def numberWord : P := anyOf [word "number", word "no", word "num"]

/-- `_PAN_KEY` -/
def panKey : P :=
  anyOf [word "pan", seq [word "card", gap, numberWord], seq [word "cc", gap, numberWord],
    seq [word "credit", gap, word "card"], seq [word "account", gap, numberWord],
    seq [word "acct", gap, numberWord],
    seq [word "primary", gap, word "account", gap, numberWord]]

/-- `_BANK_KEY`, the boundary before it included. -/
def bankKey : P :=
  seq [edge u,
    anyOf [seq [word "bank", gap, word "account"], word "account", word "acct", word "dda",
      seq [word "ach", opt (seq [gap, word "account"])], word "routing", word "aba", word "rtn",
      word "transit", word "iban"],
    opt (seq [gap, anyOf [word "number", word "no", word "num"]])]

/-- A labelled value in quotes, up to the quote that ends its field. -/
def labeledQuoted (key : P) : P :=
  seq [.group 1 (seq [optQuote, key, optQuote, assigned]), .group 2 (.one quote),
    .group 3 (.rep false 0 none (.one (· ≠ '\n'))), .same 2, fieldEnd]

/-- A labelled value without quotes. -/
def labeledBare (key : P) : P :=
  seq [.group 1 (seq [optQuote, key, optQuote, assigned]), .group 2 bareValue]

/-- The value masked, its label and quotes kept. -/
def maskQuoted (mask : Text → Text) (m : Hit Char) : Text :=
  m.get 1 ++ m.get 2 ++ mask (m.get 3) ++ m.get 2

def maskBare (mask : Text → Text) (m : Hit Char) : Text := m.get 1 ++ mask (m.get 2)

/-- Pass 1a: a card number in a labelled field. -/
def maskQuotedPan (t : Text) : Text :=
  sub (labeledQuoted (seq [edge u, panKey])) (maskQuoted maskPanValue) t

def maskBarePan (t : Text) : Text :=
  sub (labeledBare (seq [edge u, panKey])) (maskBare maskPanValue) t

/-- `[^0-9A-Za-z]{0,3}|[A-Za-z]` between the digits of a card number in free text. -/
def cardGap : P := .alt (times 0 3 (.one fun c => !(asciiDigit c || letter c))) (.one letter)

/-- Pass 1b: a card number in free text. -/
def maskFreePan (t : Text) : Text :=
  sub (seq [edge u, digit, times 12 18 (seq [cardGap, digit]), edge u])
    (fun m => redactIfPan m.text) t

/-- Pass 1c: a card number in groups with dots. -/
def maskDottedPan (t : Text) : Text :=
  sub (seq [edge u, digits 4, times 2 2 (seq [char '.', digits 4]), char '.', times 1 7 digit,
      edge u])
    (fun m => redactIfPan m.text) t

/-- `(["'])((?:(?!\1)[^\\]|\\.)*)\1` -/
def quotedText : P :=
  seq [.group 1 (.one quote),
    .group 2 (star (.alt (seq [.notAhead (.same 1), .one (· ≠ '\\')])
      (seq [char '\\', .one (· ≠ '\n')]))), .same 1]

/-- Pass 1d: a card number in a quoted value. -/
def maskQuotedValues (t : Text) : Text :=
  sub quotedText (fun m => m.get 1 ++ maskPanInValue (m.get 2) ++ m.get 1) t

/-- What a token ends at: white space and `"'?&=/#;,:`. -/
def tokenDelimiter (c : Char) : Bool := isSpace c || quote c || oneOf "?&=/#;,:" c

/-- Pass 1e: a card number in a token. -/
def maskTokens (t : Text) : Text :=
  sub (plus (.one (!tokenDelimiter ·))) (fun m => maskPanToken m.text) t

/-- Pass 2: a card security code in a labelled field. -/
def maskCvv (t : Text) : Text :=
  sub (seq [.group 1 (seq [optQuote,
        anyOf [word "cvv2", word "cvv", word "cvc", word "cid",
          seq [word "card", gap, word "security", gap, word "code"],
          seq [word "security", gap, word "code"]],
        optQuote, assigned, optQuote]),
      .group 2 (times 3 4 digit), .group 3 optQuote])
    (fun m => m.get 1 ++ bullets 4 ++ m.get 3) t

/-- `•••-••-` -/
def ssnMark : Text := bullets 3 ++ '-' :: bullets 2 ++ ['-']

/-- Pass 3a: a dashed social security number. -/
def maskDashedSsn (t : Text) : Text :=
  sub (seq [edge u, digits 3, char '-', digits 2, char '-', .group 1 (digits 4), edge u])
    (fun m => ssnMark ++ m.get 1) t

/-- Pass 3a-bis: one with dots, slashes or blanks. -/
def maskSpacedSsn (t : Text) : Text :=
  sub (seq [edge u, digits 3,
      .alt (seq [.group 1 (.one (oneOf "./")), digits 2, .same 1])
        (seq [plus (.one (oneOf " \t")), digits 2, plus (.one (oneOf " \t"))]),
      .group 2 (digits 4), edge u])
    (fun m => ssnMark ++ m.get 2) t

/-- `(?:[_ ]?(?:no|num|number))?s?["']?\s*[:=]\s*(?:["']\s*)?`, after the words of a label. -/
def labelTail : P :=
  seq [opt (seq [gap, anyOf [word "no", word "num", word "number"]]), opt (word "s"), optQuote,
    assigned, opt (seq [.one quote, star space])]

/-- Pass 3b: one in a labelled field. -/
def maskLabeledSsn (t : Text) : Text :=
  sub (seq [.group 1 (seq [optQuote,
        anyOf [word "ssn", seq [word "social", gap, word "security"],
          seq [word "tax", gap, word "id"], word "tin"], labelTail]),
      digits 3, star (.one fun c => isSpace c || oneOf "-./" c), digits 2,
      star (.one fun c => isSpace c || oneOf "-./" c), .group 2 (digits 4), edge u])
    (fun m => m.get 1 ++ ssnMark ++ m.get 2) t

/-- Pass 4: the local part of an email address. -/
def maskEmail (t : Text) : Text :=
  sub (seq [edge u, plus (.one fun c => letter c || asciiDigit c || oneOf "._%+-" c), char '@',
      .group 1 (seq [plus (.one fun c => letter c || asciiDigit c || oneOf ".-" c), char '.',
        .rep true 2 none (.one letter)]), edge u])
    (fun m => bullets 4 ++ '@' :: m.get 1) t

/-- `•••-•••-` -/
def phoneMark : Text := bullets 3 ++ '-' :: bullets 3 ++ ['-']

/-- `[\s.-]` -/
def phoneGap : P := .one fun c => isSpace c || oneOf ".-" c

/-- Pass 5a: a phone number in a labelled field. -/
def maskLabeledPhone (t : Text) : Text :=
  sub (seq [.group 1 (seq [optQuote,
        anyOf [word "phone", word "telephone", word "tel", word "mobile", word "cell", word "fax"],
        labelTail]),
      opt (char '+'), opt (char '1'), opt phoneGap, opt (char '('), digits 3, opt (char ')'),
      opt phoneGap, digits 3, opt phoneGap, .group 2 (digits 4), edge u])
    (fun m => m.get 1 ++ phoneMark ++ m.get 2) t

/-- Pass 5b: a phone number in free text. -/
def maskPhone (t : Text) : Text :=
  sub (seq [opt (seq [char '+', times 1 3 digit, phoneGap]),
      .alt (seq [opt (char '('), digits 3, phoneGap])
        (seq [opt (char '('), digits 3, char ')', opt phoneGap]),
      digits 3, opt phoneGap, .group 1 (digits 4), edge u])
    (fun m => phoneMark ++ m.get 1) t

/-- Pass 6a: a bank account in a labelled field. -/
def maskQuotedBank (t : Text) : Text :=
  sub (labeledQuoted (bankKey u)) (maskQuoted maskBankValue) t

def maskBareBank (t : Text) : Text := sub (labeledBare (bankKey u)) (maskBare maskBankValue) t

/-- Pass 6b: an IBAN in free text. -/
def maskIban (t : Text) : Text :=
  sub (seq [edge u,
      .group 1 (seq [times 2 2 (.one upper), digits 2,
        times 11 30 (.one fun c => letter c || asciiDigit c)]), edge u])
    (fun m => maskWithLast4 (m.get 1)) t

/-- The passes behind the first, in order. -/
def passes : List (Text → Text) :=
  [maskQuotedPan u, maskBarePan u, maskFreePan u, maskDottedPan u, maskQuotedValues, maskTokens,
    maskCvv, maskDashedSsn u, maskSpacedSsn u, maskLabeledSsn u, maskEmail u, maskLabeledPhone u,
    maskPhone u, maskQuotedBank u, maskBareBank u, maskIban u]

/-- `PiiRedactor.redact` -/
def redact (t : Text) : Text := (passes u).foldl (fun t pass => pass t) (maskQueries u t)

end Passes

end Meridian.Redactor
