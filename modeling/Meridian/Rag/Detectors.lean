import Meridian.Redactor.Rules

/-!
# What the hygiene gate detects in a text

`scanText` is `scan_text`: it reports what the detectors match, each a pattern of its own, with a
masked sample. The patterns are transcribed one to one, on the redactor's vocabulary; a match that
lies in one that is already reported is left out.

Under `re.IGNORECASE` a class of letters holds the characters beyond ASCII that fold to them too
(`anyLetter`).
-/

namespace Meridian.Rag.Hygiene

open Python Regex Redactor

/-- What kind of data a finding is of. -/
inductive Category
  | ssn | ein | passport | license | dob | pan | cvv | bank | name | address | city | zip | email
  | phone
  deriving DecidableEq

/-- Why a file is refused as a whole. -/
inductive FileReason
  | filenamePii | unreadableFile | nonUtf8File | malformedJsonl | malformedJson | noDataRows
  | dataShapedHeader | nameColumn | unsupportedFile
  deriving DecidableEq

/-- `pii_type` -/
inductive PiiType
  | found (c : Category)
  /-- `field:` and the `lastgroup` of the key -/
  | field (c : Option Category)
  | file (r : FileReason)
  deriving DecidableEq

/-- `Finding` -/
structure Finding where
  piiType : PiiType
  maskedSample : Text
  deriving DecidableEq

/-- `_mask` -/
def mask (value : Text) : Text :=
  if 8 ≤ (digitsOf value).length then
    bullets ((digitsOf value).length - 4) ++ (digitsOf value).drop ((digitsOf value).length - 4)
  else bullets value.length

/-! ## Patterns -/

section Patterns

variable (u : Unicode)

/-- `[A-Za-z]` under `re.IGNORECASE` -/
def anyLetter (c : Char) : Bool :=
  letter c || c.toNat = 0x130 || c.toNat = 0x131 || c.toNat = 0x17f || c.toNat = 0x212a

/-- `\W{0,n}` -/
def nonWord (n : ℕ) : P := times 0 n (.one fun c => !u.word c)

/-- `[-_ ]?` -/
def dash : P := opt (.one (oneOf "-_ "))

/-- `number|no|num` and `no|num|number` -/
def numberFirst : P := anyOf [word "number", word "no", word "num"]
def noFirst : P := anyOf [word "no", word "num", word "number"]

/-- `_PAN_CANDIDATE` -/
def panCandidate : P :=
  seq [edge u, digit,
    times 12 18 (seq [opt (.one fun c => !(asciiDigit c || c = '\n')), digit]), edge u]

/-- `_PAN_LABELED` -/
def panLabeled : P :=
  seq [edge u,
    anyOf [word "pan", seq [word "card", dash, numberFirst], seq [word "cc", dash, numberFirst],
      seq [word "credit", dash, word "card"], seq [word "account", dash, numberFirst],
      seq [word "acct", dash, numberFirst],
      seq [word "primary", dash, word "account", dash, word "number"]],
    edge u, nonWord u 4,
    .group 1 (seq [digit, times 12 24 (seq [opt (.one (oneOf " _-/*.")), digit])])]

/-- `[A-Z]{2}\d{2}[A-Za-z0-9]{11,30}`, of a class of letters -/
def ibanShape (upper any : Char → Bool) : P :=
  seq [times 2 2 (.one upper), digits 2, times 11 30 (.one fun c => any c || asciiDigit c)]

/-- `_BANK_LABELED` -/
def bankLabeled : P :=
  seq [edge u,
    anyOf [seq [word "bank", dash, word "account"], word "account", word "acct", word "dda",
      seq [word "ach", opt (seq [dash, word "account"])], word "routing", word "aba", word "rtn",
      word "transit", word "iban"],
    opt (seq [dash, numberFirst]), edge u, nonWord u 10,
    .group 1 (anyOf
      [seq [digit, times 5 32 (.one fun c => decimal c || c = '-' || isSpace c)],
        ibanShape anyLetter anyLetter])]

/-- `_IBAN` -/
def ibanFree : P := seq [edge u, ibanShape upper letter, edge u]

/-- `_SSN` -/
def ssnBare : P :=
  seq [edge u, digits 3, .one (oneOf "- "), digits 2, .one (oneOf "- "), digits 4, edge u]

/-- `[-\s]?` -/
def dashOrSpace : P := opt (.one fun c => c = '-' || isSpace c)

/-- `_SSN_LABELED` -/
def ssnLabeled : P :=
  seq [edge u,
    anyOf [word "ssn", seq [word "social", dash, word "security"],
      seq [word "tax", dash, word "id"], word "tin"],
    opt (seq [dash, noFirst]), opt (word "s"), edge u, nonWord u 10, digits 3, dashOrSpace,
    digits 2, dashOrSpace, digits 4, edge u]

/-- `_EIN` -/
def einPattern : P := seq [edge u, digits 2, char '-', digits 7, edge u]

/-- `_CVV_LABELED` -/
def cvvLabeled : P :=
  seq [edge u,
    anyOf [seq [word "cvv", opt (word "2")], seq [word "cvc", opt (word "2")], word "cv2",
      seq [word "card", dash, word "security", dash, word "code"],
      seq [word "card", dash, word "verification", opt (seq [dash, word "value"])],
      seq [word "security", dash, word "code"]],
    edge u, nonWord u 10, .group 1 (times 3 4 digit), edge u]

/-- `_EMAIL` -/
def emailPattern : P :=
  seq [edge u, plus (.one fun c => u.word c || oneOf ".+-" c), char '@',
    plus (.one fun c => u.word c || c = '-'), char '.',
    plus (.one fun c => u.word c || oneOf ".-" c), edge u]

/-- `[ .\-]` -/
def phoneMid : P := .one (oneOf " .-")

/-- `_PHONE` -/
def phonePattern : P :=
  seq [.alt (seq [char '(', digits 3, char ')', opt space]) (seq [edge u, digits 3, phoneMid]),
    digits 3, phoneMid, digits 4, edge u]

/-- `[\s.\-]?` -/
def phoneSep : P := opt (.one fun c => isSpace c || oneOf ".-" c)

/-- `_PHONE_LABELED` -/
def phoneLabeled : P :=
  seq [edge u,
    anyOf [word "phone", word "telephone", word "tel", word "mobile", word "cell", word "fax"],
    opt (seq [dash, noFirst]), opt (word "s"), edge u, nonWord u 10,
    .group 1 (seq [opt (char '+'), opt (char '1'), phoneSep, opt (char '('), digits 3,
      opt (char ')'), phoneSep, digits 3, phoneSep, digits 4]),
    edge u]

/-- `_MONTH` -/
def month : P :=
  anyOf [seq [word "jan", opt (word "uary")], seq [word "feb", opt (word "ruary")],
    seq [word "mar", opt (word "ch")], seq [word "apr", opt (word "il")], word "may",
    seq [word "jun", opt (word "e")], seq [word "jul", opt (word "y")],
    seq [word "aug", opt (word "ust")],
    seq [word "sep", opt (seq [word "t", opt (word "ember")])], seq [word "oct", opt (word "ober")],
    seq [word "nov", opt (word "ember")], seq [word "dec", opt (word "ember")]]

/-- `(?:st|nd|rd|th)?` -/
def ordinalMark : P := opt (anyOf [word "st", word "nd", word "rd", word "th"])

/-- A hyphen or a slash. -/
def dateMark : P := .one (oneOf "-/")

/-- `_DOB_CONTEXT` -/
def dobContext : P :=
  seq [edge u,
    anyOf [word "dob", seq [word "date", dash, word "of", dash, word "birth"],
      seq [word "birth", dash, word "date"], word "born"],
    edge u, nonWord u 10,
    .group 1 (anyOf
      [seq [digits 4, dateMark, times 1 2 digit, dateMark, times 1 2 digit],
        seq [times 1 2 digit, dateMark, times 1 2 digit, dateMark, digits 4],
        seq [month, opt (char '.'), plus space, times 1 2 digit, ordinalMark, opt (char ','),
          plus space, digits 4],
        seq [times 1 2 digit, ordinalMark, plus space, month, opt (char '.'), opt (char ','),
          plus space, digits 4]])]

/-- `_NAME_LABELED` -/
def nameLabeled : P :=
  seq [edge u,
    opt (anyOf [word "full", word "first", word "last", word "middle", word "legal", word "given",
      word "maiden", word "applicant", word "borrower", word "customer"]),
    opt (.one (oneOf " _")), word "name", assigned,
    .group 1 (seq [.one upper, plus (.one lower),
      times 1 3 (seq [.one fun c => c = ' ' || c = '-' || c.toNat = 0x27, .one upper,
        plus (.one lower)])])]

/-- `_ADDRESS_LABELED` -/
def addressLabeled : P :=
  seq [edge u,
    opt (anyOf [word "home", word "mailing", word "billing", word "street", word "postal",
      word "residential"]),
    opt (.one (oneOf " _")), word "address", assigned,
    .group 1 (seq [times 1 6 digit, plus space, .one fun c => anyLetter c || asciiDigit c,
      times 3 60 (.one fun c => anyLetter c || asciiDigit c || oneOf " .,#-" c ||
        c.toNat = 0x27)])]

end Patterns

/-! ## Matches with their places -/

/-- A match of `finditer`, with where it starts. -/
structure Match where
  start : ℕ
  hit : Hit Char

/-- `m.end()` -/
def Match.stop (m : Match) : ℕ := m.start + m.hit.text.length

/-- The matches among the pieces of a text, the first piece at `n`. -/
def placed : ℕ → List (Piece Char) → List Match
  | _, [] => []
  | n, .kept _ :: ps => placed (n + 1) ps
  | n, .hit m :: ps => ⟨n, m⟩ :: placed (n + m.text.length) ps

def finditer (r : P) (t : Text) : List Match := placed 0 (scan r t)

/-- `s <= m.start() and m.end() <= e` -/
def Match.inside (m n : Match) : Bool := n.start ≤ m.start && m.stop ≤ n.stop

/-- `s < m.end() and m.start() < e` -/
def Match.overlaps (m n : Match) : Bool := n.start < m.stop && m.start < n.stop

/-- The matches that are not left out for one that is there already, which those before are. -/
def unreported (covers : Match → Match → Bool) : List Match → List Match → List Match
  | _, [] => []
  | seen, m :: ms =>
    if seen.any (covers m) then unreported covers seen ms
    else m :: unreported covers (seen ++ [m]) ms

/-- A card number of 13 to 19 digits. -/
def isPan (digits : Text) : Bool :=
  13 ≤ digits.length && digits.length ≤ 19 && luhnValid digits

/-- The findings of one kind. -/
def report (c : Category) (sample : Match → Text) (ms : List Match) : List Finding :=
  ms.map fun m => ⟨.found c, mask (sample m)⟩

/-- `scan_text` -/
def scanText (u : Unicode) (t : Text) : List Finding :=
  let whole (m : Match) : Text := m.hit.text
  let value (m : Match) : Text := m.hit.get 1
  let ssn := finditer (ssnBare u) t
  let ssnLabel := unreported (fun m n => n.inside m) ssn (finditer (ssnLabeled u) t)
  let ssnSpans := ssn ++ ssnLabel
  let phone := (finditer (phonePattern u) t).filter fun m =>
    !ssnSpans.any fun n => m.start = n.start && m.stop = n.stop
  let bank := finditer (bankLabeled u) t
  report .ssn whole ssn ++
    report .pan (digitsOf ∘ whole)
      ((finditer (panCandidate u) t).filter fun m => isPan (digitsOf (whole m))) ++
    report .pan (digitsOf ∘ value)
      ((finditer (panLabeled u) t).filter fun m => isPan (digitsOf (value m))) ++
    report .ssn whole ssnLabel ++
    report .dob value (finditer (dobContext u) t) ++
    report .cvv value (finditer (cvvLabeled u) t) ++
    report .ein whole ((finditer (einPattern u) t).filter fun m => !ssnSpans.any m.inside) ++
    (finditer (emailPattern u) t).map (fun m =>
      ⟨.found .email, bullets 4 ++ '@' :: ((whole m).dropWhile (· ≠ '@')).tail⟩) ++
    report .phone whole phone ++
    report .phone value (unreported Match.overlaps phone (finditer (phoneLabeled u) t)) ++
    report .bank value bank ++
    report .bank whole ((finditer (ibanFree u) t).filter fun m => !bank.any m.inside) ++
    report .name value (finditer (nameLabeled u) t) ++
    report .address value (finditer (addressLabeled u) t)

end Meridian.Rag.Hygiene
