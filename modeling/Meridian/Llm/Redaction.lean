import Meridian.Llm.Validator

/-!
# Redaction of what goes to the provider

The structural half of `request_builder.py`'s redaction: values, keys and whole JSON documents. The
pattern redactor stays outside, with the parts of Unicode that are tables: a `Runtime`.
-/

namespace Meridian.Llm

open Python Json

/-- What redaction and requests are computed with. -/
structure Runtime extends Guard where
  /-- `str.lower` -/
  lower : Text → Text
  /-- `str.isalpha` on one character -/
  isAlpha : Char → Bool
  /-- `str.isalnum` on one character -/
  isAlnum : Char → Bool
  /-- `str` of a list or a dictionary -/
  containerText : Value → Text
  /-- How deep a text may nest before the recursion limit: the smaller of what `json.loads` and
  `_redact_node` have left of it. -/
  depth : ℕ

/-- `_IDENTITY_MASK` -/
def identityMask : Text := "•••• (redacted)".toList

/-- `_FREETEXT_MASK` -/
def freetextMask : Text := "•••• (free text redacted)".toList

/-- `_KEY_MASK` -/
def keyMask : Text := "•••• (key redacted)".toList

/-- `_SAFE_CATEGORICAL` -/
def safeCategorical : List (Text × List Text) :=
  [("purpose", ["auto", "debt_consolidation", "home_improvement", "personal", "working_capital"]),
    ("action", ["tool", "final"]),
    ("tool", ["score_application", "get_decision_record", "search_policy"]),
    ("task", ["decision", "explain"]),
    ("policy_topic", ["fee_schedule", "apr_finance_charge", "interest_rate", "eligibility_rules",
      "credit_decisioning", "adverse_action", "debt_to_income", "records_retention"]),
    ("outcome", ["approve", "refer", "deny", "counteroffer"]),
    ("policy_band", ["approve", "refer", "deny"]),
    ("status", ["recorded", "no_record_legacy", "not_found", "policy_hit", "policy_abstain"]),
    ("reason_codes", ["r01", "r02", "r03", "r04"])].map
    fun x => (x.1.toList, x.2.map String.toList)

/-- `part in text` -/
def hasPart (part : String) (t : Text) : Bool := t.tails.any fun u => part.toList.isPrefixOf u

def startsWith (part : String) (t : Text) : Bool := part.toList.isPrefixOf t

def endsWith (part : String) (t : Text) : Bool := part.toList.isSuffixOf t

variable (r : Runtime)

/-- A field name without case and separators. -/
def normalized (key : Text) : Text :=
  (r.lower (strip key)).filter fun c => c ≠ '_' && c ≠ '-' && c ≠ ' '

/-- `_is_identity_key` -/
def isIdentityKey (key : Text) : Bool :=
  let kn := normalized r key
  kn = "name".toList || endsWith "name" kn || kn = "surname".toList
    || ["firstname", "lastname", "middlename", "fullname", "maidenname"].any (kn = ·.toList)
    || kn = "dob".toList || hasPart "birth" kn
    || hasPart "address" kn || ["street", "zip", "postal", "postcode"].any (startsWith · kn)
    || kn = "city".toList
    || kn = "ein".toList || endsWith "ein" kn || startsWith "employer" kn || kn = "company".toList
    || hasPart "jobtitle" kn || kn = "title".toList

/-- The number some digits of a text spell. -/
def digitsAt (t : Text) (start len : ℕ) : ℕ :=
  ofDigits (((t.drop start).take len).filterMap digit?)

/-- `_looks_like_numeric_identity` of an integer. -/
def looksLikeNumericIdentity (value : ℤ) : Bool :=
  let digits := Item.intText value.natAbs
  let lead := fun i => ((digits[i]?).map fun c => '2' ≤ c && c ≤ '9').getD false
  if digits.length = 9 then true
  else if digits.length = 8 then
    let year := digitsAt digits 0 4
    let month := digitsAt digits 4 2
    let day := digitsAt digits 6 2
    1900 ≤ year && year ≤ 2099 && 1 ≤ month && month ≤ 12 && 1 ≤ day && day ≤ 31
  else if digits.length = 10 then lead 0 && lead 3
  else false

/-- `_is_numeric_identity_key` -/
def isNumericIdentityKey (key : Text) : Bool :=
  let kn := normalized r key
  ["socialsecurity", "taxpayer", "taxid", "itin", "nationalid"].any (hasPart · kn)
    || kn = "ssn".toList || startsWith "ssn" kn || endsWith "ssn" kn
    || kn = "tin".toList || startsWith "tin" kn
    || kn = "sin".toList || kn = "sinnumber".toList

/-- `_strip_fragment_digits` -/
def stripFragmentDigits (masked : Text) : Text := masked.map fun c => if isDigit c then '•' else c

/-- The quotes `json.dumps` added, dropped again. -/
def unquote (t : Text) : Text :=
  if 2 ≤ t.length ∧ t.head? = some '"' ∧ t.getLast? = some '"' then (t.drop 1).dropLast else t

/-- What the pattern redactor makes of a value under its label, or `plain` where it finds nothing. -/
def redactShaped (key : Text) (value plain : Value) : Value :=
  let label := '"' :: (key ++ "\": ".toList)
  let probe := label ++ dumps value
  let redacted := r.redact probe
  if redacted = probe then plain
  else
    match label.isPrefixOf? redacted with
    | some masked => .str (stripFragmentDigits (unquote masked))
    | none =>
      .str (stripFragmentDigits (r.redact
        (match value with
        | .str t => t
        | v => dumps v)))

/-- The value is a code its field may carry. -/
def isSafeCode (key t : Text) : Bool :=
  match safeCategorical.lookup (r.lower (strip key)) with
  | some codes => codes.contains (r.lower (strip t))
  | none => false

/-- `_redact_scalar` -/
def redactScalar (key : Text) (value : Value) : Value :=
  match value with
  | .str t =>
    if isSafeCode r key t then value
    else if t.any isSpace then .str freetextMask
    else redactShaped r key value (if t.isEmpty then value else .str freetextMask)
  | .int n =>
    redactShaped r key value
      (if isNumericIdentityKey r key || looksLikeNumericIdentity n then .str identityMask else value)
  | .float _ =>
    redactShaped r key value (if isNumericIdentityKey r key then .str identityMask else value)
  | _ => value

/-- `_is_field_name` -/
def isFieldName : Text → Bool
  | [] => false
  | c :: t =>
    (r.isAlpha c || c = '_') && (c :: t).all fun c => r.isAlnum c || c = '_' || c = '-'

/-- `_redact_key` -/
def redactKey (key : Text) : Text :=
  if isFieldName r (r.redact key) then r.redact key else keyMask

def hasKey (members : List (Text × Value)) (key : Text) : Bool := (members.lookup key).isSome

/-- `f"{key} ({n})"` -/
def suffixed (key : Text) (n : ℕ) : Text := key ++ " (".toList ++ Item.intText n ++ [')']

/-- The key a member goes under, after the members before it: one that is taken gets the first free
suffix, which is among as many as there are members and one more. -/
def freshKey (out : List (Text × Value)) (key : Text) : Text :=
  if hasKey out key then
    (((List.range' 2 (out.length + 1)).map (suffixed key)).find? fun k => !hasKey out k).getD key
  else key

mutual

/-- `_redact_node` -/
def redactNode (key : Text) : Value → Value
  | .dict members => .dict (redactMembers [] members)
  | .list items => .list (redactItems key items)
  | .none => .none
  | .bool b => .bool b
  | .int n => redactScalar r key (.int n)
  | .float x => redactScalar r key (.float x)
  | .str t => redactScalar r key (.str t)

def redactItems (key : Text) : List Value → List Value
  | [] => []
  | v :: rest => redactNode key v :: redactItems key rest

/-- The members of an object after those in `out`. -/
def redactMembers (out : List (Text × Value)) : List (Text × Value) → List (Text × Value)
  | [] => out
  | (k, v) :: rest =>
    redactMembers
      (out ++ [(freshKey out (redactKey r k),
        if isIdentityKey r k then .str identityMask else redactNode k v)]) rest

end

/-- `_require_json_object`: nothing where the text is not the JSON of an object. -/
def requireJsonObject (text : Text) : Except Raised (Option (List (Text × Value))) :=
  match loads r.depth text with
  | .ok (.dict members) => .ok (some members)
  | .error .recursion => .error .recursionError
  | _ => .ok none

/-- `redact_json` -/
def redactJson (text : Text) : Except Raised Text :=
  match loads r.depth text with
  | .ok v => .ok (dumpsRaw (redactNode r [] v))
  | .error .recursion => .error .recursionError
  | .error _ => .ok (r.redact text)

/-- `_redact_json_var` -/
def redactJsonVar (name text : Text) : Except Raised Text := do
  match ← requireJsonObject r text with
  | some _ => redactJson r text
  | none => .error (.llmError (.jsonVar name))

end Meridian.Llm
