import Meridian.Llm.Errors
import Meridian.Python.Sorted

/-!
# The validator

`validator.py`: the content guards, the parse of a model's text, and the checks of a schema.

The redactor and the two identity patterns are what a `Guard` is given.
-/

namespace Meridian.Llm

open Python Json

/-! ## Schemas -/

/-- The part of JSON Schema the prompts are written in. `maxLength` is declared and not checked. -/
inductive Schema
  | object (required : List Text) (properties : List (Text × Schema)) (closed : Bool)
  | array (items : Option Schema)
  | string (pattern : Option Pattern) (enum : Option (List Text)) (maxLength : Option ℕ)
  | number
  | integer
  | boolean

/-- `re.match(pattern, text)` -/
def Pattern.accepts : Pattern → Text → Bool
  | digitFree, t => t.all fun c => (digit? c).isNone

/-- `path or 'root'` -/
def orRoot (path : Text) : Text := if path.isEmpty then "root".toList else path

/-- `f"{path}.{key}" if path else key` -/
def memberPath (path key : Text) : Text := if path.isEmpty then key else path ++ '.' :: key

/-- `f"{path}[{i}]"` -/
def itemPath (path : Text) (i : ℕ) : Text := path ++ '[' :: (Item.intText i ++ [']'])

/-- `_check` of the items of an array, from one on. -/
def checkItems (check : Text → Value → Except Failure Unit) (path : Text) :
    ℕ → List Value → Except Failure Unit
  | _, [] => .ok ()
  | i, v :: rest => do
    check (itemPath path i) v
    checkItems check path (i + 1) rest

/-- The facets of a string. -/
def checkString (pattern : Option Pattern) (enum : Option (List Text)) (path t : Text) :
    Except Failure Unit := do
  match pattern with
  | some p => if p.accepts t then .ok () else .error (.pattern path p)
  | none => .ok ()
  match enum with
  | some allowed => if allowed.contains t then .ok () else .error (.notInEnum path allowed)
  | none => .ok ()

/-- The keys of an object: the required ones, and in a closed object no others. -/
def checkKeys (required : List Text) (properties : List (Text × Schema)) (closed : Bool)
    (path : Text) (members : List (Text × Value)) : Except Failure Unit :=
  match required.find? fun k => (members.lookup k).isNone with
  | some key => .error (.missingKey (orRoot path) key)
  | none =>
    let extra := members.filter fun m => (properties.lookup m.1).isNone
    if closed && !extra.isEmpty then
      .error (.unexpectedKeys (orRoot path) extra.length (sortBy id (properties.map Prod.fst)))
    else .ok ()

mutual

/-- `_check` -/
def check : Schema → Text → Value → Except Failure Unit
  | .object required properties closed, path, node =>
    match node with
    | .dict members => do
      checkKeys required properties closed path members
      checkProperties properties path members
    | _ => .error (.expected (orRoot path) .object)
  | .array items, path, node =>
    match node with
    | .list vs =>
      match items with
      | some schema => checkItems (check schema) path 0 vs
      | none => .ok ()
    | _ => .error (.expected path .array)
  | .string pattern enum _, path, node =>
    match node with
    | .str t => checkString pattern enum path t
    | _ => .error (.expected path .string)
  | .number, path, node =>
    match node with
    | .int _ | .float _ => .ok ()
    | _ => .error (.expected path .number)
  | .integer, path, node =>
    match node with
    | .int _ => .ok ()
    | _ => .error (.expected path .integer)
  | .boolean, path, node =>
    match node with
    | .bool _ => .ok ()
    | _ => .error (.expected path .boolean)

def checkProperties : List (Text × Schema) → Text → List (Text × Value) → Except Failure Unit
  | [], _, _ => .ok ()
  | (key, schema) :: rest, path, members => do
    match members.lookup key with
    | some v => check schema (memberPath path key) v
    | none => .ok ()
    checkProperties rest path members

end

/-- `validate_schema` -/
def validateSchema (node : Value) (schema : Schema) : Except Failure Unit := check schema [] node

/-! ## What a schema accepts -/

theorem find?_missing {required : List Text} {members : List (Text × Value)} :
    (required.find? fun k => (members.lookup k).isNone) = none ↔
      ∀ k ∈ required, ∃ v, members.lookup k = some v := by
  rw [List.find?_eq_none]
  refine forall₂_congr fun k _ => ?_
  rw [Bool.not_eq_true, Option.isNone_eq_false_iff, Option.isSome_iff_exists]

theorem checkKeys_ok {required : List Text} {properties : List (Text × Schema)} {closed : Bool}
    {path : Text} {members : List (Text × Value)} :
    checkKeys required properties closed path members = .ok () ↔
      (∀ k ∈ required, ∃ v, members.lookup k = some v) ∧
        (closed = true → ∀ m ∈ members, (properties.lookup m.1).isSome = true) := by
  unfold checkKeys
  split
  · rename_i key hkey
    refine iff_of_false nofun fun h => ?_
    rw [find?_missing.mpr h.1] at hkey
    exact nomatch hkey
  · rename_i hkeys
    rw [and_iff_right (find?_missing.mp hkeys)]
    dsimp only
    split
    · rename_i hextra
      refine iff_of_false nofun fun h => ?_
      rw [Bool.and_eq_true, Bool.not_eq_true', List.isEmpty_eq_false_iff] at hextra
      refine hextra.2 (List.filter_eq_nil_iff.mpr fun m hm => ?_)
      rw [Option.isNone_iff_eq_none, ← Option.not_isSome_iff_eq_none, not_not]
      exact h hextra.1 m hm
    · rename_i hextra
      refine iff_of_true rfl fun hclosed m hm => ?_
      rw [hclosed, Bool.true_and, Bool.not_eq_true', Bool.not_eq_false, List.isEmpty_iff] at hextra
      rw [← Option.ne_none_iff_isSome, Ne, ← Option.isNone_iff_eq_none]
      exact List.filter_eq_nil_iff.mp hextra m hm

theorem checkProperties_ok {properties : List (Text × Schema)} {path : Text}
    {members : List (Text × Value)} :
    checkProperties properties path members = .ok () ↔
      ∀ p ∈ properties, ∀ v, members.lookup p.1 = some v →
        check p.2 (memberPath path p.1) v = .ok () := by
  induction properties with
  | nil => exact iff_of_true rfl nofun
  | cons p rest ih =>
    obtain ⟨key, schema⟩ := p
    rw [List.forall_mem_cons, ← ih, checkProperties]
    cases hv : members.lookup key with
    | none => exact (and_iff_right nofun).symm
    | some v =>
      constructor
      · intro h
        obtain ⟨_, hmember, hrest⟩ := of_bind_ok h
        refine ⟨fun u hu => ?_, hrest⟩
        cases hu
        exact hmember
      · rintro ⟨hmember, hrest⟩
        exact (bind_of_ok (hmember v rfl)).trans hrest

/-- What an object schema accepts. -/
theorem check_object_ok {required : List Text} {properties : List (Text × Schema)} {closed : Bool}
    {path : Text} {v : Value} :
    check (.object required properties closed) path v = .ok () ↔ ∃ members, v = .dict members ∧
      (∀ k ∈ required, ∃ v, members.lookup k = some v) ∧
      (closed = true → ∀ m ∈ members, (properties.lookup m.1).isSome = true) ∧
      ∀ p ∈ properties, ∀ v, members.lookup p.1 = some v →
        check p.2 (memberPath path p.1) v = .ok () := by
  constructor
  · intro h
    cases v with
    | dict members =>
      rw [check] at h
      obtain ⟨_, hkeys, hproperties⟩ := of_bind_ok h
      obtain ⟨hrequired, hclosed⟩ := checkKeys_ok.mp hkeys
      exact ⟨members, rfl, hrequired, hclosed, checkProperties_ok.mp hproperties⟩
    | _ => rw [check] at h <;> exact nomatch h
  · rintro ⟨members, rfl, hrequired, hclosed, hproperties⟩
    rw [check, bind_of_ok (checkKeys_ok.mpr ⟨hrequired, hclosed⟩)]
    exact checkProperties_ok.mpr hproperties

/-- What a string schema without an enumeration accepts: the pattern alone. -/
theorem check_string_ok {pattern : Option Pattern} {maxLength : Option ℕ} {path : Text}
    {v : Value} :
    check (.string pattern none maxLength) path v = .ok () ↔
      ∃ t, v = .str t ∧ ∀ p, pattern = some p → p.accepts t = true := by
  constructor
  · intro h
    cases v with
    | str t =>
      refine ⟨t, rfl, ?_⟩
      rintro p rfl
      by_contra hp
      simp only [check, checkString, if_neg hp] at h
      exact nomatch h
    | _ => rw [check] at h <;> exact nomatch h
  · rintro ⟨t, rfl, hp⟩
    rw [check]
    cases pattern with
    | none => rfl
    | some p =>
      simp only [checkString, if_pos (hp p rfl)]
      rfl

/-! ## Guards -/

/-- What the guards test a text with. -/
structure Guard where
  /-- `PiiRedactor.redact` -/
  redact : Text → Text
  /-- `_STREET_ADDRESS.search` -/
  streetAddress : Text → Bool
  /-- `_LABELED_NAME.search` -/
  labeledName : Text → Bool

/-- `_MAX_OUTPUT_CHARS` -/
def maxOutputChars : ℕ := 20000

/-- `guard_output` -/
def guardOutput (g : Guard) (text : Text) : Except Failure Unit :=
  if (strip text).isEmpty then .error .empty
  else if maxOutputChars < text.length then .error (.tooLong text.length maxOutputChars)
  else if g.redact text ≠ text then .error .pii
  else if g.streetAddress text then .error .streetAddress
  else if g.labeledName text then .error .labeledName
  else .ok ()

/-! ## Parsing -/

def fence : Text := "```".toList

/-- `[a-zA-Z0-9_-]` -/
def isTagChar (c : Char) : Bool :=
  ('a' ≤ c && c ≤ 'z') || ('A' ≤ c && c ≤ 'Z') || isAsciiDigit c || c = '_' || c = '-'

/-- `\n?` at the start. -/
def dropNewline : Text → Text
  | '\n' :: t => t
  | t => t

/-- `_FENCE_OPEN.sub("", text)` -/
def dropFenceOpen (t : Text) : Text :=
  match fence.isPrefixOf? t with
  | some rest =>
    dropNewline ((rest.dropWhile isTagChar).dropWhile fun c => c = ' ' || c = '\t')
  | none => t

/-- `_FENCE_CLOSE.sub("", text)` of a text that does not end in a newline. -/
def dropFenceClose (t : Text) : Text :=
  match fence.isPrefixOf? t.reverse with
  | some rest => (dropNewline rest).reverse
  | none => t

/-- What `parse_json` parses of a text. -/
def cleaned (text : Text) : Text :=
  if (fence.isPrefixOf? (strip text)).isSome then
    strip (dropFenceClose (dropFenceOpen (strip text)))
  else strip text

/-- `parse_json` -/
def parseJson (depth : ℕ) (text : Text) : Except Raised (List (Text × Value)) :=
  match loads depth (cleaned text) with
  | .ok (.dict members) => .ok members
  | .ok _ => .error (.validationFailed .notObject)
  | .error (.decode e) => .error (.validationFailed (.notJson e.msg))
  | .error .tooManyDigits => .error .valueError
  | .error .recursion => .error .recursionError

def failing {α : Type} : Except Failure α → Except Raised α
  | .ok a => .ok a
  | .error f => .error (.validationFailed f)

/-- `validate_structured` -/
def validateStructured (g : Guard) (depth : ℕ) (text : Text) (schema : Schema) :
    Except Raised (List (Text × Value)) := do
  failing (guardOutput g text)
  let obj ← parseJson depth text
  failing (guardOutput g (dumpsRaw (.dict obj)))
  failing (validateSchema (.dict obj) schema)
  pure obj

/-! ## What is returned -/

theorem of_failing_ok {α : Type} {x : Except Failure α} {a : α}
    (h : failing x = .ok a) : x = .ok a := by
  cases x with
  | error f => exact nomatch h
  | ok b =>
    cases h
    rfl

theorem parseJson_ok {depth : ℕ} {text : Text} {members : List (Text × Value)} :
    parseJson depth text = .ok members ↔ loads depth (cleaned text) = .ok (.dict members) := by
  unfold parseJson
  constructor
  · intro h
    split at h
    · rename_i ms hloads
      cases h
      exact hloads
    all_goals exact nomatch h
  · intro h
    rw [h]

/-- What `validate_structured` returns. -/
theorem validateStructured_ok {g : Guard} {depth : ℕ} {text : Text} {schema : Schema}
    {members : List (Text × Value)} :
    validateStructured g depth text schema = .ok members ↔
      guardOutput g text = .ok () ∧
        loads depth (cleaned text) = .ok (.dict members) ∧
        guardOutput g (dumpsRaw (.dict members)) = .ok () ∧
        validateSchema (.dict members) schema = .ok () := by
  constructor
  · intro h
    obtain ⟨_, hguard, h⟩ := of_bind_ok h
    obtain ⟨ms, hparse, h⟩ := of_bind_ok h
    obtain ⟨_, hdecoded, h⟩ := of_bind_ok h
    obtain ⟨_, hschema, h⟩ := of_bind_ok h
    cases h
    exact ⟨of_failing_ok hguard, parseJson_ok.mp hparse, of_failing_ok hdecoded,
      of_failing_ok hschema⟩
  · rintro ⟨hguard, hloads, hdecoded, hschema⟩
    simp only [validateStructured, hguard, parseJson_ok.mpr hloads, hdecoded, hschema,
      failing, bind, Except.bind, pure, Except.pure]

end Meridian.Llm
