import Meridian.Python.JsonPrefix
import Meridian.Python.Lines
import Meridian.Python.Repr
import Meridian.Rag.Detectors

/-!
# The hygiene gate on structured files

`scanRecord` and `scanJsonValue` walk a JSON value, `scanFile` is `scan_file`: a `.json` or `.jsonl`
file is scanned by its values, a delimited one by its rows, and any other but plain text is refused.

A list is walked wherever it is, but for a list in a list of an object: that one is scanned as the
text `str` has for it, so the keys in it are not seen as keys.

* `Walked`, `Stringified`: the parts of a value that the walkers get to, and what they show as text.
* `scanJsonValue_ne_nil`: a value is reported exactly for a part that is walked and is flagged, or a
  text that shows something.
* `exposed_reported_iff`: what a value exposes at any depth is reported, and its file refused,
  exactly when some of it is walked or shows in a text; `nested_city` is a city that is not.
-/

namespace Meridian.Rag.Hygiene

open Python Regex Redactor

/-- What the gate takes from the Unicode database. -/
structure Charset where
  unicode : Unicode
  /-- `str.isprintable` beyond ASCII -/
  printable : Char → Bool
  /-- `str.lower` -/
  lower : Text → Text
  lower_ascii : ∀ t, (∀ c ∈ t, c.toNat < 0x80) → lower t = t.map Char.toLower

/-! ## Sensitive keys -/

section Keys

/-- `(?:[_ ]?(?:no|num|number))` -/
def noSuffix : P := seq [gap, noFirst]

/-- `(?:[_ ]?(?:number|no|num))` -/
def numberSuffix : P := seq [gap, numberFirst]

/-- The words of a label with `[_ ]?` between them. -/
def label : List String → P
  | [] => .empty
  | [w] => word w
  | w :: ws => seq [word w, gap, label ws]

/-- The aliases of each category, in the order they are tried. -/
def aliases : List (Category × P) :=
  [(.ssn, anyOf
      [seq [word "ssn", opt noSuffix], seq [word "ss", noSuffix],
        seq [label ["social", "security"], opt noSuffix],
        seq [label ["tax", "id"], opt (word "entification"), opt noSuffix], word "tin",
        seq [opt (seq [word "individual", gap]), .alt (label ["taxpayer", "id"]) (word "itin"),
          opt noSuffix]]),
    (.ein, .alt (seq [word "ein", opt noSuffix])
      (seq [label ["employer", "id"], opt (word "entification"), opt noSuffix])),
    (.passport, seq [word "passport", opt noSuffix]),
    (.license, .alt
      (seq [word "driver", opt (.one fun c => c.toNat = 0x27), opt (word "s"), gap, word "license",
        opt noSuffix])
      (seq [.alt (word "license") (word "dl"), noSuffix])),
    (.dob, anyOf [word "dob", label ["date", "of", "birth"], label ["birth", "date"],
      label ["birth", "day"]]),
    (.pan, anyOf
      [seq [word "pan", opt numberSuffix], label ["primary", "account", "number"],
        seq [word "card", numberSuffix], seq [word "cc", numberSuffix],
        seq [.alt (word "credit") (word "debit"), gap, word "card", opt numberSuffix]]),
    (.cvv, anyOf
      [seq [word "cvv", opt (word "2"), opt (seq [gap, word "code"])],
        seq [word "cvc", opt (word "2")], word "cv2", seq [opt (seq [word "card", gap]), label ["security", "code"]]]),
    (.bank, seq [anyOf
      [word "account", word "acct", label ["bank", "account"], word "dda",
        seq [word "ach", opt (seq [gap, word "account"])], word "routing", word "aba", word "rtn",
        word "transit", word "iban", word "swift", word "bic", label ["sort", "code"]],
      opt numberSuffix]),
    (.name, .alt
      (seq [opt (seq [plus (.one anyLetter), .one (oneOf "_ ")]), word "name"])
      (seq [anyOf [word "sur", word "given", word "maiden", word "first", word "last",
        word "middle", word "full", word "f", word "l", word "m"], gap, word "name"])),
    (.address, anyOf
      [seq [anyOf [word "mailing", word "home", word "billing", word "postal", word "street",
          word "residential"], gap, word "address", opt (seq [gap, word "line"]), gap, star digit],
        seq [word "address", opt (seq [gap, word "line"]), gap, star digit],
        seq [word "addr", opt (word "ess"), star digit], word "street"]),
    (.city, word "city"),
    (.zip, .alt (seq [word "zip", opt (seq [gap, word "code"])]) (label ["postal", "code"])),
    (.email, seq [word "e", opt (.one (oneOf "-_ ")), word "mail",
      opt (seq [gap, word "address"])]),
    (.phone, .alt (seq [word "phone", opt numberSuffix]) (seq [word "fax", opt numberSuffix]))]

/-- `_SENSITIVE_KEY`, each category a group. -/
def sensitiveKey : P :=
  seq [optQuote, anyOf (aliases.zipIdx.map fun a => .group a.2 a.1.2), optQuote,
    .atEnd (· = '\n')]

/-- The match of a key, and its `lastgroup`. -/
def matchKey (key : Text) : Option (Option Category) :=
  (matchAt sensitiveKey ⟨none, key, []⟩).map fun t =>
    t.groups.head?.bind fun g => aliases[g.1]?.map Prod.fst

/-- `re.sub(r"[-_\s]+", "_", key.strip().lower())` -/
def normKey (C : Charset) (key : Text) : Text :=
  sub (plus (.one fun c => c = '-' || c = '_' || isSpace c)) (fun _ => ['_'])
    (C.lower (strip key))

end Keys

/-! ## Values -/

section Values

variable (C : Charset)

/-- `value not in (None, "")` -/
def isGiven : Value → Bool
  | .none => false
  | .str t => t ≠ []
  | _ => true

/-- A key and its value. -/
def scanKey (m : Text × Value) : List Finding :=
  scanText C.unicode m.1 ++
    match matchKey (normKey C m.1) with
    | some category =>
      if isGiven m.2 then [⟨.field category, mask (strOf C.printable m.2)⟩] else []
    | none => []

mutual

/-- The values of an object. -/
def scanMembers : List (Text × Value) → List Finding
  | [] => []
  | (_, v) :: ms => scanField v ++ scanMembers ms

def scanField : Value → List Finding
  | .dict ms => ms.flatMap (scanKey C) ++ scanMembers ms
  | .list items => scanItems items
  | .none => []
  | v => scanText C.unicode (strOf C.printable v)

def scanItems : List Value → List Finding
  | [] => []
  | item :: items => scanItem item ++ scanItems items

def scanItem : Value → List Finding
  | .dict ms => ms.flatMap (scanKey C) ++ scanMembers ms
  | .none => []
  | item => scanText C.unicode (strOf C.printable item)

end

/-- `scan_record` -/
def scanRecord (ms : List (Text × Value)) : List Finding :=
  ms.flatMap (scanKey C) ++ scanMembers C ms

mutual

/-- `_scan_json_value` -/
def scanJsonValue : Value → List Finding
  | .dict ms => scanRecord C ms
  | .list items => scanJsonValues items
  | .none => []
  | v => scanText C.unicode (strOf C.printable v)

def scanJsonValues : List Value → List Finding
  | [] => []
  | item :: items => scanJsonValue item ++ scanJsonValues items

end

end Values

/-! ## Files -/

/-- What is in a file, as far as it can be read. -/
inductive Content
  | unreadable
  /-- bytes that are not UTF-8 -/
  | binary
  | text (t : Text)

/-- A file under a corpus root, with the `name` and the `suffix` of its path. -/
structure CandidateFile where
  path : Text
  name : Text
  suffix : Text
  content : Content

/-- `FileVerdict` -/
structure FileVerdict where
  path : Text
  passed : Bool
  findings : List Finding

/-- What `csv.DictReader` reads: its column names, and its rows, each with what is beyond them. -/
structure Table where
  fieldnames : List Text
  rows : List (List (Text × Option Text) × List Text)

/-- What the gate runs on. -/
structure Gate where
  charset : Charset
  /-- how deep a text may nest before the recursion limit: the smaller of what `json.loads` and the
  walkers have left of it -/
  depth : ℕ
  /-- `csv.DictReader` with a delimiter; none where it raises -/
  dictReader : Char → Text → Option Table

/-- What `scan_file` raises. -/
inductive ScanError
  | json (e : Json.Fault)
  | csv

section Files

variable (G : Gate)

/-- `raw.strip()` leaves nothing of a character. -/
def isAsciiBlank (c : Char) : Bool := c = ' ' || 0x9 ≤ c.toNat && c.toNat ≤ 0xd

/-- `_PLAUSIBLE_HEADER` -/
def plausibleHeader : P :=
  seq [.one letter, times 0 60 (.one fun c => G.charset.unicode.word c || oneOf " %./()$#&-" c)]

/-- `_PERSON_NAME` -/
def personName : P :=
  seq [.one upper, plus (.one lower),
    plus (seq [.one fun c => c = ' ' || c = '-' || c.toNat = 0x27, .one upper, plus (.one lower)])]

/-- `r.fullmatch(t)` -/
def fullmatch (r : P) (t : Text) : Bool := (ends r ⟨none, t, []⟩).any fun c => c.after.isEmpty

/-- The column names a delimited suffix is split at. -/
def delimiter (suffix : Text) : Option Char :=
  if suffix = ".csv".toList then some ',' else if suffix = ".tsv".toList then some '\t' else none

/-- `_SCANNABLE_TEXT` -/
def scannableText : List Text := [".md", ".markdown", ".txt", ".text", ".log"].map String.toList

/-- A row of the table as a record. -/
def scanRow (row : List (Text × Option Text) × List Text) : List Finding :=
  scanRecord G.charset (row.1.map fun c => (c.1, c.2.elim .none .str)) ++
    row.2.flatMap (scanText G.charset.unicode)

/-- A column of names: two of its cells, the header counted, are shaped like one. -/
def nameColumn (table : Table) (col : Text) : Bool :=
  2 ≤ ((col :: table.rows.filterMap fun row => (row.1.lookup col).join).countP fun cell =>
    fullmatch personName (strip cell))

/-- The findings of a delimited file. -/
def scanDelimited (text sample : Text) (table : Table) : List Finding :=
  scanText G.charset.unicode text ++ table.fieldnames.flatMap (scanText G.charset.unicode) ++
    table.rows.flatMap (scanRow G) ++
    (if table.rows = [] then [⟨.file .noDataRows, sample⟩] else []) ++
    (if table.fieldnames.any fun name =>
        strip name ≠ [] && !fullmatch (plausibleHeader G) (strip name) then
      [⟨.file .dataShapedHeader, sample⟩] else []) ++
    (if table.fieldnames.any (nameColumn table) then [⟨.file .nameColumn, sample⟩] else [])

/-- The value of a JSON text; a text that cannot be read as one is a finding. -/
def scanJson (text sample : Text) (malformed : FileReason) : Except ScanError (List Finding) :=
  match Json.loads G.depth text with
  | .ok v => .ok (scanJsonValue G.charset v)
  | .error (.decode _) => .ok [⟨.file malformed, sample⟩]
  | .error e => .error (.json e)

/-- The lines of a `.jsonl` file. -/
def scanLines (sample : Text) : List Text → Except ScanError (List Finding)
  | [] => .ok []
  | line :: lines =>
    if strip line = [] then scanLines sample lines
    else do
      let found ← scanJson G (strip line) sample .malformedJsonl
      let rest ← scanLines sample lines
      pure (found ++ rest)

/-- The findings of a text that is there. -/
def scanContent (suffix text : Text) : Except ScanError (List Finding) :=
  let sample := suffix.dropWhile (· = '.')
  if suffix = ".jsonl".toList then scanLines G sample (splitlines text)
  else if suffix = ".json".toList then scanJson G text sample .malformedJson
  else
    match delimiter suffix with
    | some d =>
      match G.dictReader d text with
      | some table => .ok (scanDelimited G text sample table)
      | none => .error .csv
    | none =>
      if suffix ∈ scannableText then .ok (scanText G.charset.unicode text)
      else .ok [⟨.file .unsupportedFile, if suffix = [] then "(none)".toList else suffix⟩]

/-- `scan_file` -/
def scanFile (f : CandidateFile) : Except ScanError FileVerdict :=
  let suffix := G.charset.lower f.suffix
  let refused (r : FileReason) : Except ScanError FileVerdict :=
    .ok ⟨f.path, false, [⟨.file r, if suffix = [] then "(none)".toList else suffix⟩]⟩
  if scanText G.charset.unicode f.name ≠ [] then refused .filenamePii
  else
    match f.content with
    | .unreadable => refused .unreadableFile
    | .binary => refused .nonUtf8File
    | .text t =>
      if t.all isAsciiBlank then .ok ⟨f.path, true, []⟩
      else if t.contains (Char.ofNat 0) then refused .nonUtf8File
      else (scanContent G suffix t).map fun findings => ⟨f.path, findings.isEmpty, findings⟩

end Files

/-! ## What a value exposes, and what is walked of it -/

/-- `w` is a part of `v`, at any depth. -/
inductive Occurs (w : Value) : Value → Prop
  | here : Occurs w w
  | item {v : Value} {items : List Value} : v ∈ items → Occurs w v → Occurs w (.list items)
  | member {m : Text × Value} {ms : List (Text × Value)} :
    m ∈ ms → Occurs w m.2 → Occurs w (.dict ms)

def isList : Value → Bool
  | .list _ => true
  | _ => false

/-- `w` is a part of `v`, not behind a list that is in a list of an object. -/
inductive Walked (w : Value) : Value → Prop
  | here : Walked w w
  | item {v : Value} {items : List Value} : v ∈ items → Walked w v → Walked w (.list items)
  | member {m : Text × Value} {ms : List (Text × Value)} :
    m ∈ ms → isList m.2 = false → Walked w m.2 → Walked w (.dict ms)
  | listed {m : Text × Value} {ms : List (Text × Value)} {v : Value} {items : List Value} :
    m ∈ ms → m.2 = .list items → v ∈ items → isList v = false → Walked w v → Walked w (.dict ms)

section Exposure

variable (C : Charset)

/-- A text that shows something, or an object with a key that does or with a sensitive one that is
given a value. -/
def Flagged : Value → Prop
  | .str t => scanText C.unicode t ≠ []
  | .dict ms => ∃ m ∈ ms, scanText C.unicode m.1 ≠ [] ∨
      (matchKey (normKey C m.1)).isSome = true ∧ isGiven m.2 = true
  | _ => False

/-- Some part of the value, at any depth, is flagged. -/
def Exposed (v : Value) : Prop := ∃ w, Occurs w v ∧ Flagged C w

/-- A number, or one of the two truth values. -/
def isScalar : Value → Bool
  | .bool _ | .int _ | .float _ => true
  | _ => false

/-- `w` is what of `v` is scanned as its `str`: a scalar that is walked, or a list in a list of an
object. -/
def Stringified (w v : Value) : Prop :=
  isScalar w = true ∧ Walked w v ∨
    isList w = true ∧ ∃ ms, Walked (.dict ms) v ∧ ∃ m ∈ ms, ∃ items, m.2 = .list items ∧ w ∈ items

/-- Some part that is walked is flagged, or the text of one that is not shows something. -/
def Seen (v : Value) : Prop :=
  (∃ w, Walked w v ∧ Flagged C w) ∨
    ∃ w, Stringified w v ∧ scanText C.unicode (strOf C.printable w) ≠ []

/-- A value of an object, and an item of a list that is one. -/
def SeenItem (v : Value) : Prop :=
  isList v = false ∧ Seen C v ∨ isList v = true ∧ scanText C.unicode (strOf C.printable v) ≠ []

def SeenField (v : Value) : Prop :=
  isList v = false ∧ Seen C v ∨ ∃ items, v = .list items ∧ ∃ w ∈ items, SeenItem C w

variable {C} {v w : Value} {items : List Value} {ms : List (Text × Value)}

theorem walked_list : Walked w (.list items) ↔ w = .list items ∨ ∃ v ∈ items, Walked w v := by
  constructor
  · intro h
    cases h with
    | here => exact .inl rfl
    | item hv h => exact .inr ⟨_, hv, h⟩
  · rintro (rfl | ⟨v, hv, h⟩)
    · exact .here
    · exact .item hv h

theorem walked_dict : Walked w (.dict ms) ↔ w = .dict ms ∨ ∃ m ∈ ms,
    isList m.2 = false ∧ Walked w m.2 ∨
      ∃ items, m.2 = .list items ∧ ∃ v ∈ items, isList v = false ∧ Walked w v := by
  constructor
  · intro h
    cases h with
    | here => exact .inl rfl
    | member hm hlist h => exact .inr ⟨_, hm, .inl ⟨hlist, h⟩⟩
    | listed hm hitems hv hlist h => exact .inr ⟨_, hm, .inr ⟨_, hitems, _, hv, hlist, h⟩⟩
  · rintro (rfl | ⟨m, hm, ⟨hlist, h⟩ | ⟨items, hitems, v, hv, hlist, h⟩⟩)
    · exact .here
    · exact .member hm hlist h
    · exact .listed hm hitems hv hlist h

/-- A part of a value that has none but itself. -/
theorem walked_leaf (hlist : isList v = false) (hdict : ∀ ms, v ≠ .dict ms) :
    Walked w v ↔ w = v := by
  constructor
  · intro h
    cases h with
    | here => rfl
    | item => simp [isList] at hlist
    | member | listed => exact absurd rfl (hdict _)
  · rintro rfl
    exact .here

/-- What a part shows, whichever way it is scanned. -/
theorem seen_of_part (hwalked : ∀ u, Walked u w → Walked u v) (h : Seen C w) : Seen C v := by
  obtain ⟨u, hu, hflagged⟩ | ⟨u, ⟨hscalar, hu⟩ | ⟨hlist, ms, hms, hin⟩, hshows⟩ := h
  · exact .inl ⟨u, hwalked u hu, hflagged⟩
  · exact .inr ⟨u, .inl ⟨hscalar, hwalked u hu⟩, hshows⟩
  · exact .inr ⟨u, .inr ⟨hlist, ms, hwalked _ hms, hin⟩, hshows⟩

theorem seen_list : Seen C (.list items) ↔ ∃ v ∈ items, Seen C v := by
  constructor
  · rintro (⟨u, hu, hflagged⟩ | ⟨u, ⟨hscalar, hu⟩ | ⟨hlist, ms, hms, hin⟩, hshows⟩)
    · obtain rfl | ⟨v, hv, hu⟩ := walked_list.mp hu
      · exact hflagged.elim
      · exact ⟨v, hv, .inl ⟨u, hu, hflagged⟩⟩
    · obtain rfl | ⟨v, hv, hu⟩ := walked_list.mp hu
      · cases hscalar
      · exact ⟨v, hv, .inr ⟨u, .inl ⟨hscalar, hu⟩, hshows⟩⟩
    · obtain hdict | ⟨v, hv, hms⟩ := walked_list.mp hms
      · cases hdict
      · exact ⟨v, hv, .inr ⟨u, .inr ⟨hlist, ms, hms, hin⟩, hshows⟩⟩
  · rintro ⟨v, hv, h⟩
    exact seen_of_part (fun u hu => .item hv hu) h

theorem seen_dict : Seen C (.dict ms) ↔ Flagged C (.dict ms) ∨ ∃ m ∈ ms, SeenField C m.2 := by
  -- what is walked behind the object is walked in the value of a member, or in an item of it
  have hfield : ∀ {m : Text × Value} {u : Value},
      (isList m.2 = false ∧ Walked u m.2 ∨
        ∃ items, m.2 = .list items ∧ ∃ v ∈ items, isList v = false ∧ Walked u v) →
      (∀ {x}, Walked u x → Seen C x) → SeenField C m.2 := by
    rintro m u (⟨hlist, hu⟩ | ⟨items, hitems, v, hv, hlist, hu⟩) hseen
    · exact .inl ⟨hlist, hseen hu⟩
    · exact .inr ⟨items, hitems, v, hv, .inl ⟨hlist, hseen hu⟩⟩
  constructor
  · rintro (⟨u, hu, hflagged⟩ | ⟨u, ⟨hscalar, hu⟩ | ⟨hlist, ms', hms, hin⟩, hshows⟩)
    · obtain rfl | ⟨m, hm, hu⟩ := walked_dict.mp hu
      · exact .inl hflagged
      · exact .inr ⟨m, hm, hfield hu fun hx => .inl ⟨u, hx, hflagged⟩⟩
    · obtain rfl | ⟨m, hm, hu⟩ := walked_dict.mp hu
      · cases hscalar
      · exact .inr ⟨m, hm, hfield hu fun hx => .inr ⟨u, .inl ⟨hscalar, hx⟩, hshows⟩⟩
    · obtain hself | ⟨m, hm, hu⟩ := walked_dict.mp hms
      · cases hself
        obtain ⟨m, hm, items, hitems, hu⟩ := hin
        exact .inr ⟨m, hm, .inr ⟨items, hitems, u, hu, .inr ⟨hlist, hshows⟩⟩⟩
      · exact .inr ⟨m, hm, hfield hu fun hx => .inr ⟨u, .inr ⟨hlist, ms', hx, hin⟩, hshows⟩⟩
  · rintro (hflagged | ⟨m, hm, ⟨hlist, h⟩ | ⟨items, hitems, v, hv, ⟨hlist, h⟩ | ⟨hlist, h⟩⟩⟩)
    · exact .inl ⟨_, .here, hflagged⟩
    · exact seen_of_part (fun u hu => .member hm hlist hu) h
    · exact seen_of_part (fun u hu => .listed hm hitems hv hlist hu) h
    · exact .inr ⟨v, .inr ⟨hlist, ms, .here, m, hm, items, hitems, hv⟩, h⟩

/-- A text, a number or a truth value. -/
theorem seen_leaf (hlist : isList v = false) (hdict : ∀ ms, v ≠ .dict ms) (hnone : v ≠ .none) :
    Seen C v ↔ scanText C.unicode (strOf C.printable v) ≠ [] := by
  have hwalked : ∀ {u}, Walked u v ↔ u = v := walked_leaf hlist hdict
  constructor
  · rintro (⟨u, hu, hflagged⟩ | ⟨u, ⟨hscalar, hu⟩ | ⟨-, ms, hms, -⟩, hshows⟩)
    · obtain rfl := hwalked.mp hu
      cases u with
      | str t => exact hflagged
      | none => exact absurd rfl hnone
      | dict ms => exact absurd rfl (hdict ms)
      | _ => exact hflagged.elim
    · rwa [← hwalked.mp hu]
    · exact absurd (hwalked.mp hms).symm (hdict ms)
  · intro h
    cases v with
    | str t => exact .inl ⟨_, .here, h⟩
    | none => exact absurd rfl hnone
    | dict ms => exact absurd rfl (hdict ms)
    | list items => cases hlist
    | _ => exact .inr ⟨_, .inl ⟨rfl, .here⟩, h⟩

theorem not_seen_none : ¬Seen C .none := by
  have hwalked : ∀ {u}, Walked u .none ↔ u = .none := walked_leaf rfl fun _ h => by cases h
  rintro (⟨u, hu, hflagged⟩ | ⟨u, ⟨hscalar, hu⟩ | ⟨-, ms, hms, -⟩, -⟩)
  · rw [hwalked.mp hu] at hflagged
    exact hflagged
  · rw [hwalked.mp hu] at hscalar
    cases hscalar
  · cases hwalked.mp hms

/-! ## What is reported -/

theorem append_ne_nil {α : Type} {l l' : List α} : l ++ l' ≠ [] ↔ l ≠ [] ∨ l' ≠ [] := by
  rw [ne_eq, List.append_eq_nil_iff, not_and_or]

theorem flatMap_ne_nil {α β : Type} {l : List α} {f : α → List β} :
    l.flatMap f ≠ [] ↔ ∃ a ∈ l, f a ≠ [] := by
  simp only [ne_eq, List.flatMap_eq_nil_iff, not_forall, exists_prop]

theorem scanKeys_ne_nil : ms.flatMap (scanKey C) ≠ [] ↔ Flagged C (.dict ms) := by
  rw [flatMap_ne_nil]
  refine exists_congr fun m => and_congr_right fun _ => ?_
  rw [scanKey, append_ne_nil]
  refine or_congr_right ?_
  cases matchKey (normKey C m.1) with
  | none => simp
  | some category => cases h : isGiven m.2 <;> simp

theorem seenItem_leaf (hlist : isList v = false) (hdict : ∀ ms, v ≠ .dict ms) (hnone : v ≠ .none) :
    SeenItem C v ↔ scanText C.unicode (strOf C.printable v) ≠ [] := by
  simp [SeenItem, hlist, seen_leaf hlist hdict hnone]

theorem seenField_of_not_list (hlist : isList v = false) : SeenField C v ↔ Seen C v := by
  have hno : ∀ items, v ≠ .list items := fun items h => by simp [h, isList] at hlist
  simp [SeenField, hlist, hno]

theorem seenField_leaf (hlist : isList v = false) (hdict : ∀ ms, v ≠ .dict ms) (hnone : v ≠ .none) :
    SeenField C v ↔ scanText C.unicode (strOf C.printable v) ≠ [] := by
  rw [seenField_of_not_list hlist, seen_leaf hlist hdict hnone]

mutual

/-- **The walk of an object's values**, by induction on them. -/
theorem scanMembers_ne_nil : ∀ ms : List (Text × Value),
    scanMembers C ms ≠ [] ↔ ∃ m ∈ ms, SeenField C m.2
  | [] => by simp [scanMembers]
  | (k, v) :: ms => by
    rw [scanMembers, append_ne_nil, scanField_ne_nil v, scanMembers_ne_nil ms]
    simp only [List.mem_cons, exists_eq_or_imp]

theorem scanField_ne_nil : ∀ v : Value, scanField C v ≠ [] ↔ SeenField C v
  | .dict ms => by
    rw [seenField_of_not_list rfl, seen_dict, scanField, append_ne_nil, scanKeys_ne_nil,
      scanMembers_ne_nil ms]
  | .list items => by
    have hfield : SeenField C (.list items) ↔ ∃ w ∈ items, SeenItem C w := by
      simp [SeenField, isList]
    rw [hfield, scanField, scanItems_ne_nil items]
  | .none => by
    rw [seenField_of_not_list rfl]
    simp [scanField, not_seen_none]
  | .bool b => (seenField_leaf rfl (fun _ => by simp) (by simp)).symm
  | .int n => (seenField_leaf rfl (fun _ => by simp) (by simp)).symm
  | .float x => (seenField_leaf rfl (fun _ => by simp) (by simp)).symm
  | .str t => (seenField_leaf rfl (fun _ => by simp) (by simp)).symm

theorem scanItems_ne_nil : ∀ items : List Value,
    scanItems C items ≠ [] ↔ ∃ v ∈ items, SeenItem C v
  | [] => by simp [scanItems]
  | v :: items => by
    rw [scanItems, append_ne_nil, scanItem_ne_nil v, scanItems_ne_nil items]
    simp only [List.mem_cons, exists_eq_or_imp]

theorem scanItem_ne_nil : ∀ v : Value, scanItem C v ≠ [] ↔ SeenItem C v
  | .dict ms => by
    have hitem : SeenItem C (.dict ms) ↔ Seen C (.dict ms) := by simp [SeenItem, isList]
    rw [hitem, seen_dict, scanItem, append_ne_nil, scanKeys_ne_nil, scanMembers_ne_nil ms]
  | .list items => by
    have hitem : SeenItem C (.list items) ↔
        scanText C.unicode (strOf C.printable (.list items)) ≠ [] := by simp [SeenItem, isList]
    rw [hitem]
    rfl
  | .none => by simp [SeenItem, isList, scanItem, not_seen_none]
  | .bool b => (seenItem_leaf rfl (fun _ => by simp) (by simp)).symm
  | .int n => (seenItem_leaf rfl (fun _ => by simp) (by simp)).symm
  | .float x => (seenItem_leaf rfl (fun _ => by simp) (by simp)).symm
  | .str t => (seenItem_leaf rfl (fun _ => by simp) (by simp)).symm

end

/-- A record is reported for what is seen of it. -/
theorem scanRecord_ne_nil : scanRecord C ms ≠ [] ↔ Seen C (.dict ms) := by
  rw [seen_dict, scanRecord, append_ne_nil, scanKeys_ne_nil, scanMembers_ne_nil]

mutual

/-- **A value is reported** exactly for what is seen of it. -/
theorem scanJsonValue_ne_nil : ∀ v : Value, scanJsonValue C v ≠ [] ↔ Seen C v
  | .dict ms => scanRecord_ne_nil
  | .list items => by rw [seen_list, scanJsonValue, scanJsonValues_ne_nil items]
  | .none => by simp [scanJsonValue, not_seen_none]
  | .bool b => (seen_leaf rfl (fun _ => by simp) (by simp)).symm
  | .int n => (seen_leaf rfl (fun _ => by simp) (by simp)).symm
  | .float x => (seen_leaf rfl (fun _ => by simp) (by simp)).symm
  | .str t => (seen_leaf rfl (fun _ => by simp) (by simp)).symm

theorem scanJsonValues_ne_nil : ∀ items : List Value,
    scanJsonValues C items ≠ [] ↔ ∃ v ∈ items, Seen C v
  | [] => by simp [scanJsonValues]
  | v :: items => by
    rw [scanJsonValues, append_ne_nil, scanJsonValue_ne_nil v, scanJsonValues_ne_nil items]
    simp only [List.mem_cons, exists_eq_or_imp]

end

end Exposure

/-! ## What is refused -/

section Refusal

variable {G : Gate} {f : CandidateFile} {v : Value}

/-- The value of a `.json` file, or of a line of a `.jsonl` one. -/
def Holds (G : Gate) (f : CandidateFile) (v : Value) : Prop :=
  ∃ t, f.content = .text t ∧
    (G.charset.lower f.suffix = ".json".toList ∧ Json.loads G.depth t = .ok v ∨
      G.charset.lower f.suffix = ".jsonl".toList ∧ ∃ line ∈ splitlines t, strip line ≠ [] ∧
        Json.loads G.depth (strip line) = .ok v)

/-- The file is not let through. -/
def Refused (G : Gate) (f : CandidateFile) : Prop :=
  ∀ verdict, scanFile G f = .ok verdict → verdict.passed = false

theorem exists_not_space {depth : ℕ} {t : Text} (h : Json.loads depth t = .ok v) :
    ∃ c ∈ t, isSpace c = false := by
  obtain ⟨-, r, hscan, -⟩ := Json.loads_ok.mp h
  obtain ⟨c, u, hskip⟩ := List.exists_cons_of_ne_nil
    (Json.ne_nil_of_shrinks (Json.scanOnce_shrinks depth) hscan)
  refine ⟨c, List.dropWhile_subset _ (hskip ▸ List.mem_cons_self), ?_⟩
  by_contra hspace
  obtain ⟨e, he⟩ : ∃ e, Json.loads depth t = .error (.decode e) :=
    Json.loads_of_startsValue hskip (Json.not_startsValue_of_isSpace (by simpa using hspace))
  rw [h] at he
  cases he

theorem mem_of_mem_splitlines {t line : Text} (h : line ∈ splitlines t) {c : Char} (hc : c ∈ line) :
    c ∈ t := by
  fun_induction splitlines t generalizing line with
  | case1 => cases h
  | case2 t ih =>
    obtain rfl | h := List.mem_cons.mp h
    · cases hc
    · exact List.mem_cons_of_mem _ (List.mem_cons_of_mem _ (ih h hc))
  | case3 d t hcr hbreak ih =>
    obtain rfl | h := List.mem_cons.mp h
    · cases hc
    · exact List.mem_cons_of_mem _ (ih h hc)
  | case4 d t hcr hbreak hsplit ih =>
    obtain rfl := List.mem_singleton.mp h
    obtain rfl := List.mem_singleton.mp hc
    exact List.mem_cons_self
  | case5 d t hcr hbreak l ls hsplit ih =>
    obtain rfl | h := List.mem_cons.mp h
    · obtain rfl | hc := List.mem_cons.mp hc
      · exact List.mem_cons_self
      · exact List.mem_cons_of_mem _ (ih (hsplit ▸ List.mem_cons_self) hc)
    · exact List.mem_cons_of_mem _ (ih (hsplit ▸ List.mem_cons_of_mem _ h) hc)

theorem isSpace_of_isAsciiBlank {c : Char} (h : isAsciiBlank c = true) : isSpace c = true := by
  simp only [isAsciiBlank, Bool.or_eq_true, decide_eq_true_eq, Bool.and_eq_true] at h
  simp only [isSpace, inRuns, spaces, List.any_cons, List.any_nil, Bool.or_eq_true,
    Bool.and_eq_true, decide_eq_true_eq]
  rcases h with rfl | h
  · decide
  · omega

/-- A file that holds a value is not blank. -/
theorem Holds.not_blank {t : Text} (h : Holds G f v) (ht : f.content = .text t) :
    t.all isAsciiBlank = false := by
  obtain ⟨t', ht', h⟩ := h
  obtain rfl : t = t' := Content.text.inj (ht.symm.trans ht')
  rw [List.all_eq_false]
  obtain ⟨-, hloads⟩ | ⟨-, line, hline, -, hloads⟩ := h
  · obtain ⟨c, hc, hspace⟩ := exists_not_space hloads
    exact ⟨c, hc, fun hblank => by rw [isSpace_of_isAsciiBlank hblank] at hspace; cases hspace⟩
  · obtain ⟨c, hc, hspace⟩ := exists_not_space hloads
    refine ⟨c, mem_of_mem_splitlines hline (mem_of_mem_strip hc), fun hblank => ?_⟩
    rw [isSpace_of_isAsciiBlank hblank] at hspace
    cases hspace

theorem scanJson_ok {text sample : Text} {malformed : FileReason} {findings : List Finding}
    (hloads : Json.loads G.depth text = .ok v)
    (h : scanJson G text sample malformed = .ok findings) :
    findings = scanJsonValue G.charset v := by
  rw [scanJson, hloads] at h
  exact (Except.ok.inj h).symm

/-- The findings of each line are kept. -/
theorem scanLines_ok {sample line : Text} {lines : List Text} {findings : List Finding}
    (hline : line ∈ lines) (hstrip : strip line ≠ [])
    (hloads : Json.loads G.depth (strip line) = .ok v)
    (h : scanLines G sample lines = .ok findings) : scanJsonValue G.charset v ⊆ findings := by
  induction lines generalizing findings with
  | nil => cases hline
  | cons l lines ih =>
    rw [scanLines] at h
    by_cases hl : strip l = []
    · rw [if_pos hl] at h
      obtain rfl | hline := List.mem_cons.mp hline
      · exact absurd hl hstrip
      · exact ih hline h
    · rw [if_neg hl] at h
      obtain ⟨found, hfound, h⟩ := of_bind_ok h
      obtain ⟨rest, hrest, h⟩ := of_bind_ok h
      cases h
      obtain rfl | hline := List.mem_cons.mp hline
      · rw [scanJson_ok hloads hfound]
        exact List.subset_append_left _ _
      · exact List.Subset.trans (ih hline hrest) (List.subset_append_right _ _)

/-- The findings of a value are among those of its file. -/
theorem Holds.findings {t : Text} (h : Holds G f v) (ht : f.content = .text t)
    {findings : List Finding}
    (hscan : scanContent G (G.charset.lower f.suffix) t = .ok findings) :
    scanJsonValue G.charset v ⊆ findings := by
  obtain ⟨t', ht', h⟩ := h
  obtain rfl : t = t' := Content.text.inj (ht.symm.trans ht')
  obtain ⟨hsuffix, hloads⟩ | ⟨hsuffix, line, hline, hstrip, hloads⟩ := h
  · have hne : ".json".toList ≠ ".jsonl".toList := by decide
    rw [hsuffix, scanContent, if_neg hne, if_pos rfl] at hscan
    rw [scanJson_ok hloads hscan]
    exact List.Subset.refl _
  · rw [hsuffix, scanContent, if_pos rfl] at hscan
    exact scanLines_ok hline hstrip hloads hscan

/-- **A file with a value that is reported** is not let through. -/
theorem Holds.refused (h : Holds G f v) (hne : scanJsonValue G.charset v ≠ []) : Refused G f := by
  intro verdict hverdict
  obtain ⟨t, ht, -⟩ := id h
  unfold scanFile at hverdict
  split at hverdict
  · rw [← Except.ok.inj hverdict]
  · rw [ht] at hverdict
    simp only [h.not_blank ht, Bool.false_eq_true, if_false] at hverdict
    split at hverdict
    · rw [← Except.ok.inj hverdict]
    · obtain ⟨findings, hfindings, rfl⟩ := of_map_ok hverdict
      obtain ⟨x, hx⟩ := List.exists_mem_of_ne_nil _ hne
      exact List.isEmpty_eq_false_iff.mpr (List.ne_nil_of_mem (h.findings ht hfindings hx))

/-- **What a value exposes at any depth is reported**, and the files that hold it are refused,
exactly when some of it is walked or shows in a text. -/
theorem exposed_reported_iff (G : Gate) (v : Value) :
    (Exposed G.charset v → scanJsonValue G.charset v ≠ [] ∧ ∀ f, Holds G f v → Refused G f) ↔
      (Exposed G.charset v → Seen G.charset v) := by
  constructor
  · intro h hexposed
    exact scanJsonValue_ne_nil v |>.mp (h hexposed).1
  · intro h hexposed
    have hne := (scanJsonValue_ne_nil v).mpr (h hexposed)
    exact ⟨hne, fun f hf => hf.refused hne⟩

end Refusal

/-! ## A city in a list of lists -/

section Nested

def asciiCharset : Charset :=
  ⟨asciiUnicode, fun _ => false, fun t => t.map Char.toLower, fun _ _ => rfl⟩

def jsonGate : Gate := ⟨asciiCharset, 9, fun _ _ => none⟩

/-- `[[{"city": "Boston"}]]` under a key. -/
def nestedCity : Value :=
  .dict [("a".toList, .list [.list [.dict [("city".toList, .str "Boston".toList)]]])]

def nestedFile : CandidateFile where
  path := "policies/a.json".toList
  name := "a.json".toList
  suffix := ".json".toList
  content := .text "\x7b\"a\": [[\x7b\"city\": \"Boston\"\x7d]]\x7d".toList

/-- **A city in a list of a list is let through.** -/
theorem nested_city : Exposed asciiCharset nestedCity ∧ scanJsonValue asciiCharset nestedCity = [] ∧
    ∃ verdict, scanFile jsonGate nestedFile = .ok verdict ∧ verdict.passed = true := by
  refine ⟨⟨.dict [("city".toList, .str "Boston".toList)], ?_, ?_⟩, by decide +kernel, ?_⟩
  · exact .member List.mem_cons_self (.item List.mem_cons_self (.item List.mem_cons_self .here))
  · exact ⟨_, List.mem_cons_self, .inr (by decide +kernel)⟩
  · exact exists_ok (by decide +kernel)

end Nested

end Meridian.Rag.Hygiene
