import Meridian.Python.JsonText
import Meridian.Rag.Chunker

/-!
# The gold set

The questions `run` grades, as its loader reads them: one JSON document, and for each row a chain of
checks. A row names the sections it expects as literal ids, or freezes an anchor of a document and a
heading, which the loader resolves to an id and looks up in the corpus.

A `Row` is what a checked dictionary says; `members` is the dictionary itself, after the aliases are
renamed and an anchor is resolved.

* `checkRow_spec`: what a row that passes has.
* `Row.graded_pair`: of the support-test pair a row has both halves or none.
* `anchored_mem`: the section an anchor names is in the corpus.

`lower` is `str.lower`, `scanText` says that `scan_text` reports a finding, and `personName` is
`_looks_like_person_name`.
-/

namespace Meridian.Rag

open Python

inductive OutcomeClass
  | answer
  | managerEscalation
  | clarification
  | noMatch
  deriving DecidableEq

def OutcomeClass.text : OutcomeClass → Text
  | answer => "answer".toList
  | managerEscalation => "manager_escalation".toList
  | clarification => "clarification".toList
  | noMatch => "no_match".toList

/-- `_OUTCOME_CLASSES` -/
def outcomeClasses : List OutcomeClass := [.answer, .managerEscalation, .clarification, .noMatch]

def topicCodes : List Text :=
  ["fee_schedule", "apr_finance_charge", "interest_rate", "eligibility_rules", "credit_decisioning",
    "adverse_action", "debt_to_income", "records_retention"].map String.toList

def unmapped : Text := "unmapped".toList

def allowedGoldKeys : List Text :=
  ["id", "query", "expected", "unanswerable", "note", "topic", "outcome_class", "source_document",
    "source_heading", "support_literal", "expected_conclusion", "displayed_summary_id",
    "prohibited_conclusion"].map String.toList

def goldKeyAliases : List (Text × Text) :=
  [("sourceDocument".toList, "source_document".toList),
    ("sourceHeading".toList, "source_heading".toList),
    ("prohibitedUnsupportedConclusion".toList, "prohibited_conclusion".toList),
    ("acceptableConclusion".toList, "expected_conclusion".toList)]

/-- The keys the name heuristic passes over, `_ANCHOR_KEYS | _UNECHOED_TEXT_KEYS`. -/
def exemptKeys : List Text :=
  ["source_document", "source_heading", "prohibited_conclusion", "expected_conclusion"].map
    String.toList

/-- Why a row is refused. -/
inductive Reason
  | notObject
  | bothSpellings (canonical : Text)
  | unknownFields (extra : List Text)
  | badId
  | noQuery
  | badExpected
  | halfAnchor
  | badAnchor
  | anchorAndExpected
  | unknownDocument
  | unknownSection
  | notBoolean
  /-- a field that is given must be a string with a text -/
  | emptyField (key : Text)
  | halfPair (present missing : Text)
  | badNote
  | unknownTopic
  | unknownClass
  | classDisagrees
  | abstentionExpects
  | unscorableExpects
  | expectsNothing
  deriving DecidableEq

inductive GoldError
  | unreadable (e : Json.Fault)
  | noQueries
  | queriesNotList
  | row (position : ℕ) (reason : Reason)
  | dirty (positions : List ℕ)
  | partlyPaired (paired rows : ℕ)
  | named (positions : List ℕ)
  deriving DecidableEq

/-- A row of the gold set. -/
structure Row where
  members : List (Text × Value)
  id : Text
  query : Text
  expected : List Text
  anchored : Bool
  unanswerable : Bool
  supportLiteral : Option Text
  expectedConclusion : Option Text
  displayedSummaryId : Option Text
  prohibitedConclusion : Option Text
  topic : Option Text
  outcomeClass : Option OutcomeClass

/-- The class a row without one has. -/
def resolvedClass (c : Option OutcomeClass) (unanswerable : Bool) : OutcomeClass :=
  c.getD (if unanswerable then .noMatch else .answer)

/-- What the corpus is to the loader: its chunks, and the document id of each file name. -/
structure Corpus where
  chunks : List Chunk
  docIdBySource : List (Text × Text)

def Corpus.chunkIds (c : Corpus) : List Text := c.chunks.map Chunk.chunkId

/-! ## Fields -/

def require (b : Bool) (r : Reason) : Except Reason Unit := if b then .ok () else .error r

/-- `q.get(key)`, with `None` for a key that is not there. -/
def given (q : List (Text × Value)) (key : String) : Option Value :=
  match q.lookup key.toList with
  | some .none => none
  | v => v

/-- A string with a text. -/
def written : Value → Option Text
  | .str t => if strip t = [] then none else some t
  | _ => none

/-- A field that may be absent, and is a string with a text when it is given. -/
def optionalText (q : List (Text × Value)) (key : String) : Except Reason (Option Text) :=
  match q.lookup key.toList with
  | none => .ok none
  | some v =>
    match written v with
    | some t => .ok (some t)
    | none => .error (.emptyField key.toList)

/-- `q[canonical] = q.pop(alias)`, unless both are there. -/
def rename (q : List (Text × Value)) (a : Text × Text) : Except Reason (List (Text × Value)) :=
  match q.lookup a.1 with
  | none => .ok q
  | some v =>
    if (q.lookup a.2).isSome then .error (.bothSpellings a.2)
    else .ok (q.filter (fun m => m.1 ≠ a.1) ++ [(a.2, v)])

/-- `q[key] = v` -/
def assign (q : List (Text × Value)) (key : String) (v : Value) : List (Text × Value) :=
  if (q.lookup key.toList).isSome then
    q.map fun m => if m.1 = key.toList then (m.1, v) else m
  else q ++ [(key.toList, v)]

/-- `_GOLD_ID.fullmatch` -/
def isGoldId : Text → Bool
  | [] => false
  | c :: t => slugChar c && t.all fun d => slugChar d || d = '-'

def goldId (q : List (Text × Value)) : Except Reason Text :=
  match q.lookup "id".toList with
  | some (.str t) => if isGoldId t then .ok t else .error .badId
  | _ => .error .badId

def goldQuery (q : List (Text × Value)) : Except Reason Text :=
  match (q.lookup "query".toList).bind written with
  | some t => .ok t
  | none => .error .noQuery

/-- `[a-z0-9._-]` -/
def idChar (c : Char) : Bool := slugChar c || c = '.' || c = '_' || c = '-'

/-- `_CHUNK_ID.fullmatch` -/
def isChunkId (t : Text) : Bool :=
  match t.takeWhile (· ≠ '#'), t.dropWhile (· ≠ '#') with
  | c :: front, _ :: back => slugChar c && front.all idChar && back ≠ [] && back.all idChar
  | _, _ => false

def chunkId? : Value → Option Text
  | .str t => if isChunkId t then some t else none
  | _ => none

/-- The literal `expected` ids. -/
def literalIds (q : List (Text × Value)) : Except Reason (List Text) :=
  match q.lookup "expected".toList with
  | none => .ok []
  | some (.list vs) =>
    match vs.mapM chunkId? with
    | some ids => .ok ids
    | none => .error .badExpected
  | some _ => .error .badExpected

section Check

variable (lower : Text → Text) (corpus : Corpus)

/-- The sections a row expects, and whether a frozen anchor names them. -/
def expectedIds (q : List (Text × Value)) : Except Reason (Bool × List Text) := do
  let expected ← literalIds q
  match given q "source_document", given q "source_heading" with
  | none, none => pure (false, expected)
  | some doc, some head =>
    match written doc, written head with
    | some doc, some head => do
      require expected.isEmpty .anchorAndExpected
      match corpus.docIdBySource.lookup doc with
      | none => .error .unknownDocument
      | some docId => do
        let id := docId ++ '#' :: slug lower head
        require (corpus.chunkIds.contains id) .unknownSection
        pure (true, [id])
    | _, _ => .error .badAnchor
  | _, _ => .error .halfAnchor

def boolField (q : List (Text × Value)) (key : String) : Except Reason Bool :=
  match q.lookup key.toList with
  | none => .ok false
  | some (.bool b) => .ok b
  | some _ => .error .notBoolean

/-- The support-test pair, both halves or none. -/
def pairOf (q : List (Text × Value)) : Except Reason (Option Text × Option Text) := do
  let conclusion ← optionalText q "expected_conclusion"
  let summary ← optionalText q "displayed_summary_id"
  match conclusion, summary with
  | some _, none => .error (.halfPair "expected_conclusion".toList "displayed_summary_id".toList)
  | none, some _ => .error (.halfPair "displayed_summary_id".toList "expected_conclusion".toList)
  | _, _ => pure (conclusion, summary)

def isText : Value → Bool
  | .str _ => true
  | _ => false

/-- `q.get("topic", UNMAPPED)`; a topic that is given is one the officers have, or `unmapped`. -/
def topicOf (q : List (Text × Value)) : Except Reason (Option Text) :=
  match q.lookup "topic".toList with
  | none => .ok (some unmapped)
  | some .none => .ok none
  | some (.str t) => if t ∈ topicCodes ∨ t = unmapped then .ok (some t) else .error .unknownTopic
  | some _ => .error .unknownTopic

def classOf (q : List (Text × Value)) : Except Reason (Option OutcomeClass) :=
  match given q "outcome_class" with
  | none => .ok none
  | some (.str t) =>
    match outcomeClasses.find? (fun c => c.text = t) with
    | some c => .ok (some c)
    | none => .error .unknownClass
  | some _ => .error .unknownClass

/-- The class against the target. -/
def checkTarget (c : OutcomeClass) (expected : List Text) (anchored : Bool) :
    Except Reason Unit := do
  require (!(c = .noMatch && !expected.isEmpty)) .abstentionExpects
  require (!(c = .clarification && (!expected.isEmpty || anchored))) .unscorableExpects
  require (c = .noMatch || c = .clarification || !expected.isEmpty) .expectsNothing

/-- The checks of one row. -/
def checkMembers (q : List (Text × Value)) : Except Reason Row := do
  let q ← goldKeyAliases.foldlM rename q
  let extra := (q.map Prod.fst).filter fun k => k ∉ allowedGoldKeys
  require extra.isEmpty (.unknownFields (sortBy (fun t => t) extra))
  let id ← goldId q
  let query ← goldQuery q
  let (anchored, expected) ← expectedIds lower corpus q
  let unanswerable ← boolField q "unanswerable"
  let supportLiteral ← optionalText q "support_literal"
  let (expectedConclusion, displayedSummaryId) ← pairOf q
  let prohibitedConclusion ← optionalText q "prohibited_conclusion"
  require (((q.lookup "note".toList).map isText).getD true) .badNote
  let topic ← topicOf q
  let outcomeClass ← classOf q
  require (outcomeClass.all fun c => decide (c = .noMatch) == unanswerable) .classDisagrees
  checkTarget (resolvedClass outcomeClass unanswerable) expected anchored
  pure {
    members := if anchored then assign q "expected" (.list (expected.map .str)) else q
    id, query, expected, anchored, unanswerable, supportLiteral, expectedConclusion,
    displayedSummaryId, prohibitedConclusion, topic, outcomeClass }

def checkRow : Value → Except Reason Row
  | .dict q => checkMembers lower corpus q
  | _ => .error .notObject

end Check

/-! ## The file -/

mutual

/-- `_gold_strings` -/
def goldStrings : Value → List Text
  | .str t => [t]
  | .list vs => goldStringsList vs
  | .dict ms => goldStringsMembers ms
  | _ => []

def goldStringsList : List Value → List Text
  | [] => []
  | v :: vs => goldStrings v ++ goldStringsList vs

def goldStringsMembers : List (Text × Value) → List Text
  | [] => []
  | (_, v) :: ms => goldStrings v ++ goldStringsMembers ms

end

/-- `_load_gold_queries` -/
def loadGoldQueries (depth : ℕ) (text : Text) : Except GoldError (List Value) :=
  match Json.loads depth text with
  | .error e => .error (.unreadable e)
  | .ok (.dict doc) =>
    match doc.lookup "queries".toList with
    | some (.list queries) => .ok queries
    | some _ => .error .queriesNotList
    | none => .error .noQueries
  | .ok _ => .error .noQueries

/-- The positions of the rows with `p`. -/
def positions (p : Row → Bool) (rows : List Row) : List ℕ :=
  (rows.zipIdx.filter fun x => p x.1).map Prod.snd

section Load

variable (lower : Text → Text) (scanText personName : Text → Bool) (corpus : Corpus)

def checkRows (queries : List Value) : Except GoldError (List Row) :=
  queries.zipIdx.mapM fun x => (checkRow lower corpus x.1).mapError (.row x.2)

/-- The checks across rows. -/
def screen (rows : List Row) : Except GoldError Unit := do
  let dirty := positions (fun q => (goldStringsMembers q.members).any scanText) rows
  if dirty ≠ [] then throw (.dirty dirty)
  let paired := rows.countP fun q => q.expectedConclusion.isSome
  if 0 < paired ∧ paired < rows.length then throw (.partlyPaired paired rows.length)
  let named := positions (fun q =>
    (goldStringsMembers (q.members.filter fun m => m.1 ∉ exemptKeys)).any personName) rows
  if named ≠ [] then throw (.named named)

/-- The gold set of a file. -/
def loadGold (depth : ℕ) (text : Text) : Except GoldError (List Row) := do
  let queries ← loadGoldQueries depth text
  let rows ← checkRows lower corpus queries
  screen scanText personName rows
  pure rows

end Load

/-! ## What a row that passes has -/

section Passed

variable {lower : Text → Text} {scanText personName : Text → Bool} {corpus : Corpus}
  {q : List (Text × Value)} {b : Bool} {ids : List Text} {r : Row}

theorem of_require {c : Bool} {e : Reason} {u : Unit} (h : require c e = .ok u) : c = true := by
  unfold require at h
  by_cases hc : c = true
  · exact hc
  · rw [if_neg hc] at h
    cases h

/-- **The section an anchor names** is in the corpus. -/
theorem expectedIds_mem (h : expectedIds lower corpus q = .ok (true, ids)) :
    ∃ id ∈ corpus.chunkIds, ids = [id] := by
  unfold expectedIds at h
  obtain ⟨expected, -, h⟩ := of_bind_ok h
  split at h
  case h_1 => cases h
  case h_3 => cases h
  case h_2 =>
    split at h
    case h_2 => cases h
    case h_1 =>
      obtain ⟨_, -, h⟩ := of_bind_ok h
      split at h
      case h_1 => cases h
      case h_2 =>
        obtain ⟨_, hmem, h⟩ := of_bind_ok h
        cases h
        exact ⟨_, by simpa using of_require hmem, rfl⟩

theorem pairOf_isSome {p : Option Text × Option Text} (h : pairOf q = .ok p) :
    p.1.isSome = p.2.isSome := by
  unfold pairOf at h
  obtain ⟨conclusion, -, h⟩ := of_bind_ok h
  obtain ⟨summary, -, h⟩ := of_bind_ok h
  cases conclusion <;> cases summary <;> first | cases h; done | (cases h; rfl)

/-- What the rest of a run uses of a row's checks. -/
structure Row.Checked (corpus : Corpus) (r : Row) : Prop where
  graded_pair : r.expectedConclusion.isSome = r.displayedSummaryId.isSome
  anchored_mem : r.anchored = true → ∃ id ∈ corpus.chunkIds, r.expected = [id]

theorem checkMembers_spec (h : checkMembers lower corpus q = .ok r) : r.Checked corpus := by
  unfold checkMembers at h
  obtain ⟨q, -, h⟩ := of_bind_ok h
  obtain ⟨_, -, h⟩ := of_bind_ok h
  obtain ⟨id, -, h⟩ := of_bind_ok h
  obtain ⟨query, -, h⟩ := of_bind_ok h
  obtain ⟨⟨anchored, expected⟩, hexpected, h⟩ := of_bind_ok h
  obtain ⟨unanswerable, -, h⟩ := of_bind_ok h
  obtain ⟨literal, -, h⟩ := of_bind_ok h
  obtain ⟨⟨conclusion, summary⟩, hpair, h⟩ := of_bind_ok h
  obtain ⟨prohibited, -, h⟩ := of_bind_ok h
  obtain ⟨_, -, h⟩ := of_bind_ok h
  obtain ⟨topic, -, h⟩ := of_bind_ok h
  obtain ⟨outcomeClass, -, h⟩ := of_bind_ok h
  obtain ⟨_, -, h⟩ := of_bind_ok h
  obtain ⟨_, -, h⟩ := of_bind_ok h
  cases h
  refine ⟨pairOf_isSome hpair, fun hanchored => ?_⟩
  have hanchored : anchored = true := hanchored
  subst hanchored
  exact expectedIds_mem hexpected

/-- **Every row of an accepted file** passed its checks. -/
theorem loadGold_spec {depth : ℕ} {text : Text} {rows : List Row}
    (h : loadGold lower scanText personName corpus depth text = .ok rows) :
    ∀ r ∈ rows, r.Checked corpus := by
  unfold loadGold at h
  obtain ⟨queries, -, h⟩ := of_bind_ok h
  obtain ⟨rows, hrows, h⟩ := of_bind_ok h
  obtain ⟨_, -, h⟩ := of_bind_ok h
  cases h
  intro r hr
  obtain ⟨⟨v, i⟩, -, hv⟩ := exists_of_mapM_ok hrows hr
  cases v with
  | dict q =>
    have hcheck : checkMembers lower corpus q = .ok r := by
      revert hv
      change (checkMembers lower corpus q).mapError (GoldError.row i) = .ok r → _
      cases checkMembers lower corpus q with
      | error e => exact fun h => nomatch h
      | ok r' => exact fun h => congrArg Except.ok (Except.ok.inj h)
    exact checkMembers_spec hcheck
  | _ => cases hv

end Passed

end Meridian.Rag
