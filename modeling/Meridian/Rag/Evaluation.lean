import Mathlib.Data.List.Infix
import Mathlib.Data.List.Lex
import Meridian.Rag.Calibration
import Meridian.Rag.Gold

/-!
# The evaluation run

`run` of the harness behind its hygiene gate: the corpus and the gold set are admitted, every chunk
and every question is embedded, the threshold is calibrated on the top scores, and each row is
graded and scored.

What a question retrieved is kept under its row's id, so of two rows with one id the later one
counts for both (`retrieved`). A `Judge` has no memory but the ids it has graded; `invoke` is the
call to the model, which fails or replies with the object its text holds, if any.

* `report_counts`: the report's error counts are those of the calibrated threshold.
* `calibrated_minimum`: they are the least any cutoff makes.
* `gradeRows_fresh`, `gradeRows_replies`: when a case comes to the judge a second time.
* `rows_graded_iff`: when every row is graded on its own question and on a section that exists;
  `graded_on_another` is a gold set where one is not.

The embedder, the similarity and the model are parameters of a `Bench`.
-/

namespace Meridian.Rag

open Python

/-! ## The index -/

section Index

variable {V : Type} (cosine : V → V → ℚ)

/-- `InMemoryIndex.search`: the best scores first, ties by the chunk's id. -/
def search (entries : List (Text × V)) (k : ℕ) (query : V) : List (Text × ℚ) :=
  (sortBy (fun p : Text × ℚ => toLex (-p.2, p.1))
    (entries.map fun e => (e.1, cosine query e.2))).take k

end Index

/-! ## A case -/

inductive Verdict
  | supported
  | unsupported
  | avoided
  | asserted
  | humanReview
  | notEvaluated
  deriving DecidableEq

def Verdict.text : Verdict → Text
  | supported => "supported".toList
  | unsupported => "unsupported".toList
  | avoided => "avoided".toList
  | asserted => "asserted".toList
  | humanReview => "human_review".toList
  | notEvaluated => "not_evaluated".toList

structure Verdicts where
  conclusion : Verdict
  summary : Verdict
  prohibited : Verdict
  rationale : Text
  deriving DecidableEq

/-- `K_VALUES` -/
def kValues : List ℕ := [1, 3, 5]

/-- `max(K_VALUES)` -/
def topK : ℕ := 5

def rationaleMaxChars : ℕ := 240

structure QueryEval where
  queryId : Text
  query : Text
  expected : List Text
  unanswerable : Bool
  retrieved : List (Text × ℚ)
  threshold : ℚ
  topic : Option Text
  outcomeClass : OutcomeClass
  verdicts : Verdicts
  hits : List Bool
  reciprocalRank : ℚ
  correct : Bool

/-- `QueryEval.scorable` -/
def QueryEval.scorable (e : QueryEval) : Bool := e.outcomeClass ≠ .clarification

/-- `retrieved[0][1] if retrieved else 0.0` -/
def topScore (ranked : List (Text × ℚ)) : ℚ := (ranked.head?.map Prod.snd).getD 0

/-- `any(cid in expected for cid in ids[:k])` -/
def hitAt (expected : List Text) (ranked : List (Text × ℚ)) (k : ℕ) : Bool :=
  ((ranked.map Prod.fst).take k).any fun cid => cid ∈ expected

/-- `QueryEval.__post_init__` -/
def evalOf (q : Row) (ranked : List (Text × ℚ)) (threshold : ℚ) (v : Verdicts) : QueryEval :=
  let scorable := resolvedClass q.outcomeClass q.unanswerable ≠ .clarification
  let scored := scorable && !q.unanswerable
  let rank := (ranked.map Prod.fst).findIdx? fun cid => cid ∈ q.expected
  { queryId := q.id
    query := q.query
    expected := q.expected
    unanswerable := q.unanswerable
    retrieved := ranked
    threshold
    topic := q.topic
    outcomeClass := resolvedClass q.outcomeClass q.unanswerable
    verdicts := v
    hits := kValues.map fun k => scored && hitAt q.expected ranked k
    reciprocalRank := if scored then (rank.map fun i => 1 / ((i : ℚ) + 1)).getD 0 else 0
    correct := scorable &&
      if q.unanswerable then ranked.isEmpty || topScore ranked < threshold
      else hitAt q.expected ranked topK }

/-! ## Grading -/

structure GradingCase where
  queryId : Text
  question : Text
  passages : List Text
  expectedConclusion : Text
  displayedSummary : Text
  prohibitedConclusion : Text

/-- The call to the model: it fails, or replies with the first object of its text, if there is
one. -/
abbrev Invoke := GradingCase → Option (Option (List (Text × Value)))

inductive RunError
  | duplicateChunks (ids : List Text)
  | noCorpus
  | gold (e : GoldError)
  | noSummary (ids : List Text)
  | alreadyGraded (id : Text)
  | provider
  deriving DecidableEq

/-- `_state_or_human_review` -/
def stateOrHumanReview (v : Option Value) (allowed : List Verdict) : Verdict :=
  match v with
  | some (.str t) => (allowed.find? fun s => s.text = t).getD .humanReview
  | _ => .humanReview

/-- What a reply says. -/
def readReply : Option (List (Text × Value)) → Verdicts
  | none => ⟨.humanReview, .humanReview, .humanReview,
      "evaluator reply could not be parsed".toList⟩
  | some payload =>
    { conclusion := stateOrHumanReview (payload.lookup "conclusion_verdict".toList)
        [.supported, .unsupported, .humanReview]
      summary := stateOrHumanReview (payload.lookup "summary_verdict".toList)
        [.supported, .unsupported, .humanReview]
      prohibited := stateOrHumanReview (payload.lookup "prohibited_verdict".toList)
        [.avoided, .asserted, .humanReview]
      rationale :=
        match payload.lookup "rationale".toList with
        | some (.str t) => oneLine t
        | _ => [] }

/-- `BedrockEvaluator.grade`: a case is spent by the call, whether or not it succeeds. -/
def grade (invoke : Invoke) (graded : List Text) (c : GradingCase) :
    Except RunError (Verdicts × List Text) :=
  if graded.contains c.queryId then .error (.alreadyGraded c.queryId)
  else
    match invoke c with
    | none => .error .provider
    | some reply => .ok (readReply reply, c.queryId :: graded)

/-- The parts of a run that are not of this repository, and the summaries package. -/
structure Bench (V : Type) where
  lower : Text → Text
  scanText : Text → Bool
  personName : Text → Bool
  /-- `embedder.embed`, once fitted to the texts of the corpus -/
  embed : List Text → Text → V
  cosine : V → V → ℚ
  /-- `math.nextafter(x, math.inf)` -/
  next : ℚ → ℚ
  hasJudge : Bool
  displayedSummaries : List (Text × Text)

/-- The row needs the model for some axis. -/
def Row.needsModel (q : Row) (mechanical : Verdict) : Bool :=
  (mechanical = .notEvaluated && q.expectedConclusion.isSome) || q.displayedSummaryId.isSome ||
    q.prohibitedConclusion.isSome

structure Report where
  evals : List QueryEval
  threshold : ℚ
  wrongAbstain : ℕ
  falseConfident : ℕ

section Run

variable {V : Type} (B : Bench V) (corpus : Corpus)

/-- The embedded corpus. -/
def entries : List (Text × V) :=
  corpus.chunks.map fun c => (c.chunkId, B.embed (corpus.chunks.map Chunk.text) c.text)

/-- What a question finds. -/
def found (query : Text) : List (Text × ℚ) :=
  search B.cosine (entries B corpus) 5 (B.embed (corpus.chunks.map Chunk.text) query)

/-- `retrieved[id]`, of a dictionary that keeps the last value of a key. -/
def retrieved (rows : List Row) (id : Text) : List (Text × ℚ) :=
  ((rows.reverse.find? fun q => q.id = id).map fun q => found B corpus q.query).getD []

/-- `tops` -/
def tops (rows : List Row) (unanswerable : Bool) : List ℚ :=
  (rows.filter fun q => q.outcomeClass ≠ some .clarification && q.unanswerable == unanswerable).map
    fun q => topScore (retrieved B corpus rows q.id)

/-- `chunk_text.get(cid, "")` of the passages that count. -/
def passages (ranked : List (Text × ℚ)) : List Text :=
  (ranked.take topK).map fun p =>
    ((corpus.chunks.find? fun c => c.chunkId = p.1).map Chunk.text).getD []

/-- `_support_verdict` -/
def supportVerdict (q : Row) (ranked : List (Text × ℚ)) : Verdict :=
  match q.supportLiteral with
  | none => .notEvaluated
  | some literal =>
    if ranked = [] then .notEvaluated
    else if (passages corpus ranked).any fun p =>
      oneLine (B.lower literal) <:+: oneLine (B.lower p) then .supported
    else .unsupported

/-- The id of a displayed summary as the package has it. -/
def Row.summaryKey (q : Row) : Text := B.lower (strip (q.displayedSummaryId.getD []))

def gradingCase (rows : List Row) (q : Row) : GradingCase where
  queryId := q.id
  question := q.query
  passages := passages corpus (retrieved B corpus rows q.id)
  expectedConclusion := q.expectedConclusion.getD []
  displayedSummary := (B.displayedSummaries.lookup (q.summaryKey B)).getD []
  prohibitedConclusion := q.prohibitedConclusion.getD []

/-- The verdicts of a row, once the model has replied. -/
def merge (q : Row) (mechanical : Verdict) (v : Verdicts) : Verdicts :=
  let rationale := oneLine v.rationale
  let long := decide (rationaleMaxChars < rationale.length)
  let needsConclusion := mechanical = .notEvaluated && q.expectedConclusion.isSome
  let held (has : Bool) (verdict : Verdict) : Verdict :=
    if has then (if long then .humanReview else verdict) else .notEvaluated
  { conclusion :=
      if mechanical ≠ .notEvaluated then mechanical else held needsConclusion v.conclusion
    summary := held q.displayedSummaryId.isSome v.summary
    prohibited := held q.prohibitedConclusion.isSome v.prohibited
    rationale := if long then "evaluator rationale exceeded retention limit".toList else rationale }

/-- `_graded` -/
def gradedRow (invoke : Invoke) (rows : List Row) (graded : List Text) (q : Row) :
    Except RunError (Verdicts × List Text) :=
  let mechanical := supportVerdict B corpus q (retrieved B corpus rows q.id)
  if !B.hasJudge || !q.needsModel mechanical then
    .ok (⟨mechanical, .notEvaluated, .notEvaluated, []⟩, graded)
  else do
    let (v, graded) ← grade invoke graded (gradingCase B corpus rows q)
    pure (merge q mechanical v, graded)

/-- The loop over the rows. -/
def gradeRows (invoke : Invoke) (rows : List Row) (threshold : ℚ) :
    List Text → List Row → Except RunError (List QueryEval)
  | _, [] => .ok []
  | graded, q :: qs => do
    let (v, graded) ← gradedRow B corpus invoke rows graded q
    let evals ← gradeRows invoke rows threshold graded qs
    pure (evalOf q (retrieved B corpus rows q.id) threshold v :: evals)

/-- The top scores the report counts errors over. -/
def evalTops (evals : List QueryEval) (unanswerable : Bool) : List ℚ :=
  (evals.filter fun e => e.scorable && e.unanswerable == unanswerable && !e.retrieved.isEmpty).map
    fun e => topScore e.retrieved

/-- `require_displayed_summaries`, when there is a judge or a package. -/
def requireDisplayedSummaries (rows : List Row) : Except RunError Unit :=
  let unresolved := (rows.filter fun q => q.summaryKey B ≠ [] &&
    (B.displayedSummaries.lookup (q.summaryKey B)).isNone).map Row.id
  if (B.hasJudge || B.displayedSummaries ≠ []) && unresolved ≠ [] then
    .error (.noSummary (sortBy (fun t => t) unresolved))
  else .ok ()

/-- The ids of the chunks are told apart, and there is a chunk. -/
def requireCorpus : Except RunError Unit :=
  let dupes := (corpus.chunkIds.filter fun id => 1 < corpus.chunkIds.count id).dedup
  if dupes ≠ [] then .error (.duplicateChunks (sortBy (fun t => t) dupes))
  else if corpus.chunks = [] then .error .noCorpus
  else .ok ()

/-- What `run` does before anything is embedded: the gold set it accepts. -/
def acceptGold (depth : ℕ) (gold : Text) : Except RunError (List Row) := do
  requireCorpus corpus
  let rows ← (loadGold B.lower B.scanText B.personName corpus depth gold).mapError .gold
  requireDisplayedSummaries B rows
  pure rows

/-- The threshold of a run. -/
def calibrated (rows : List Row) : ℚ :=
  calibrateThreshold B.next (tops B corpus rows false) (tops B corpus rows true)

/-- What is reported of the evaluations. -/
def reportOf (threshold : ℚ) (evals : List QueryEval) : Report :=
  let counts := thresholdErrors (evalTops evals false) (evalTops evals true) threshold
  ⟨evals, threshold, counts.1, counts.2⟩

/-- What `run` does with the rows it accepted. -/
def evaluate (invoke : Invoke) (rows : List Row) : Except RunError Report := do
  let threshold := calibrated B corpus rows
  let evals ← gradeRows B corpus invoke rows threshold [] rows
  pure (reportOf threshold evals)

/-- `run` -/
def run (invoke : Invoke) (depth : ℕ) (gold : Text) : Except RunError Report := do
  let rows ← acceptGold B corpus depth gold
  evaluate B corpus invoke rows

end Run

/-! ## What a run reports -/

section Reports

variable {V : Type} {B : Bench V} {corpus : Corpus} {invoke : Invoke} {rows qs : List Row}
  {graded : List Text} {threshold : ℚ} {evals : List QueryEval} {report : Report} {q : Row}
  {depth : ℕ} {gold : Text}

/-- Whatever of the evaluations the verdicts do not decide is what the rows make of it. -/
theorem map_gradeRows {β : Type} {f : QueryEval → β} {g : Row → β}
    (hf : ∀ q v, f (evalOf q (retrieved B corpus rows q.id) threshold v) = g q)
    (h : gradeRows B corpus invoke rows threshold graded qs = .ok evals) :
    evals.map f = qs.map g := by
  induction qs generalizing graded evals with
  | nil =>
    cases h
    rfl
  | cons q qs ih =>
    rw [gradeRows] at h
    obtain ⟨⟨v, graded'⟩, -, h⟩ := of_bind_ok h
    obtain ⟨rest, hrest, h⟩ := of_bind_ok h
    cases h
    rw [List.map_cons, List.map_cons, hf, ih hrest]

/-- What is kept under a row's id is what the question of a row with that id found. -/
theorem exists_retrieved (B : Bench V) (corpus : Corpus) (hq : q ∈ rows) : ∃ q' ∈ rows, q'.id = q.id ∧
    retrieved B corpus rows q.id = found B corpus q'.query := by
  unfold retrieved
  cases hfind : rows.reverse.find? fun q' => q'.id = q.id with
  | none =>
    have := List.find?_eq_none.mp hfind q (List.mem_reverse.mpr hq)
    simp at this
  | some q' =>
    refine ⟨q', List.mem_reverse.mp (List.mem_of_find?_eq_some hfind), ?_, rfl⟩
    simpa using List.find?_some hfind

theorem found_ne_nil (hne : corpus.chunks ≠ []) (query : Text) : found B corpus query ≠ [] := by
  have hlen : 0 < corpus.chunks.length := List.length_pos_of_ne_nil hne
  refine List.ne_nil_of_length_pos ?_
  unfold found search entries
  rw [List.length_take, (sortBy_perm _ _).length_eq, List.length_map, List.length_map]
  omega

theorem retrieved_ne_nil (hne : corpus.chunks ≠ []) (hq : q ∈ rows) :
    (retrieved B corpus rows q.id).isEmpty = false := by
  obtain ⟨q', -, -, h⟩ := exists_retrieved B corpus hq
  rw [h, List.isEmpty_eq_false_iff]
  exact found_ne_nil hne _

/-- A row is scorable by the class it names, for the class it is given otherwise is scored. -/
theorem scorable_iff (q : Row) :
    decide (resolvedClass q.outcomeClass q.unanswerable ≠ .clarification) =
    decide (q.outcomeClass ≠ some .clarification) := by
  unfold resolvedClass
  cases q.outcomeClass with
  | some c => simp
  | none => cases q.unanswerable <;> rfl

/-- **The report counts over the scores the threshold was calibrated on.** -/
theorem evalTops_eq (hne : corpus.chunks ≠ [])
    (h : gradeRows B corpus invoke rows threshold [] rows = .ok evals) (u : Bool) :
    evalTops evals u = tops B corpus rows u := by
  have hkeys := map_gradeRows (f := fun e => (e.scorable, e.unanswerable, e.retrieved))
    (g := fun q => (decide (q.outcomeClass ≠ some .clarification), q.unanswerable,
      retrieved B corpus rows q.id)) (fun q v => by rw [← scorable_iff]; rfl) h
  have htops : evalTops evals u =
      ((evals.map fun e => (e.scorable, e.unanswerable, e.retrieved)).filter fun x =>
        x.1 && x.2.1 == u && !x.2.2.isEmpty).map fun x => topScore x.2.2 := by
    rw [List.filter_map, List.map_map]
    rfl
  rw [htops, hkeys, List.filter_map, List.map_map, tops]
  congr 1
  refine List.filter_congr fun q hq => ?_
  simp [retrieved_ne_nil hne hq]

/-- **False confidence** is an abstention case that is scored incorrect. -/
theorem falseConfident_eq (hne : corpus.chunks ≠ [])
    (h : gradeRows B corpus invoke rows threshold [] rows = .ok evals) :
    (thresholdErrors (evalTops evals false) (evalTops evals true) threshold).2 =
      evals.countP fun e => e.scorable && e.unanswerable && !e.correct := by
  have hwrong := map_gradeRows (f := fun e => e.scorable && e.unanswerable && !e.correct)
    (g := fun q => (decide (q.outcomeClass ≠ some .clarification) && q.unanswerable &&
      !((retrieved B corpus rows q.id).isEmpty ||
        decide (topScore (retrieved B corpus rows q.id) < threshold)))) (fun q v => by
          rw [← scorable_iff]
          by_cases hu : q.unanswerable = true
          · by_cases hc : resolvedClass q.outcomeClass true = .clarification
            · simp [QueryEval.scorable, evalOf, hu, hc]
            · simp [QueryEval.scorable, evalOf, hu, hc]
          · simp [QueryEval.scorable, evalOf, hu]) h
  have hcount : (evals.countP fun e => e.scorable && e.unanswerable && !e.correct) =
      (evals.map fun e => e.scorable && e.unanswerable && !e.correct).countP id := by
    rw [List.countP_map]
    rfl
  change (evalTops evals true).countP (threshold ≤ ·) = _
  rw [hcount, hwrong, List.countP_map, evalTops_eq hne h, tops, List.countP_map, List.countP_filter]
  refine List.countP_congr fun q hq => ?_
  simp [retrieved_ne_nil hne hq, and_comm]

/-- What an accepted gold set comes with. -/
theorem acceptGold_spec (h : acceptGold B corpus depth gold = .ok rows) :
    corpus.chunks ≠ [] ∧ ∀ q ∈ rows, q.Checked corpus := by
  unfold acceptGold at h
  obtain ⟨_, hcorpus, h⟩ := of_bind_ok h
  obtain ⟨rows', hload, h⟩ := of_bind_ok h
  obtain ⟨_, -, h⟩ := of_bind_ok h
  cases h
  refine ⟨fun hnil => ?_, ?_⟩
  · simp [requireCorpus, hnil, Corpus.chunkIds] at hcorpus
  · cases hgold : loadGold B.lower B.scanText B.personName corpus depth gold with
    | error e =>
      rw [hgold] at hload
      cases hload
    | ok rs =>
      rw [hgold] at hload
      cases hload
      exact loadGold_spec hgold

/-- **The report's counts** are the errors of the calibrated threshold. -/
theorem report_counts (hne : corpus.chunks ≠ [])
    (h : evaluate B corpus invoke rows = .ok report) :
    report.threshold = calibrated B corpus rows ∧
      report.wrongAbstain + report.falseConfident =
        errors (tops B corpus rows false) (tops B corpus rows true) report.threshold ∧
      report.falseConfident =
        report.evals.countP fun e => e.scorable && e.unanswerable && !e.correct := by
  unfold evaluate at h
  obtain ⟨evals, hevals, h⟩ := of_bind_ok h
  cases h
  refine ⟨rfl, ?_, falseConfident_eq hne hevals⟩
  rw [← thresholdErrors_sum, ← evalTops_eq hne hevals, ← evalTops_eq hne hevals]
  rfl

theorem run_accepts (h : run B corpus invoke depth gold = .ok report) :
    ∃ rows, acceptGold B corpus depth gold = .ok rows ∧ evaluate B corpus invoke rows = .ok report :=
  of_bind_ok h

/-- **The calibrated threshold is a global minimum**, in the widest gap that attains it, and the
errors a run reports are that minimum over the top scores of its rows. -/
theorem calibrated_minimum (next : ℚ → ℚ) (hnext : ∀ x, x < next x) :
    (∀ ans una, 2 ≤ (points ans una).length →
      (∀ r : ℝ, errors ans una (calibrateThreshold next ans una) ≤ realErrors ans una r) ∧
        ∀ y ∈ gapsOf (points ans una), ∀ r : ℝ, y.1 < r → r < y.2 →
          realErrors ans una r = errors ans una (calibrateThreshold next ans una) →
            ∃ x ∈ gapsOf (points ans una), calibrateThreshold next ans una = (x.1 + x.2) / 2 ∧
              ∀ z ∈ gapsOf (points ans una), ∀ r' : ℝ, z.1 < r' → r' < z.2 →
                realErrors ans una r' = errors ans una (calibrateThreshold next ans una) →
                  z.2 - z.1 ≤ x.2 - x.1) ∧
      ∀ (V : Type) (B : Bench V) (corpus : Corpus) (invoke : Invoke) (depth : ℕ) (gold : Text)
        (report : Report), B.next = next → run B corpus invoke depth gold = .ok report →
          ∃ rows, acceptGold B corpus depth gold = .ok rows ∧
            (2 ≤ (points (tops B corpus rows false) (tops B corpus rows true)).length →
              report.wrongAbstain + report.falseConfident =
                  errors (tops B corpus rows false) (tops B corpus rows true) report.threshold ∧
                (∀ r : ℝ, report.wrongAbstain + report.falseConfident ≤
                  realErrors (tops B corpus rows false) (tops B corpus rows true) r) ∧
                report.falseConfident =
                  report.evals.countP fun e => e.scorable && e.unanswerable && !e.correct) := by
  refine ⟨fun ans una h => ⟨calibrate_le hnext h, fun y hy r hlo hhi hr => ?_⟩, ?_⟩
  · exact calibrate_widest h hy hlo hhi hr
  · intro V B corpus invoke depth gold report hB hrun
    obtain ⟨rows, haccept, hevaluate⟩ := run_accepts hrun
    obtain ⟨ht, hsum, hfalse⟩ := report_counts (acceptGold_spec haccept).1 hevaluate
    refine ⟨rows, haccept, fun h => ⟨hsum, fun r => ?_, hfalse⟩⟩
    rw [hsum, ht, calibrated, hB]
    exact calibrate_le hnext h r

theorem calibrated_minimum_overlap : errors [1 / 5, 4 / 5] [3 / 10, 3 / 10]
    (calibrateThreshold (· + 1) [1 / 5, 4 / 5] [3 / 10, 3 / 10]) ≤
      realErrors [1 / 5, 4 / 5] [3 / 10, 3 / 10] (1 / 2) :=
  ((calibrated_minimum (· + 1) fun x => lt_add_one x).1 _ _ (by decide +kernel)).1 _

/-! ## Grading a case once -/

/-- The row has a target that only the model grades. -/
def Row.judged (q : Row) : Bool := q.displayedSummaryId.isSome || q.prohibitedConclusion.isSome

/-- The row is scored on the rank of a section it expects. -/
def Row.scored (q : Row) : Bool :=
  resolvedClass q.outcomeClass q.unanswerable ≠ .noMatch &&
    resolvedClass q.outcomeClass q.unanswerable ≠ .clarification

/-- The ids the judge is called on. -/
def spent (B : Bench V) (qs : List Row) : List Text :=
  (qs.filter fun q => B.hasJudge && q.judged).map Row.id

/-- The judge has not graded these rows, and sees each id once. -/
def Fresh (B : Bench V) (graded : List Text) (qs : List Row) : Prop :=
  (∀ id ∈ spent B qs, id ∉ graded) ∧ (spent B qs).Nodup

/-- The support-test pair decides with its second half whether the model is needed. -/
theorem needsModel_eq (hq : q.Checked corpus) (mechanical : Verdict) :
    q.needsModel mechanical = q.judged := by
  unfold Row.needsModel Row.judged
  rw [hq.graded_pair]
  cases q.displayedSummaryId <;> simp

/-- **One row**: it is not for the model, its id is spent, or it spends its id. -/
theorem gradedRow_cases (B : Bench V) (invoke : Invoke) (rows : List Row) (graded : List Text)
    (hq : q.Checked corpus) :
    ((B.hasJudge && q.judged) = false ∧
        ∃ v, gradedRow B corpus invoke rows graded q = .ok (v, graded)) ∨
      ((B.hasJudge && q.judged) = true ∧ q.id ∈ graded ∧
        gradedRow B corpus invoke rows graded q = .error (.alreadyGraded q.id)) ∨
      ((B.hasJudge && q.judged) = true ∧ q.id ∉ graded ∧
        ((invoke (gradingCase B corpus rows q) = none ∧
            gradedRow B corpus invoke rows graded q = .error .provider) ∨
          ∃ v, gradedRow B corpus invoke rows graded q = .ok (v, q.id :: graded))) := by
  unfold gradedRow
  simp only [needsModel_eq hq]
  by_cases hjudged : (B.hasJudge && q.judged) = true
  · have hgo : ¬ (!B.hasJudge || !q.judged) = true := by simpa using hjudged
    rw [if_neg hgo]
    refine .inr ?_
    have hid : (gradingCase B corpus rows q).queryId = q.id := rfl
    unfold grade
    rw [hid]
    by_cases hspent : q.id ∈ graded
    · rw [if_pos (by simpa using hspent)]
      exact .inl ⟨hjudged, hspent, rfl⟩
    · rw [if_neg (by simpa using hspent)]
      refine .inr ⟨hjudged, hspent, ?_⟩
      cases hinvoke : invoke (gradingCase B corpus rows q) with
      | none => exact .inl ⟨rfl, rfl⟩
      | some reply => exact .inr ⟨_, rfl⟩
  · have hstop : (!B.hasJudge || !q.judged) = true := by
      rw [← Bool.not_and, Bool.eq_false_iff.mpr hjudged]
      rfl
    rw [if_pos hstop]
    exact .inl ⟨Bool.eq_false_iff.mpr hjudged, _, rfl⟩

theorem fresh_cons_of_not (h : (B.hasJudge && q.judged) = false) :
    Fresh B graded (q :: qs) ↔ Fresh B graded qs := by
  unfold Fresh spent
  rw [List.filter_cons_of_neg (by simp [h])]

theorem fresh_cons (h : (B.hasJudge && q.judged) = true) (hid : q.id ∉ graded) :
    Fresh B graded (q :: qs) ↔ Fresh B (q.id :: graded) qs := by
  unfold Fresh spent
  rw [List.filter_cons_of_pos (by simpa using h), List.map_cons, List.nodup_cons]
  simp only [List.mem_cons, forall_eq_or_imp, not_or]
  constructor
  · rintro ⟨⟨-, hold⟩, hnew, hnodup⟩
    exact ⟨fun id hmem => ⟨fun heq => hnew (heq ▸ hmem), hold id hmem⟩, hnodup⟩
  · rintro ⟨hall, hnodup⟩
    exact ⟨⟨hid, fun id hmem => (hall id hmem).2⟩, fun hmem => (hall _ hmem).1 rfl, hnodup⟩

theorem not_fresh (h : (B.hasJudge && q.judged) = true) (hid : q.id ∈ graded) :
    ¬ Fresh B graded (q :: qs) := by
  intro hfresh
  refine hfresh.1 q.id ?_ hid
  rw [spent, List.filter_cons_of_pos (by simpa using h)]
  exact List.mem_cons_self

theorem gradeRows_cons {v : Verdicts} {graded' : List Text}
    (h : gradedRow B corpus invoke rows graded q = .ok (v, graded')) :
    gradeRows B corpus invoke rows threshold graded (q :: qs) =
      (gradeRows B corpus invoke rows threshold graded' qs).map fun evals =>
        evalOf q (retrieved B corpus rows q.id) threshold v :: evals := by
  rw [gradeRows, h, bind_of_ok rfl]
  change (gradeRows B corpus invoke rows threshold graded' qs >>= fun evals =>
    pure (evalOf q (retrieved B corpus rows q.id) threshold v :: evals)) = _
  cases gradeRows B corpus invoke rows threshold graded' qs <;> rfl

/-- **No case is graded twice** when the judge sees each id once. -/
theorem gradeRows_fresh (hqs : ∀ q ∈ qs, q.Checked corpus) (hfresh : Fresh B graded qs)
    (id : Text) :
    gradeRows B corpus invoke rows threshold graded qs ≠ .error (.alreadyGraded id) := by
  induction qs generalizing graded with
  | nil => exact fun h => nomatch h
  | cons q qs ih =>
    obtain ⟨hq, hqs⟩ := List.forall_mem_cons.mp hqs
    have hrest : ∀ graded' v, Fresh B graded' qs →
        gradedRow B corpus invoke rows graded q = .ok (v, graded') →
        gradeRows B corpus invoke rows threshold graded (q :: qs) ≠ .error (.alreadyGraded id) := by
      intro graded' v hfresh' hrow h
      rw [gradeRows_cons hrow] at h
      cases hgo : gradeRows B corpus invoke rows threshold graded' qs with
      | error e =>
        rw [hgo] at h
        exact ih hqs hfresh' (hgo.trans (congrArg Except.error (Except.error.inj h)))
      | ok evals =>
        rw [hgo] at h
        cases h
    rcases gradedRow_cases B invoke rows graded hq with
      ⟨hnot, v, hrow⟩ | ⟨hjudged, hid, -⟩ | ⟨hjudged, hid, ⟨-, hrow⟩ | ⟨v, hrow⟩⟩
    · exact hrest _ v ((fresh_cons_of_not hnot).mp hfresh) hrow
    · exact absurd hfresh (not_fresh hjudged hid)
    · rw [gradeRows, hrow]
      exact fun h => nomatch h
    · exact hrest _ v ((fresh_cons hjudged hid).mp hfresh) hrow

/-- **A judge that always replies** grades every row, or comes to a case a second time. -/
theorem gradeRows_replies (hinvoke : ∀ c, (invoke c).isSome) (hqs : ∀ q ∈ qs, q.Checked corpus) :
    (Fresh B graded qs ∧ ∃ evals, gradeRows B corpus invoke rows threshold graded qs = .ok evals) ∨
      (¬ Fresh B graded qs ∧
        ∃ id, gradeRows B corpus invoke rows threshold graded qs = .error (.alreadyGraded id)) := by
  induction qs generalizing graded with
  | nil => exact .inl ⟨⟨fun _ h => (nomatch h), List.nodup_nil⟩, [], rfl⟩
  | cons q qs ih =>
    obtain ⟨hq, hqs⟩ := List.forall_mem_cons.mp hqs
    have hrest : ∀ graded' v, (Fresh B graded (q :: qs) ↔ Fresh B graded' qs) →
        gradedRow B corpus invoke rows graded q = .ok (v, graded') →
        (Fresh B graded (q :: qs) ∧
            ∃ evals, gradeRows B corpus invoke rows threshold graded (q :: qs) = .ok evals) ∨
          (¬ Fresh B graded (q :: qs) ∧ ∃ id,
            gradeRows B corpus invoke rows threshold graded (q :: qs) = .error (.alreadyGraded id)) := by
      intro graded' v hiff hrow
      rw [gradeRows_cons hrow, hiff]
      rcases @ih graded' hqs with ⟨hfresh, evals, h⟩ | ⟨hnot, id, h⟩
      · exact .inl ⟨hfresh, _, map_of_ok h⟩
      · exact .inr ⟨hnot, id, by rw [h]; rfl⟩
    rcases gradedRow_cases B invoke rows graded hq with
      ⟨hnot, v, hrow⟩ | ⟨hjudged, hid, hrow⟩ | ⟨hjudged, hid, ⟨hnone, -⟩ | ⟨v, hrow⟩⟩
    · exact hrest _ v (fresh_cons_of_not hnot) hrow
    · exact .inr ⟨not_fresh hjudged hid, q.id, by rw [gradeRows, hrow]; rfl⟩
    · have := hinvoke (gradingCase B corpus rows q)
      rw [hnone] at this
      cases this
    · exact hrest _ v (fresh_cons hjudged hid) hrow

/-- A run ends as the grading of its rows does. -/
theorem run_eq (h : acceptGold B corpus depth gold = .ok rows) (invoke : Invoke) :
    run B corpus invoke depth gold =
      (gradeRows B corpus invoke rows (calibrated B corpus rows) [] rows).map
        (reportOf (calibrated B corpus rows)) := by
  rw [run, bind_of_ok h, evaluate]
  cases gradeRows B corpus invoke rows (calibrated B corpus rows) [] rows <;> rfl

theorem fresh_nil : Fresh B [] rows ↔ (spent B rows).Nodup :=
  and_iff_right fun _ _ h => nomatch h

/-- What a row's evaluation holds is what its own question found, when rows with one id find the
same. -/
theorem retrieved_eq (hsame : ∀ q ∈ rows, ∀ q' ∈ rows, q.id = q'.id →
      found B corpus q.query = found B corpus q'.query) (hq : q ∈ rows) :
    retrieved B corpus rows q.id = found B corpus q.query := by
  obtain ⟨q', hq', hid, h⟩ := exists_retrieved B corpus hq
  rw [h, hsame q' hq' q hq hid]

/-- **Every row is graded on its own question and on a section that exists**, and no case twice,
exactly when rows with one id find the same, a row with literal ids has one of the corpus, and the
judge sees each id once. -/
theorem rows_graded_iff (h : acceptGold B corpus depth gold = .ok rows) :
    ((∀ invoke, (∀ id, run B corpus invoke depth gold ≠ .error (.alreadyGraded id)) ∧
          ∀ report, run B corpus invoke depth gold = .ok report →
            report.evals.map (fun e => (e.queryId, e.query, e.retrieved)) =
              rows.map fun q => (q.id, q.query, found B corpus q.query)) ∧
        ∀ q ∈ rows, q.scored = true → ∃ id ∈ q.expected, id ∈ corpus.chunkIds) ↔
      (∀ q ∈ rows, ∀ q' ∈ rows, q.id = q'.id → found B corpus q.query = found B corpus q'.query) ∧
        (∀ q ∈ rows, q.scored = true → q.anchored = false →
          ∃ id ∈ q.expected, id ∈ corpus.chunkIds) ∧
        ((rows.filter fun q => B.hasJudge && q.judged).map Row.id).Nodup := by
  obtain ⟨-, hchecked⟩ := acceptGold_spec h
  have hown : ∀ {invoke evals},
      gradeRows B corpus invoke rows (calibrated B corpus rows) [] rows = .ok evals →
      evals.map (fun e => (e.queryId, e.query, e.retrieved)) =
        rows.map fun q => (q.id, q.query, retrieved B corpus rows q.id) :=
    fun hevals => map_gradeRows (fun _ _ => rfl) hevals
  constructor
  · rintro ⟨hgraded, htarget⟩
    -- a judge that always replies
    obtain ⟨honce, hreport⟩ := hgraded fun _ => some none
    rw [run_eq h] at honce hreport
    have hreplies : (Fresh B [] rows ∧ ∃ evals, gradeRows B corpus (fun _ => some none) rows
        (calibrated B corpus rows) [] rows = .ok evals) ∨ _ :=
      gradeRows_replies (fun _ => rfl) hchecked
    rcases hreplies with ⟨hfresh, evals, hevals⟩ | ⟨-, id, htwice⟩
    · have hmap := hreport _ (map_of_ok hevals)
      have hsame : ∀ q ∈ rows, retrieved B corpus rows q.id = found B corpus q.query := by
        have heq := (hown hevals).symm.trans hmap
        intro q hq
        exact congrArg (fun x => x.2.2) (List.map_inj_left.mp heq q hq)
      refine ⟨fun q hq q' hq' hid => ?_, fun q hq hs _ => htarget q hq hs, fresh_nil.mp hfresh⟩
      rw [← hsame q hq, ← hsame q' hq', hid]
    · exact absurd (by rw [htwice]; rfl) (honce id)
  · rintro ⟨hsame, htarget, honce⟩
    refine ⟨fun invoke => ⟨fun id htwice => ?_, fun report hreport => ?_⟩, fun q hq hs => ?_⟩
    · rw [run_eq h] at htwice
      have hno : gradeRows B corpus invoke rows (calibrated B corpus rows) [] rows ≠
          .error (.alreadyGraded id) := gradeRows_fresh hchecked (fresh_nil.mpr honce) id
      cases hgo : gradeRows B corpus invoke rows (calibrated B corpus rows) [] rows with
      | error e =>
        rw [hgo] at htwice
        exact hno (hgo.trans (congrArg Except.error (Except.error.inj htwice)))
      | ok evals =>
        rw [hgo] at htwice
        cases htwice
    · rw [run_eq h] at hreport
      obtain ⟨evals, hevals, rfl⟩ := of_map_ok hreport
      refine (hown hevals).trans (List.map_congr_left fun q hq => ?_)
      rw [retrieved_eq hsame hq]
    · by_cases hanchored : q.anchored = true
      · obtain ⟨id, hid, hexpected⟩ := (hchecked q hq).anchored_mem hanchored
        exact ⟨id, by rw [hexpected]; exact List.mem_singleton_self id, hid⟩
      · exact htarget q hq hs (Bool.eq_false_iff.mpr hanchored)

end Reports

/-! ## Two rows with one id -/

/-- Texts are alike when they start alike. -/
def firstLetters : Bench Text where
  lower t := t.map Char.toLower
  scanText _ := false
  personName _ := false
  embed _ t := t
  cosine t u := if t.head? = u.head? then 1 else 0
  next x := x + 1
  hasJudge := false
  displayedSummaries := []

def twoSections : Corpus where
  chunks := [⟨"d#a".toList, "d".toList, "A".toList, "x".toList⟩,
    ⟨"d#b".toList, "d".toList, "B".toList, "y".toList⟩]
  docIdBySource := [("d.md".toList, "d".toList)]

/-- A gold set of two rows, the first a question for `d#a` and the second one for `d#b`. -/
def twoRows (id id' : String) : Text :=
  ("\x7b\"queries\": [\x7b\"id\": \"" ++ id ++ "\", \"query\": \"x\", \"expected\": [\"d#a\"]\x7d, " ++
    "\x7b\"id\": \"" ++ id' ++ "\", \"query\": \"y\", \"source_document\": \"d.md\", " ++
    "\"source_heading\": \"B\"\x7d]\x7d").toList

theorem rows_graded_apart : ∃ rows, acceptGold firstLetters twoSections 9 (twoRows "q1" "q2") = .ok rows ∧
    ∀ invoke, ∀ report,
      run firstLetters twoSections invoke 9 (twoRows "q1" "q2") = .ok report →
        report.evals.map (fun e => (e.queryId, e.query, e.retrieved)) =
          rows.map fun q => (q.id, q.query, found firstLetters twoSections q.query) := by
  have hok : returns (acceptGold firstLetters twoSections 9 (twoRows "q1" "q2")) (fun rows : List Row =>
      (decide (∀ q ∈ rows, ∀ q' ∈ rows, q.id = q'.id →
          found firstLetters twoSections q.query = found firstLetters twoSections q'.query) &&
        decide (∀ q ∈ rows, q.scored = true → q.anchored = false →
          ∃ id ∈ q.expected, id ∈ twoSections.chunkIds) &&
        decide ((rows.filter fun q : Row => firstLetters.hasJudge && q.judged).map Row.id).Nodup) =
          true) = true := by
    decide +kernel
  obtain ⟨rows, hrows, hcond⟩ := exists_ok hok
  simp only [Bool.and_eq_true, decide_eq_true_eq, and_assoc] at hcond
  exact ⟨rows, hrows, fun invoke => (((rows_graded_iff hrows).mpr hcond).1 invoke).2⟩

/-- Of two rows with one id, the first is scored on what the question of the second found. -/
theorem graded_on_another : ¬ ∀ (rows : List Row) (report : Report),
    acceptGold firstLetters twoSections 9 (twoRows "q" "q") = .ok rows →
      run firstLetters twoSections (fun _ => none) 9 (twoRows "q" "q") = .ok report →
        report.evals.map QueryEval.retrieved =
          rows.map fun q => found firstLetters twoSections q.query := by
  intro hall
  obtain ⟨rows, hrows, hqueries⟩ := exists_ok (x := acceptGold firstLetters twoSections 9 (twoRows "q" "q"))
    (p := fun rows : List Row => (rows.map fun q => found firstLetters twoSections q.query).length = 2 ∧
      (rows.map fun q => found firstLetters twoSections q.query).Nodup) (by decide +kernel)
  obtain ⟨report, hreport, hsame⟩ := exists_ok
    (x := run firstLetters twoSections (fun _ => none) 9 (twoRows "q" "q"))
    (p := fun report => ¬ (report.evals.map QueryEval.retrieved).Nodup) (by decide +kernel)
  exact hsame (hall rows report hrows hreport ▸ hqueries.2)

end Meridian.Rag
