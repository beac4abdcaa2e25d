import Meridian.Coordinator.Gate
import Meridian.Disclosure.Shape
import Meridian.Origination.Discipline

/-!
# Pipeline runs and the record

A run of the coordinator whose last node writes through `create_disclosure`. Everything before
`_persist` is asked of an `Outside`, so one run's document is what its own model wrote; the request
and the read-back are statements on the tables, interleaved with those of any other calls.

`create_disclosure` replays an offer's disclosure and keeps the document it has, while the run answers
with its own copy. So the two agree in every run of the services in which what `create_disclosure`
finds is this run's document, or a row that still takes it (`recorded`), and not in general
(`reworded_document`).

* `pipeline_is_run`: whatever the tables answer, the run is one of `Stages.lean`.
* `createDisclosure_from`: where the document of the row that is returned comes from.
-/

namespace Meridian.Coordinator

open Python Disclosure Workflow Interleave Origination

/-! ## The request and the replies -/

/-- What the services take and give besides the stages. -/
structure Services where
  deployment : Deployment
  /-- `offer_id`, `decision_event_id` and the terms of `DisclosureIn`, none where they are refused -/
  numbers : PersistRequest → Option (Int × Int × Terms)
  /-- `delivered_at.isoformat()` -/
  isoFormat : Int → Text

/-- `DisclosureIn` -/
def Services.disclosureIn (S : Services) (q : PersistRequest) : Option DisclosureIn := do
  let (offerId, decisionEventId, terms) ← S.numbers q
  match q.document with
  | .none => pure ⟨offerId, decisionEventId, terms, none⟩
  | v => do
    let document ← disclosureDocument v
    pure ⟨offerId, decisionEventId, terms, some document⟩

/-- `_disclosure_out` -/
def Services.disclosureOut (S : Services) (d : DisclosureRow) : Value :=
  .dict [("disclosure_id".toList, .int d.id), ("offer_id".toList, .int d.offerId),
    ("decision_event_id".toList, .int d.decisionEventId), ("status".toList, .str d.status.text),
    ("apr".toList, .str (threePlaces d.record.apr).toText),
    ("finance_charge_cents".toList, .int d.record.financeChargeCents),
    ("amount_financed_cents".toList, .int d.record.amountFinancedCents),
    ("monthly_payment_cents".toList, .int d.record.monthlyPaymentCents),
    ("total_of_payments_cents".toList, .int d.record.totalOfPaymentsCents),
    ("fee_schedule_version".toList, .str d.record.feeScheduleVersion),
    ("apr_method_version".toList, .str d.record.aprMethodVersion),
    ("content_fingerprint".toList, .str d.record.contentFingerprint),
    ("delivered_at".toList,
      match d.deliveredAt with
      | some t => .str (S.isoFormat t)
      | none => .none)]

/-- The name of an edge. -/
def edgeText : Edge → Text
  | .disclosureId => "disclosure_id".toList
  | .offerId => "offer_id".toList
  | .decisionEventId => "decision_event_id".toList
  | .applicationId => "application_id".toList
  | .applicantId => "applicant_id".toList
  | .decisionEdgeSplit => "decision_event_id_mismatch".toList
  | .decisionNotApproved => "decision_not_approved".toList

/-- The part of `_provenance_out` that `_persist` reads. -/
def provenanceOut (p : Provenance) : Value :=
  .dict [("chain_complete".toList, .bool (incompleteEdges p).isEmpty),
    ("missing_edges".toList, .list ((incompleteEdges p).map fun e => .str (edgeText e)))]

/-- `GET /disclosures/{disclosure_id}/provenance` -/
def provenanceReply : Option Provenance → Except Text Value
  | some p => .ok (provenanceOut p)
  | none => .error "404".toList

/-! ## Runs -/

/-- One run: what it is given outside the tables, and the replies the network loses. -/
structure Pipeline where
  applicationId : Value
  outside : Outside
  persistLost : Option Text := none
  readLost : Option Text := none

/-- The same outside with these two replies. -/
def Outside.answering (w : Outside) (record chain : Except Text Value) : Outside :=
  { w with persistDisclosure := fun _ => record, readProvenance := fun _ => chain }

/-- A reply, unless it is lost. -/
def unlessLost {α : Type} (lost : Option Text) (reply : Except Text α) : Except Text α :=
  match lost with
  | some cause => .error cause
  | none => reply

/-- `POST /disclosures` -/
def postDisclosure (S : Services) (q : PersistRequest) : P (Except Text DisclosureRow) :=
  match S.disclosureIn q with
  | none => pure (.error "422".toList)
  | some b => do
    match ← createDisclosure S.deployment b with
    | .ok row => pure (.ok row)
    | .error _ => pure (.error "refused".toList)

/-- The request of `_persist`. -/
def persistRequest (s : State) : Except Raised PersistRequest := do
  let offerId ← need s.offerId
  let decisionEventId ← need s.decisionEventId
  let principal ← need s.principal
  let annualRate ← need s.annualRate
  let termMonths ← need s.termMonths
  pure ⟨offerId, decisionEventId, principal, annualRate, termMonths, s.document.getD .none⟩

/-- `_persist` over the tables. -/
def persistRecorded (S : Services) (p : Pipeline) (s : State) : P (Except Raised State) :=
  match persistRequest s with
  | .error e => pure (.error e)
  | .ok q => do
    let reply ← postDisclosure S q
    match unlessLost p.persistLost reply with
    | .error cause => pure (persist (p.outside.answering (.error cause) (.error cause)) s)
    | .ok row => do
      let chain ← sql (.selectProvenance row.id)
      pure (persist (p.outside.answering (.ok (S.disclosureOut row))
        (unlessLost p.readLost (provenanceReply chain))) s)

/-- `run` over the tables: the stages up to `_persist`, and `_persist` where it is reached. -/
def Pipeline.prog (S : Services) (p : Pipeline) : P (Except Raised Answer) :=
  match (invoke p.outside p.applicationId).visits with
  | (.persist, s) :: _ => do
    let u ← persistRecorded S p s
    pure (u.map fun u => answer (s.merge u))
  | _ => pure (run p.outside p.applicationId)

/-! ## A run is one of the stages -/

section Stages

variable {w : Outside} {applicationId : Value} {s : State} {past : List (Node × State)}
  {record chain : Except Text Value}

theorem invoke_answering (w : Outside) (applicationId : Value) (record chain : Except Text Value) :
    (∃ past s, (graph w).EndsAt .persist (invoke w applicationId) past s ∧
      (graph (w.answering record chain)).EndsAt .persist
        (invoke (w.answering record chain) applicationId) past s) ∨
    (invoke (w.answering record chain) applicationId = invoke w applicationId ∧
      ∀ s past, (invoke w applicationId).visits ≠ (.persist, s) :: past) := by
  have hvisit : ∀ past n s, n ≠ .persist →
      (graph (w.answering record chain)).visit past n s = (graph w).visit past n s := by
    intro past n s hn
    cases n with
    | persist => exact absurd rfl hn
    | _ => rfl
  rcases Graph.run_agree (graph w) (graph (w.answering record chain)) rfl (fun _ => rfl) hvisit
    recursionLimit with h | ⟨hsame, hlast⟩
  · exact .inl h
  · exact .inr ⟨hsame, fun s past h => List.cons_ne_nil _ _ (hlast s past h)⟩

/-- A run that reaches `_persist` ends as `_persist` does. -/
theorem run_of_persist (h : (invoke w applicationId).visits = (.persist, s) :: past) :
    run (w.answering record chain) applicationId =
      (persist (w.answering record chain) s).map fun u => answer (s.merge u) := by
  rcases invoke_answering w applicationId record chain with ⟨past', s', h₁, h₂⟩ | ⟨-, hnot⟩
  · rw [h₁] at h
    cases h
    have hvisit : (graph (w.answering record chain)).visit past .persist s =
        (persist (w.answering record chain) s).map s.merge := rfl
    rw [run, h₂, hvisit]
    cases persist (w.answering record chain) s <;> rfl
  · exact absurd h (hnot s past)

/-- A run that does not reach it asks nothing of the tables. -/
theorem run_of_not_persist (h : ∀ s past, (invoke w applicationId).visits ≠ (.persist, s) :: past) :
    run (w.answering record chain) applicationId = run w applicationId := by
  rcases invoke_answering w applicationId record chain with ⟨past, s, h₁, -⟩ | ⟨hsame, -⟩
  · exact absurd (by rw [h₁]) (h s past)
  · rw [run, run, hsame]

end Stages

section Refined

variable {S : Services} {p : Pipeline} {s : State} {e : Raised}

/-- What `_persist` needs of the state is what its request needs. -/
theorem persist_of_request_error (w : Outside) (h : persistRequest s = .error e) :
    persist w s = .error e := by
  revert h
  unfold persistRequest persist
  cases s.offerId with
  | none => exact fun h => (Except.error.inj h) ▸ rfl
  | some offerId =>
    cases s.decisionEventId with
    | none => exact fun h => (Except.error.inj h) ▸ rfl
    | some eventId =>
      cases s.principal with
      | none => exact fun h => (Except.error.inj h) ▸ rfl
      | some principal =>
        cases s.annualRate with
        | none => exact fun h => (Except.error.inj h) ▸ rfl
        | some annualRate =>
          cases s.termMonths with
          | none => exact fun h => (Except.error.inj h) ▸ rfl
          | some termMonths => exact fun h => nomatch h

/-- `_persist` over the tables is `_persist` with the replies the tables give. -/
theorem persistRecorded_obeys (S : Services) (p : Pipeline) (s : State) (l : Log origination) :
    (persistRecorded S p s).Obeys (fun _ _ => True)
      (fun _ u => ∃ record chain, u = persist (p.outside.answering record chain) s) l := by
  unfold persistRecorded
  cases hq : persistRequest s with
  | error e => exact ⟨.error [], .error [], (persist_of_request_error _ hq).symm⟩
  | ok q =>
    refine (obeys_bind (postDisclosure S q) _).mpr ?_
    refine (obeys_true _).mono (fun _ _ _ => trivial) fun l reply _ => ?_
    cases unlessLost p.persistLost reply with
    | error cause => exact ⟨_, _, rfl⟩
    | ok row => exact ⟨trivial, fun chain => ⟨_, _, rfl⟩⟩

/-- **A run over the tables is a run**, with the replies the tables give. -/
theorem pipeline_is_run (S : Services) (p : Pipeline) :
    (p.prog S).Obeys (fun _ _ => True) (fun _ a => ∃ record chain,
      a = run (p.outside.answering record chain) p.applicationId) [] := by
  unfold Pipeline.prog
  split
  · rename_i s past hvisits
    refine (obeys_bind (persistRecorded S p s) _).mpr ?_
    refine (persistRecorded_obeys S p s []).mono (fun _ _ _ => trivial) fun l u h => ?_
    obtain ⟨record, chain, rfl⟩ := h
    exact ⟨record, chain, (run_of_persist hvisits).symm⟩
  · rename_i hnot
    exact ⟨.error [], .error [], (run_of_not_persist hnot).symm⟩

end Refined

/-! ## Where a document comes from -/

/-- The row has the id, or was read under it. -/
def IsRow (l : Log origination) (id : Int) (row : DisclosureRow) : Prop :=
  row.id = id ∨ ⟨.selectDisclosure id, some row⟩ ∈ l

/-- Where the row that `create_disclosure` returns, when it was given `doc`, has its document from. -/
inductive From (doc : Document) (l : Log origination) (row : DisclosureRow) : Prop
  | inserted (offerId eventId : Int) (rec : Record) (closeEdge : Bool) (d : DisclosureRow)
      (h : ⟨.insertDisclosure offerId eventId rec (some doc) closeEdge, .ok d⟩ ∈ l)
      (hrow : IsRow l d.id row)
  | repaired (offerId : Int) (reset : Bool) (edge : Option (Int × Int)) (d : DisclosureRow)
      (l' : Log origination) (h : ⟨.repair d.id (some (doc, reset)) edge, .ok ()⟩ :: l' <:+ l)
      (hread : ⟨.selectDisclosureOf offerId, some d⟩ ∈ l') (hrow : IsRow l d.id row)
  | found (offerId : Int) (d : DisclosureRow) (l' : Log origination)
      (h : ⟨.selectDisclosureOf offerId, some d⟩ :: l' <:+ l)
      (hkept : d.documentBody ≠ none ∨ d.status = .delivered ∨
        ∃ x, ⟨.selectDisclosureOf offerId, x⟩ ∈ l')
      (hrow : IsRow l d.id row)

section From

variable {D : Deployment} {b : DisclosureIn} {doc : Document} {l : Log origination}
  {offer : OfferRow} {d : DisclosureRow}

/-- A program whose rows have their document from somewhere. -/
abbrev Sourced (doc : Document) (l : Log origination) (p : P (Except Refused DisclosureRow)) : Prop :=
  p.Obeys (fun _ _ => True) (fun l' a => ∀ row, a = .ok row → From doc l' row) l

theorem sourced_error (e : Refused) : Sourced doc l (.ret (.error e)) := by
  rintro row h
  cases h

theorem sourced_ok {row : DisclosureRow} (h : From doc l row) : Sourced doc l (.ret (.ok row)) := by
  rintro row' heq
  cases heq
  exact h

theorem repairMissingDocument_cases {row : DisclosureRow} {repaired : Option (Document × Bool)}
    (h : repairMissingDocument row (some doc) = .ok repaired) :
    (repaired = none ∧ (row.documentBody ≠ none ∨ row.status = .delivered)) ∨
    ∃ reset, repaired = some (doc, reset) := by
  unfold repairMissingDocument at h
  cases hbody : row.documentBody with
  | some body =>
    rw [hbody] at h
    cases h
    exact .inl ⟨rfl, .inl (by simp)⟩
  | none =>
    rw [hbody] at h
    dsimp only at h
    split at h
    · rename_i hdelivered
      cases h
      exact .inl ⟨rfl, .inr hdelivered⟩
    · split at h
      · cases h
      · cases h
        exact .inr ⟨_, rfl⟩

/-- **A replay** returns the row it found, with the document it has or takes. -/
theorem replayDisclosure_from (offerId : Int) :
    Sourced doc (⟨.selectDisclosureOf offerId, some d⟩ :: l) (replayDisclosure offer d (some doc)) := by
  unfold replayDisclosure
  cases hrep : repairMissingDocument d (some doc) with
  | error r => exact sourced_error _
  | ok repaired =>
    have hcases := repairMissingDocument_cases hrep
    dsimp only
    split
    · rename_i hnone
      refine sourced_ok ?_
      rcases hcases with ⟨-, hkept⟩ | ⟨reset, hrepaired⟩
      · exact .found offerId d l List.suffix_rfl (hkept.imp_right .inl) (.inl rfl)
      · rw [hnone.1] at hrepaired
        cases hrepaired
    · refine ⟨trivial, fun x => ?_⟩
      cases x with
      | error e => exact sourced_error _
      | ok u =>
        refine ⟨trivial, fun read => ?_⟩
        refine sourced_ok ?_
        have hrow : IsRow (⟨.selectDisclosure d.id, read⟩ ::
            ⟨.repair d.id repaired (closeProvenanceEdge offer d.decisionEventId), .ok u⟩ ::
            ⟨.selectDisclosureOf offerId, some d⟩ :: l) d.id (read.getD d) := by
          cases read with
          | none => exact .inl rfl
          | some row' => exact .inr List.mem_cons_self
        rcases hcases with ⟨-, hkept⟩ | ⟨reset, rfl⟩
        · exact .found offerId d l ((List.suffix_cons _ _).trans (List.suffix_cons _ _))
            (hkept.imp_right .inl) hrow
        · exact .repaired offerId reset _ d _ (List.suffix_cons _ _) List.mem_cons_self hrow

/-- **A lost race** returns the row that won it, with the document it has. -/
theorem loseRace_from (offerId : Int) (cause : Refused)
    (hread : ∃ x, ⟨.selectDisclosureOf offerId, x⟩ ∈ l) :
    Sourced doc l (loseRace offerId cause) := by
  refine ⟨trivial, fun winner => ?_⟩
  cases winner with
  | none => exact sourced_error _
  | some winner =>
    refine ⟨trivial, fun offer => ?_⟩
    cases offer with
    | none => exact sourced_error _
    | some offer =>
      dsimp only [Prog.bind]
      cases closeProvenanceEdge offer winner.decisionEventId with
      | none =>
        exact sourced_ok
          (.found offerId winner l (List.suffix_cons _ _) (.inr (.inr hread)) (.inl rfl))
      | some edge =>
        refine ⟨trivial, fun x => ?_⟩
        cases x with
        | error e => exact sourced_error _
        | ok u =>
          exact sourced_ok (.found offerId winner l
            ((List.suffix_cons _ _).trans (List.suffix_cons _ _)) (.inr (.inr hread)) (.inl rfl))

/-- **The fresh path** inserts the document, or returns the row that won the race. -/
theorem insertDisclosure_from (hb : b.document = some doc)
    (hread : ∃ x, ⟨.selectDisclosureOf b.offerId, x⟩ ∈ l) :
    Sourced doc l (insertDisclosure D b offer) := by
  unfold insertDisclosure
  cases createRecord D.sha256 D.schedule b.terms offer.box b.document with
  | error r =>
    cases r with
    | checkViolation => exact loseRace_from _ _ hread
    | _ => exact sourced_error _
  | ok record =>
    refine ⟨trivial, fun x => ?_⟩
    cases x with
    | error e =>
      obtain ⟨x, hx⟩ := hread
      exact loseRace_from _ _ ⟨x, List.mem_cons_of_mem _ hx⟩
    | ok inserted =>
      refine ⟨trivial, fun read => ?_⟩
      rw [hb]
      refine sourced_ok (.inserted b.offerId b.decisionEventId record _ inserted
        (List.mem_cons_of_mem _ List.mem_cons_self) ?_)
      cases read with
      | none => exact .inl rfl
      | some row' => exact .inr List.mem_cons_self

/-- **`create_disclosure`.** -/
theorem createDisclosure_from (hb : b.document = some doc) :
    Sourced doc [] (createDisclosure D b) := by
  refine ⟨trivial, fun offer => ?_⟩
  cases offer with
  | none => exact sourced_error _
  | some offer =>
    refine ⟨trivial, fun existing => ?_⟩
    cases existing with
    | some existing =>
      rw [hb]
      exact replayDisclosure_from b.offerId
    | none =>
      refine (obeys_bind (refuseIfDecisionEventInvalid b.decisionEventId offer) _).mpr ?_
      refine (refuseIfDecisionEventInvalid_obeys b.decisionEventId offer).mono (fun _ _ _ => trivial)
        fun l' refused hl => ?_
      cases refused with
      | some refused => exact sourced_error _
      | none => exact insertDisclosure_from hb ⟨none, hl.1 _ List.mem_cons_self⟩

theorem From.mono {l' : Log origination} {row : DisclosureRow} (h : From doc l row)
    (hl : l <:+ l') : From doc l' row := by
  have hrow : ∀ {id}, IsRow l id row → IsRow l' id row := fun h => h.imp_right fun h => hl.subset h
  cases h with
  | inserted offerId eventId rec closeEdge d h hd =>
    exact .inserted offerId eventId rec closeEdge d (hl.subset h) (hrow hd)
  | repaired offerId reset edge d l₁ h hread hd =>
    exact .repaired offerId reset edge d l₁ (h.trans hl) hread (hrow hd)
  | found offerId d l₁ h hkept hd => exact .found offerId d l₁ (h.trans hl) hkept (hrow hd)

end From

/-! ## What a run answers -/

section Answers

variable {S : Services} {p : Pipeline} {w : Outside} {s u : State}

/-- The document a run sends, where it reaches `_persist`. -/
def Pipeline.sent (p : Pipeline) : Option Document :=
  match (invoke p.outside p.applicationId).visits with
  | (.persist, s) :: _ => disclosureDocument (s.document.getD .none)
  | _ => none

/-- `_persist` returns the record it was given. -/
theorem persist_record {record chain : Except Text Value}
    (h : persist (w.answering record chain) s = .ok u) :
    ∃ v, record = .ok v ∧ u.disclosure = some v := by
  obtain ⟨_, -, h⟩ := of_bind_ok h
  obtain ⟨_, -, h⟩ := of_bind_ok h
  obtain ⟨_, -, h⟩ := of_bind_ok h
  obtain ⟨_, -, h⟩ := of_bind_ok h
  obtain ⟨_, -, h⟩ := of_bind_ok h
  obtain ⟨v, hv, h⟩ := of_bind_ok h
  obtain ⟨disclosureId, -, h⟩ := of_bind_ok h
  obtain ⟨chain, -, h⟩ := of_bind_ok h
  obtain ⟨complete, -, h⟩ := of_bind_ok h
  refine ⟨v, fromOutside_ok hv, ?_⟩
  dsimp only at h
  split at h
  · cases h
    rfl
  · obtain ⟨edges, -, h⟩ := of_bind_ok h
    obtain ⟨missing, -, h⟩ := of_bind_ok h
    cases h
    rfl

/-- A document that spells figures is there. -/
theorem Spelled.ne_none {figures : Box Text} : ¬Spelled .none figures := by
  intro h
  have happr := h .apr
  cases happr

/-- What a run sends is what pydantic reads of the document it has. -/
theorem disclosureIn_document {q : PersistRequest} {b : DisclosureIn}
    (h : S.disclosureIn q = some b) (hq : q.document ≠ .none) :
    ∃ doc, disclosureDocument q.document = some doc ∧ b.document = some doc := by
  unfold Services.disclosureIn at h
  obtain ⟨⟨offerId, eventId, terms⟩, -, h⟩ := Option.bind_eq_some_iff.mp h
  dsimp only at h
  split at h
  · rename_i hnone
    exact absurd hnone hq
  · obtain ⟨doc, hdoc, h⟩ := Option.bind_eq_some_iff.mp h
    cases h
    exact ⟨doc, hdoc, rfl⟩

theorem persistRequest_ok {q : PersistRequest} (h : persistRequest s = .ok q) :
    q.document = s.document.getD .none := by
  obtain ⟨_, -, h⟩ := of_bind_ok h
  obtain ⟨_, -, h⟩ := of_bind_ok h
  obtain ⟨_, -, h⟩ := of_bind_ok h
  obtain ⟨_, -, h⟩ := of_bind_ok h
  obtain ⟨_, -, h⟩ := of_bind_ok h
  cases h
  rfl

theorem postDisclosure_from {q : PersistRequest} (hq : q.document ≠ .none) :
    (postDisclosure S q).Obeys (fun _ _ => True) (fun l a => ∀ row, a = .ok row →
      ∃ doc, disclosureDocument q.document = some doc ∧ From doc l row) [] := by
  unfold postDisclosure
  cases hb : S.disclosureIn q with
  | none =>
    rintro row h
    cases h
  | some b =>
    obtain ⟨doc, hdoc, hbdoc⟩ := disclosureIn_document hb hq
    refine (obeys_bind (createDisclosure S.deployment b) _).mpr ?_
    refine (createDisclosure_from hbdoc).mono (fun _ _ _ => trivial) fun l a h => ?_
    cases a with
    | error e =>
      rintro row hrow
      cases hrow
    | ok row =>
      rintro row' hrow
      cases hrow
      exact ⟨doc, hdoc, h row rfl⟩

/-- `_persist` over the tables returns a row that has its document from somewhere. -/
theorem persistRecorded_from (hs : s.document.getD .none ≠ .none) :
    (persistRecorded S p s).Obeys (fun _ _ => True) (fun l a => ∀ u, a = .ok u →
      ∃ doc row, disclosureDocument (s.document.getD .none) = some doc ∧ From doc l row ∧
        u.document = none ∧ u.disclosure = some (S.disclosureOut row)) [] := by
  unfold persistRecorded
  cases hq : persistRequest s with
  | error e =>
    rintro u h
    cases h
  | ok q =>
    have hdoc := persistRequest_ok hq
    refine (obeys_bind (postDisclosure S q) _).mpr ?_
    refine (postDisclosure_from (hdoc ▸ hs)).mono (fun _ _ _ => trivial) fun l reply h => ?_
    cases hreply : unlessLost p.persistLost reply with
    | error cause =>
      rintro u hu
      obtain ⟨v, hv, -⟩ := persist_record hu
      cases hv
    | ok row =>
      have hrow : reply = .ok row := by
        unfold unlessLost at hreply
        split at hreply
        · cases hreply
        · exact hreply
      obtain ⟨doc, hdoc', hfrom⟩ := h row hrow
      refine ⟨trivial, fun chain => ?_⟩
      rintro u hu
      obtain ⟨v, hv, hdisclosure⟩ := persist_record hu
      cases hv
      exact ⟨doc, row, hdoc ▸ hdoc', hfrom.mono (List.suffix_cons _ _), (persist_ok hu).2.1,
        hdisclosure⟩

/-- A run that reaches `_persist` has a document that spells figures. -/
theorem document_of_persist {past : List (Node × State)}
    (h : (invoke p.outside p.applicationId).visits = (.persist, s) :: past) :
    s.document.getD .none ≠ .none := by
  obtain ⟨past', hfound⟩ := (invoke_gated p.outside p.applicationId).2 (.persist, s)
    (h ▸ List.mem_cons_self)
  obtain ⟨-, figures, -, -, hspelled⟩ := hfound.2.1
  intro hnone
  rw [hnone] at hspelled
  exact Spelled.ne_none hspelled

/-- A run that is not blocked ended at `_persist`. -/
def lastPersists : Graph.Assertions Node State Raised where
  before _ _ _ := True
  after past s := s.isBlocked = true ∨ ∃ s' past', past = (.persist, s') :: past'
  raised _ _ := True

theorem keeps_lastPersists (w : Outside) : (graph w).Keeps lastPersists where
  on _ _ _ := trivial
  raises _ _ := trivial
  ends := by
    rintro past n s s' - - hnext
    have hnext : next n s' = none := hnext
    cases n with
    | persist => exact .inr ⟨s, past, rfl⟩
    | route | compute =>
      left
      by_contra hopen
      rw [next, if_neg hopen] at hnext
      cases hnext
    | assemble | narrate => cases hnext
    | verify =>
      left
      by_contra hopen
      rw [next, if_pos (by simpa using hopen)] at hnext
      cases hnext

/-- A run that answers `ok` reached `_persist`. -/
theorem persist_of_ok {applicationId : Value} {document : Option Value}
    {narration : Option Narration} {degraded : Bool} {record provenance : Option Value}
    {attempts : ℕ}
    (h : run w applicationId = .ok (.ok document narration degraded record provenance attempts)) :
    ∃ s past, (invoke w applicationId).visits = (.persist, s) :: past := by
  have hholds := (@Graph.run_spec _ _ _ _ _ (keeps_lastPersists w) recursionLimit [] .route
    { applicationId := some applicationId, attempts := some 0 } trivial).1
  change lastPersists.Holds (invoke w applicationId) at hholds
  unfold Graph.Assertions.Holds at hholds
  obtain ⟨x, hx⟩ := invoke_outcome w applicationId
  rw [run, hx] at h
  rw [hx] at hholds
  cases x with
  | error e => cases h
  | ok s =>
    rcases hholds with hblocked | hlast
    · have hanswer := Except.ok.inj h
      rw [answer, if_pos hblocked] at hanswer
      cases hanswer
    · exact hlast

/-- **What an answer says of the record**: its document is the one the run sent, and its record is a
row that has its document from somewhere. -/
theorem prog_from (S : Services) (p : Pipeline) :
    (p.prog S).Obeys (fun _ _ => True) (fun l a =>
      ∀ document narration degraded record provenance attempts,
        a = .ok (.ok document narration degraded record provenance attempts) →
        ∃ doc row, document.bind disclosureDocument = some doc ∧ p.sent = some doc ∧
          From doc l row ∧ record = some (S.disclosureOut row)) [] := by
  unfold Pipeline.prog Pipeline.sent
  split
  · rename_i s past hvisits
    have hs := document_of_persist hvisits
    refine (obeys_bind (persistRecorded S p s) _).mpr ?_
    refine (persistRecorded_from hs).mono (fun _ _ _ => trivial) fun l a h => ?_
    rintro document narration degraded record provenance attempts ha
    cases a with
    | error e => cases ha
    | ok u =>
      obtain ⟨doc, row, hdoc, hfrom, hnone, hdisclosure⟩ := h u rfl
      have hanswer : answer (s.merge u) = _ := Except.ok.inj ha
      unfold answer at hanswer
      split at hanswer
      · cases hanswer
      · cases hanswer
        refine ⟨doc, row, ?_, hdoc, hfrom, ?_⟩
        · rw [State.merge, hnone]
          cases hsdoc : s.document with
          | none => exact absurd (by rw [hsdoc]; rfl) hs
          | some v =>
            rw [hsdoc] at hdoc
            exact hdoc
        · rw [State.merge, hdisclosure]
          rfl
  · rename_i hnot
    rintro document narration degraded record provenance attempts ha
    obtain ⟨s, past, hvisits⟩ := persist_of_ok ha
    exact absurd hvisits (hnot s past)

end Answers

/-! ## Any interleaving -/

/-- A run of the pipeline, or another call of the services. -/
inductive Call
  | task (t : Task)
  | pipeline (p : Pipeline)

/-- What a call returns. -/
inductive CallResult
  | answered (a : Origination.Answer)
  | ran (r : Except Raised Answer)

def Call.prog (S : Services) : Call → P CallResult
  | task t => do pure (.answered (← t.prog S.deployment))
  | pipeline p => do pure (.ran (← p.prog S))

/-- Any family of calls, started in a world. -/
def startCalls {ι : Type} (S : Services) (calls : ι → Call) (w : World) :
    Config origination ι CallResult :=
  ⟨w, fun i => (calls i).prog S⟩

/-- The document a call sends, where it is a run that reaches `_persist`. -/
def Call.sent : Call → Option Document
  | task _ => none
  | pipeline p => p.sent

section Runs

variable {ι : Type} [DecidableEq ι]

/-- The condition under which a run's document is the one on record: the disclosure it finds for its
offer has its own document, or it is found before an insert was tried, has none and is not delivered;
and no backfill writes over another document. -/
def TakesOwn (calls : ι → Call) (tr : List (Entry origination ι)) : Entry origination ι → Prop
  | .call i (.selectDisclosureOf offerId) (some d) _ _ =>
    ∀ doc, (calls i).sent = some doc → d.documentBody = some doc ∨
      (d.documentBody = none ∧ d.status ≠ .delivered ∧
        ∀ x, ⟨.selectDisclosureOf offerId, x⟩ ∉ own i tr)
  | .call _ (.repair id (some (doc, _)) _) _ w _ =>
    ∀ d ∈ w.disclosures.rows, d.id = id → d.documentBody = none ∨ d.documentBody = some doc
  | _ => True

/-- The row has the document. -/
def Holding (id : Int) (doc : Document) (w : World) : Prop :=
  ∃ d ∈ w.disclosures.rows, d.id = id ∧ d.documentBody = some doc

variable {S : Services} {calls : ι → Call} {w₀ : World} {tr tr' : List (Entry origination ι)}
  {c : Config origination ι CallResult} {id : Int} {doc : Document}

/-- No step within the condition takes a document away. -/
theorem holding_call {i : ι} {s : Stmt} {r : s.Res} {w w' : World} (h : Holding id doc w)
    (hx : w.exec s = some (r, w')) (hC : TakesOwn calls tr (.call i s r w w')) :
    Holding id doc w' := by
  obtain ⟨d, hd, hid, hdoc⟩ := h
  obtain ⟨d', hd', hR⟩ := (exec_effect hx).kept_disclosure hd
  cases hR with
  | same => exact ⟨_, hd', hid, hdoc⟩
  | attached doc' reset edge heq hopen hsame hnew =>
    refine ⟨d', hd', hsame.id.trans hid, hnew.trans ?_⟩
    cases heq
    rcases hC d hd rfl with hnone | hown
    · rw [hdoc] at hnone
      cases hnone
    · rw [← hown, hdoc]
  | moved target time heq hopen hsame hold =>
    exact ⟨d', hd', hsame.id.trans hid, hold.trans hdoc⟩

theorem holding_env (v : Env) (w : World) (h : Holding id doc w) : Holding id doc (w.env v) := by
  obtain ⟨d, hd, hrow⟩ := h
  exact ⟨d, (env_same v w).disclosures.symm ▸ hd, hrow⟩

/-- What holds after a step holds at the end of the run. -/
theorem holding_kept (h : Run (startCalls S calls w₀) tr c) (hC : Along (TakesOwn calls) tr)
    {e : Entry origination ι} (hs : e :: tr' <:+ tr) (hp : Holding id doc e.post) :
    Holding id doc c.world :=
  h.kept (fun _ _ _ _ _ _ hw hx hc => holding_call hw hx hc) holding_env hC hs hp

/-- A row that is there stays, with its id. -/
theorem row_kept {i : ι} {offerId : Int} {d : DisclosureRow} {c₁ : Config origination ι CallResult}
    (h : Run (startCalls S calls w₀) tr c₁)
    (hread : ⟨.selectDisclosureOf offerId, some d⟩ ∈ own i tr) :
    ∃ d' ∈ c₁.world.disclosures.rows, d'.id = d.id := by
  refine h.established (P := fun w : World => ∃ d' ∈ w.disclosures.rows, d'.id = d.id) hread
    (fun w w' hx => ?_) (fun s w r w' hw hx => ?_) fun v w hw => ?_
  · have hx : w.exec (.selectDisclosureOf offerId) = some (some d, w') := hx
    obtain ⟨hd, rfl⟩ := exec_eq rfl hx
    exact ⟨d, List.mem_of_find?_eq_some hd.symm, rfl⟩
  · obtain ⟨d₁, hd₁, hid⟩ := hw
    obtain ⟨d₂, hd₂, hR⟩ := (exec_effect hx).kept_disclosure hd₁
    refine ⟨d₂, hd₂, ?_⟩
    cases hR with
    | same => exact hid
    | attached _ _ _ _ _ hsame => exact hsame.id.trans hid
    | moved _ _ _ _ hsame => exact hsame.id.trans hid
  · obtain ⟨d₁, hd₁, hid⟩ := hw
    exact ⟨d₁, (env_same v w).disclosures.symm ▸ hd₁, hid⟩

/-- A repair writes the document on the row it names. -/
theorem holding_repair {reset : Bool} {edge : Option (Int × Int)} {w w' : World} {u : Unit}
    (hx : w.exec (.repair id (some (doc, reset)) edge) = some (.ok u, w'))
    (hd : ∃ d ∈ w.disclosures.rows, d.id = id) : Holding id doc w' := by
  obtain ⟨d, hd, rfl⟩ := hd
  have heffect := exec_effect hx
  cases heffect with
  | same hwrote => cases hwrote
  | repair _ _ _ hopen =>
    have hstatus := hopen (by simp) d (w.disclosures.find_pk hd)
    rw [World.edged_eq]
    refine ⟨World.attachRow d.id doc reset d, List.mem_map_of_mem hd, World.attachRow_id _ _ _ _, ?_⟩
    rw [World.attachRow, dif_pos ⟨rfl, hstatus⟩]

theorem call_obeys (S : Services) (call : Call) :
    (call.prog S).Obeys (fun _ _ => True) (fun l a => ∀ p, call = .pipeline p →
      ∀ document narration degraded record provenance attempts,
        a = .ran (.ok (.ok document narration degraded record provenance attempts)) →
        ∃ doc row, document.bind disclosureDocument = some doc ∧ p.sent = some doc ∧
          From doc l row ∧ record = some (S.disclosureOut row)) [] := by
  cases call with
  | task t => exact (obeys_true _).mono (fun _ _ _ => trivial) fun _ _ _ p hp => nomatch hp
  | pipeline p =>
    refine (obeys_bind (p.prog S) _).mpr ?_
    refine (prog_from S p).mono (fun _ _ _ => trivial) fun l a h => ?_
    rintro p' hp document narration degraded record provenance attempts ha
    cases hp
    cases ha
    exact h _ _ _ _ _ _ rfl

/-- The row a run was given under an id has the id. -/
theorem isRow_id (h : Run (startCalls S calls w₀) tr c) {i : ι} {row : DisclosureRow}
    (hrow : IsRow (own i tr) id row) : row.id = id := by
  rcases hrow with hid | hread
  · exact hid
  · obtain ⟨w, w', tr', hs⟩ := exists_of_mem_own hread
    have hx : w.exec (.selectDisclosure id) = some (some row, w') := h.exec hs
    have hrow : w.disclosure id = some row := (exec_eq rfl hx).1.symm
    unfold World.disclosure at hrow
    simpa using List.find?_some hrow

/-- **Where the condition holds, the document of a run is the one on record.** -/
theorem holding_from (h : Run (startCalls S calls w₀) tr c) (hC : Along (TakesOwn calls) tr) {i : ι}
    (hsent : (calls i).sent = some doc) {row : DisclosureRow} (hfrom : From doc (own i tr) row) :
    Holding row.id doc c.world := by
  cases hfrom with
  | inserted offerId eventId rec closeEdge d hmem hrow =>
    rw [isRow_id h hrow]
    obtain ⟨w, w', tr', hs⟩ := exists_of_mem_own hmem
    have hx : w.exec (.insertDisclosure offerId eventId rec (some doc) closeEdge) =
      some (.ok d, w') := h.exec hs
    obtain ⟨hd, hrows, -⟩ := (exec_effect hx).inserted
    exact holding_kept h hC hs ⟨d, hrows ▸ List.mem_cons_self, rfl, hd.2.2.2.2⟩
  | repaired offerId reset edge d l' hrep hread hrow =>
    rw [isRow_id h hrow]
    obtain ⟨w, w', tr', hs, rfl⟩ := exists_of_own hrep
    have hx : w.exec (.repair d.id (some (doc, reset)) edge) = some (.ok (), w') := h.exec hs
    obtain ⟨c₁, c₂, hrun₁, hstep⟩ := h.entry hs
    have hthere := row_kept hrun₁ hread
    rw [← hstep.pre_eq] at hthere
    exact holding_kept h hC hs (holding_repair hx hthere)
  | found offerId d l' hread hkept hrow =>
    rw [isRow_id h hrow]
    obtain ⟨w, w', tr', hs, rfl⟩ := exists_of_own hread
    have hx : w.exec (.selectDisclosureOf offerId) = some (some d, w') := h.exec hs
    obtain ⟨hd, rfl⟩ := exec_eq rfl hx
    have hown : d.documentBody = some doc := by
      rcases (hC.suffix hs).1 doc hsent with hown | ⟨hnone, hopen, hfirst⟩
      · exact hown
      · rcases hkept with hbody | hdelivered | ⟨x, hx⟩
        · exact absurd hnone hbody
        · exact absurd hdelivered hopen
        · exact absurd hx (hfirst x)
    exact holding_kept h hC hs ⟨d, List.mem_of_find?_eq_some hd.symm, rfl, hown⟩

/-- **The document a run answers with is the one on record**, in every run of the services whose steps
keep to `TakesOwn`. -/
theorem recorded (h : Run (startCalls S calls w₀) tr c) (hC : Along (TakesOwn calls) tr) {i : ι}
    {p : Pipeline} (hp : calls i = .pipeline p) {document : Option Value}
    {narration : Option Narration} {degraded : Bool} {record provenance : Option Value}
    {attempts : ℕ}
    (hanswer : c.procs i =
      .ret (.ran (.ok (.ok document narration degraded record provenance attempts)))) :
    ∃ d ∈ c.world.disclosures.rows, ∃ doc, document.bind disclosureDocument = some doc ∧
      d.documentBody = some doc ∧
      ∃ v, record = some v ∧ v.item "disclosure_id".toList = .ok (.int d.id) := by
  obtain ⟨doc, row, hdoc, hsent, hfrom, hrecord⟩ :=
    h.returned (φ := fun _ _ _ => True) (fun i => call_obeys S (calls i)) hanswer p hp _ _ _ _ _ _ rfl
  have hsent : (calls i).sent = some doc := by rwa [hp]
  obtain ⟨d, hd, hid, hbody⟩ := holding_from h hC hsent hfrom
  exact ⟨d, hd, doc, hdoc, hbody, _, hrecord, by rw [hid]; rfl⟩

/-! ## Two wordings -/

/-- A step that finds the document, or that the condition says nothing about. -/
def keeping (doc : Option Document) : Entry origination ι → Bool
  | .call _ (.selectDisclosureOf _) (some d) _ _ => d.documentBody = doc
  | .call _ (.repair _ (some _) _) _ _ _ => false
  | _ => true

theorem takesOwn_of_keeping {doc : Option Document} (hsent : ∀ i, (calls i).sent = doc)
    {e : Entry origination ι} (h : keeping doc e = true) : TakesOwn calls tr e := by
  unfold TakesOwn
  split
  · rename_i i offerId d w w'
    intro doc' hdoc'
    have hd : d.documentBody = doc := of_decide_eq_true h
    rw [hd, ← hsent i, hdoc']
    exact .inl rfl
  · cases h
  · trivial

theorem along_of_keeping {doc : Option Document} (hsent : ∀ i, (calls i).sent = doc)
    (h : tr.all (keeping doc) = true) : Along (TakesOwn calls) tr := by
  induction tr with
  | nil => trivial
  | cons e tr ih =>
    rw [List.all_cons, Bool.and_eq_true] at h
    exact ⟨takesOwn_of_keeping hsent h.1, ih h.2⟩

end Runs

/-- The five figures of a box as the members of an object. -/
def figureMembers {α : Type} (b : Box α) (value : α → Value) : Value :=
  .dict (figureFields.map fun f => (figureKey f, value (figure b f)))

/-- A model that copies the figures, under a heading of its own. -/
def worded (heading : String) : Pipeline where
  applicationId := .int 1
  outside :=
    { gather := fun _ => .ok
        { outcome := some (.str "approve".toList)
          decisionEventId := some (.int 1)
          principal := some (.float (.finite wholeTerms.principal))
          annualRate := some (.float (.finite wholeTerms.annualRate))
          termMonths := some (.int 12) }
      computeOffer := fun _ => .ok (.dict [("offer_id".toList, .int 1),
        ("disclosure".toList, figureMembers wholeRow fun x => (x.map Value.float).getD .none),
        ("decision_event_id".toList, .int 1)])
      maker := fun _ q => .ok (.dict [("heading".toList, .str heading.toList),
        ("figures".toList, figureMembers q.figures Value.str),
        ("payment_terms".toList, .str "Twelve monthly payments.".toList),
        ("prepayment".toList, .str "You may prepay without a penalty.".toList)])
      checker := fun _ => .ok none
      grounded := fun _ _ _ => true
      persistDisclosure := fun _ => .error []
      readProvenance := fun _ => .error []
      containerText := fun _ => [] }

def sampleServices : Services where
  deployment := sampleDeployment
  numbers := fun _ => some (1, 1, wholeTerms)
  isoFormat := fun _ => []

/-- The heading a run answers with. -/
def CallResult.heading : CallResult → Option Text
  | ran (.ok (.ok document _ _ _ _ _)) => (document.bind disclosureDocument).map Document.heading
  | _ => none

theorem CallResult.answered_of_heading {q : P CallResult}
    (h : (q.result.bind CallResult.heading).isSome = true) :
    ∃ document narration degraded record provenance attempts,
      q = .ret (.ran (.ok (.ok document narration degraded record provenance attempts))) := by
  obtain ⟨heading, h⟩ := Option.isSome_iff_exists.mp h
  obtain ⟨r, hr, hheading⟩ := Option.bind_eq_some_iff.mp h
  unfold CallResult.heading at hheading
  split at hheading
  · exact ⟨_, _, _, _, _, _, Prog.eq_ret_of_result hr⟩
  · cases hheading

/-- The headings on record. -/
def headings (w : World) : List (Option Text) :=
  w.disclosures.rows.map fun d => d.documentBody.map Document.heading

/-- One wording. -/
def firstWording : Pipeline := worded "Truth in Lending Disclosure"

/-- A rerun that words the document as it was recorded. -/
theorem recorded_rerun : ∃ tr c,
    Run (startCalls sampleServices (fun _ : Unit => .pipeline firstWording)
      (World.disclosed firstWording.sent)) tr c ∧
    ∃ d ∈ c.world.disclosures.rows, ∃ (document : Option Value) (doc : Document),
      document.bind disclosureDocument = some doc ∧ d.documentBody = some doc ∧
      (c.procs ()).result.bind CallResult.heading = some doc.heading := by
  obtain ⟨tr, c, hrun, hkeeping, hread⟩ := exists_run [.call (), .call (), .call ()]
    (startCalls sampleServices (fun _ : Unit => .pipeline firstWording)
      (World.disclosed firstWording.sent))
    (fun x => x.1.all (keeping firstWording.sent) = true ∧
      ((x.2.procs ()).result.bind CallResult.heading).isSome = true) (by decide +kernel)
  obtain ⟨document, narration, degraded, record, provenance, attempts, hret⟩ :=
    CallResult.answered_of_heading hread
  obtain ⟨d, hd, doc, hdoc, hbody, -⟩ :=
    recorded hrun (along_of_keeping (fun _ => rfl) hkeeping) (i := ()) rfl hret
  refine ⟨tr, c, hrun, d, hd, document, doc, hdoc, hbody, ?_⟩
  rw [hret]
  exact congrArg (Option.map Document.heading) hdoc

/-- Two runs on one application, whose models word the document differently. -/
def twoWordings : Bool → Call
  | false => .pipeline firstWording
  | true => .pipeline (worded "Disclosure")

/-- The second run answers with its own wording, the record keeps the first. -/
theorem reworded_document : ∃ tr c,
    Run (startCalls sampleServices twoWordings World.offered) tr c ∧
    (c.procs true).result.bind CallResult.heading = some "Disclosure".toList ∧
    headings c.world = [some "Truth in Lending Disclosure".toList] :=
  exists_run (List.replicate 6 (.call false) ++ List.replicate 3 (.call true))
    (startCalls sampleServices twoWordings World.offered)
    (fun x => (x.2.procs true).result.bind CallResult.heading = some "Disclosure".toList ∧
      headings x.2.world = [some "Truth in Lending Disclosure".toList]) (by decide +kernel)

end Meridian.Coordinator
