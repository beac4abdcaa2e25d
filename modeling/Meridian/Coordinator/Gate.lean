import Meridian.Coordinator.Stages
import Meridian.Disclosure.Apr

/-!
# The gate of the disclosure pipeline

The state outlives a lap of the cycle, so a stale `blocked`, `reason` or `document` could steer a
later edge. `assertions` says what each node finds: the maker is called again only after a rendering
mismatch, and what comes after `verify` finds a document whose figures are the computed ones.

* one inversion lemma for each node (`route_ok`, `compute_ok`, ...), from which `keeps` follows;
* `invoke_gated`, `invoke_ends`: what holds at every visit, and that every run ends;
* `narration_quiet`: what the checker says changes nothing but the narration;
* `pipeline_gated`: the result for `run`.
-/

namespace Meridian.Coordinator

open Python Disclosure Workflow

/-- An approval is on record: the outcome is `approve`, and there is a decision event. -/
def OnRecord (w : Outside) (applicationId : Value) : Prop :=
  ∃ context, w.gather applicationId = .ok context ∧
    context.outcome = some (.str "approve".toList) ∧
    (context.decisionEventId.getD .none).truthy = true

/-- What `_compute` asks an offer for in a state. -/
def offerRequest (s : State) : Option OfferRequest := do
  let applicationId ← s.applicationId
  let principal ← s.principal
  let annualRate ← s.annualRate
  let termMonths ← s.termMonths
  pure ⟨applicationId, principal, annualRate, termMonths, s.decisionEventId.getD .none⟩

/-- What a run asks an offer for: its application, under the terms and the decision event that were
gathered for it. -/
def asked (w : Outside) (applicationId : Value) : Option OfferRequest :=
  match w.gather applicationId with
  | .error _ => none
  | .ok context => offerRequest (State.merge { applicationId := some applicationId } context)

/-- The figures are those of the offer the run asked for. -/
def Computed (w : Outside) (applicationId : Value) (figures : Box Text) : Prop :=
  ∃ request offer disclosure, asked w applicationId = some request ∧
    w.computeOffer request = .ok offer ∧ disclosureOf offer = .ok disclosure ∧
    figureTexts w disclosure = .ok (figures.map some)

/-- The document spells every figure as it was computed. -/
def Spelled (document : Value) (figures : Box Text) : Prop :=
  ∀ f, rendered document f = .ok (.str (figure figures f))

/-- The state holds the computed figures. -/
def HasFigures (w : Outside) (applicationId : Value) (s : State) : Prop :=
  ∃ figures, s.figures = some figures ∧ Computed w applicationId figures

/-- What has to hold before anything is written: an approval on record, and a document that spells
the computed figures. -/
def Passed (w : Outside) (applicationId : Value) (s : State) : Prop :=
  OnRecord w applicationId ∧ ∃ figures, s.figures = some figures ∧
    Computed w applicationId figures ∧ Spelled (s.document.getD .none) figures

/-- Blocked, and not for a rendering mismatch. -/
def BlockedForGood (s : State) : Prop := s.isBlocked = true ∧ s.reason ≠ some .renderMismatch

/-! ## The nodes -/

section Nodes

variable {w : Outside} {s u : State}

theorem reading_ok {α : Type} {x : Except Misread α} {a : α} (h : reading x = .ok a) :
    x = .ok a := by
  cases x with
  | error m => cases h
  | ok b =>
    cases h
    rfl

theorem fromOutside_ok {α : Type} {x : Except Text α} {a : α} (h : fromOutside x = .ok a) :
    x = .ok a := by
  cases x with
  | error m => cases h
  | ok b =>
    cases h
    rfl

theorem need_ok {α : Type} {x : Option α} {a : α} (h : need x = .ok a) : x = some a := by
  cases x with
  | none => cases h
  | some b =>
    cases h
    rfl

/-- `_route` blocks for good, or goes on with an approval on record and what is to be asked for. -/
theorem route_ok {applicationId : Value}
    (hs : s = { applicationId := some applicationId, attempts := some 0 })
    (h : route w s = .ok u) :
    (u.blocked = some true ∧ u.reason ≠ some .renderMismatch) ∨
      (u.blocked = some false ∧ u.attempts = some 0 ∧ OnRecord w applicationId ∧
        offerRequest (s.merge u) = asked w applicationId) := by
  subst hs
  obtain ⟨_, hneed, h⟩ := of_bind_ok h
  cases need_ok hneed
  obtain ⟨context, hgather, h⟩ := of_bind_ok h
  have hgather := fromOutside_ok hgather
  split at h
  · cases h
    exact .inl ⟨rfl, nofun⟩
  · rename_i hevent
    split at h
    · cases h
      exact .inl ⟨rfl, nofun⟩
    · rename_i hout
      cases h
      refine .inr ⟨rfl, rfl, ⟨context, hgather, ?_, by simpa using hevent⟩, ?_⟩
      · have hstr := Value.isStr_iff.mp (by simpa [pipelineOutcome] using hout)
        cases hcase : context.outcome with
        | none =>
          rw [hcase] at hstr
          cases hstr
        | some v =>
          rw [hcase] at hstr
          exact congrArg some hstr
      · rw [asked, hgather]
        rfl

theorem mem_figureFields (f : Figure) : f ∈ figureFields := by
  cases f <;> decide

/-- Texts of which none is missing. -/
theorem texts_present {texts : Box (Option Text)}
    (h : (figureFields.filter fun f => (figure texts f).isNone) = []) :
    (texts.map (·.getD [])).map some = texts := by
  have hall : ∀ f, some ((figure texts f).getD []) = figure texts f := by
    intro f
    have hsome := List.filter_eq_nil_iff.mp h f (mem_figureFields f)
    cases hcase : figure texts f with
    | none => exact absurd (by rw [hcase]; rfl) hsome
    | some t => rfl
  cases texts with
  | mk apr financeCharge monthlyPayment amountFinanced totalOfPayments =>
    exact congr (congr (congr (congr (congrArg Box.mk (hall .apr)) (hall .financeCharge))
      (hall .monthlyPayment)) (hall .amountFinanced)) (hall .totalOfPayments)

/-- `_compute` blocks for good, or writes the figures of the offer it asked for. -/
theorem compute_ok {applicationId : Value} (hasked : offerRequest s = asked w applicationId)
    (h : compute w s = .ok u) :
    (u.blocked = some true ∧ u.reason = some .numberWrong ∧ u.attempts = none) ∨
      (HasFigures w applicationId u ∧ u.blocked = none ∧ u.attempts = none) := by
  obtain ⟨_, hid, h⟩ := of_bind_ok h
  obtain ⟨_, hprincipal, h⟩ := of_bind_ok h
  obtain ⟨_, hrate, h⟩ := of_bind_ok h
  obtain ⟨_, hterm, h⟩ := of_bind_ok h
  obtain ⟨offer, hoffer, h⟩ := of_bind_ok h
  obtain ⟨disclosure, hdisclosure, h⟩ := of_bind_ok h
  obtain ⟨texts, htexts, h⟩ := of_bind_ok h
  rw [offerRequest, need_ok hid, need_ok hprincipal, need_ok hrate, need_ok hterm] at hasked
  split at h
  · cases h
    exact .inl ⟨rfl, rfl, rfl⟩
  · rename_i hnone
    obtain ⟨authorizing, -, h⟩ := of_bind_ok h
    obtain ⟨offerId, -, h⟩ := of_bind_ok h
    cases h
    refine .inr ⟨⟨_, rfl, _, offer, disclosure, hasked.symm, fromOutside_ok hoffer,
      reading_ok hdisclosure, ?_⟩, rfl, rfl⟩
    rw [reading_ok htexts, texts_present hnone]

/-- `_assemble` writes a document and counts the attempt. -/
theorem assemble_ok {calls : ℕ} (h : assemble w calls s = .ok u) :
    ∃ document, u = { document := some document, attempts := some (s.attempts.getD 0 + 1) } := by
  obtain ⟨_, -, h⟩ := of_bind_ok h
  obtain ⟨_, -, h⟩ := of_bind_ok h
  obtain ⟨_, -, h⟩ := of_bind_ok h
  obtain ⟨document, -, h⟩ := of_bind_ok h
  cases h
  exact ⟨document, rfl⟩

/-- The fields that are not spelled as expected are all of those. -/
theorem mismatched_nil {document : Value} {expected : Box Text} {fs : List Figure}
    (h : mismatched document expected fs = .ok []) :
    ∀ f ∈ fs, rendered document f = .ok (.str (figure expected f)) := by
  induction fs with
  | nil => nofun
  | cons f fs ih =>
    obtain ⟨v, hv, h⟩ := of_bind_ok h
    obtain ⟨names, hnames, h⟩ := of_bind_ok h
    by_cases hstr : v.isStr (figure expected f) = true
    · rw [if_pos hstr] at h
      cases h
      rintro g hg
      rcases List.mem_cons.mp hg with rfl | hg
      · rw [hv, Value.isStr_iff.mp hstr]
      · exact ih hnames g hg
    · rw [if_neg hstr] at h
      cases h

/-- `_verify` blocks for a rendering mismatch, or passes a document that spells the figures. -/
theorem verify_ok (h : verify s = .ok u) :
    (∃ fields, u = blocked .renderMismatch (.fields fields)) ∨
      (u = { blocked := some false, reason := some .cleared, checksPassed := some 5 } ∧
        ∃ figures, s.figures = some figures ∧ Spelled (s.document.getD .none) figures) := by
  obtain ⟨figures, hneed, h⟩ := of_bind_ok h
  obtain ⟨names, hnames, h⟩ := of_bind_ok h
  cases names with
  | cons f rest =>
    cases h
    exact .inl ⟨_, rfl⟩
  | nil =>
    cases h
    refine .inr ⟨rfl, figures, need_ok hneed, fun f => ?_⟩
    exact mismatched_nil (reading_ok hnames) f (mem_figureFields f)

theorem brief_eq (w : Outside) (termMonths annualRate : Value) (reply : Option Narration) :
    ∃ narration degraded, brief w termMonths annualRate reply =
      { narration := some narration, narrationDegraded := some degraded } := by
  cases reply with
  | none => exact ⟨_, _, rfl⟩
  | some narration =>
    by_cases hgrounded : w.grounded narration.summary termMonths annualRate = true
    · exact ⟨narration, false, if_pos hgrounded⟩
    · exact ⟨narrationUnavailable, true, if_neg hgrounded⟩

/-- `_narrate` writes the narration only. -/
theorem narrate_ok (h : narrate w s = .ok u) :
    ∃ narration degraded,
      u = { narration := some narration, narrationDegraded := some degraded } := by
  obtain ⟨_, -, h⟩ := of_bind_ok h
  obtain ⟨_, -, h⟩ := of_bind_ok h
  obtain ⟨_, -, h⟩ := of_bind_ok h
  obtain ⟨_, -, h⟩ := of_bind_ok h
  obtain ⟨reply, -, h⟩ := of_bind_ok h
  cases h
  exact brief_eq w _ _ reply

/-- `_persist` leaves the figures and the document as they are. -/
theorem persist_ok (h : persist w s = .ok u) :
    u.figures = none ∧ u.document = none ∧
      (u.blocked = none ∨ u.blocked = some true ∧ u.reason = some .provenanceIncomplete) := by
  obtain ⟨_, -, h⟩ := of_bind_ok h
  obtain ⟨_, -, h⟩ := of_bind_ok h
  obtain ⟨_, -, h⟩ := of_bind_ok h
  obtain ⟨_, -, h⟩ := of_bind_ok h
  obtain ⟨_, -, h⟩ := of_bind_ok h
  obtain ⟨record, -, h⟩ := of_bind_ok h
  obtain ⟨disclosureId, -, h⟩ := of_bind_ok h
  obtain ⟨chain, -, h⟩ := of_bind_ok h
  obtain ⟨complete, -, h⟩ := of_bind_ok h
  dsimp only at h
  split at h
  · cases h
    exact ⟨rfl, rfl, .inl rfl⟩
  · obtain ⟨edges, -, h⟩ := of_bind_ok h
    obtain ⟨missing, -, h⟩ := of_bind_ok h
    cases h
    exact ⟨rfl, rfl, .inr ⟨rfl, rfl⟩⟩

/-- What leaves the figures and the document as they are does not undo the gate. -/
theorem Passed.merge {applicationId : Value} (h : Passed w applicationId s)
    (hfigures : u.figures = none) (hdocument : u.document = none) :
    Passed w applicationId (s.merge u) := by
  obtain ⟨hrecord, figures, hsome, hcomputed, hspelled⟩ := h
  refine ⟨hrecord, figures, ?_, hcomputed, ?_⟩
  · rw [show (s.merge u).figures = (u.figures <|> s.figures) from rfl, hfigures]
    exact hsome
  · rw [show (s.merge u).document = (u.document <|> s.document) from rfl, hdocument]
    exact hspelled

end Nodes

/-! ## Runs -/

section Runs

variable {w : Outside} {applicationId : Value}

/-- The maker's calls among the visits of a run. -/
def calls (visits : List (Node × State)) : ℕ := makerCalls (visits.map Prod.fst)

/-- What a node finds. -/
def Found (w : Outside) (applicationId : Value) (k : ℕ) (s : State) : Node → Prop
  | .route => k = 0 ∧ s = { applicationId := some applicationId, attempts := some 0 }
  | .compute => k = 0 ∧ OnRecord w applicationId ∧ offerRequest s = asked w applicationId ∧
      s.blocked = some false ∧ s.attempts = some 0
  | .assemble => k < maxAssembleAttempts ∧ OnRecord w applicationId ∧
      HasFigures w applicationId s ∧ s.attempts = some k ∧
      (s.isBlocked = true → s.reason = some .renderMismatch)
  | .verify => k ≤ maxAssembleAttempts ∧ OnRecord w applicationId ∧
      HasFigures w applicationId s ∧ s.attempts = some k ∧
      (s.isBlocked = true → s.reason = some .renderMismatch)
  | .narrate | .persist =>
      k ≤ maxAssembleAttempts ∧ Passed w applicationId s ∧ s.blocked = some false

/-- What holds at the visits of a run and of its outcome. -/
def assertions (w : Outside) (applicationId : Value) : Graph.Assertions Node State Raised where
  before past n s := Found w applicationId (calls past) s n
  after past s := calls past ≤ maxAssembleAttempts ∧
    (s.isBlocked = false → Passed w applicationId s)
  raised past _ := calls past ≤ maxAssembleAttempts

theorem calls_cons (n : Node) (s : State) (past : List (Node × State)) :
    calls ((n, s) :: past) = calls past + if n = .assemble then 1 else 0 := by
  unfold calls makerCalls
  rw [List.map_cons, List.count_cons]
  cases n <;> rfl

theorem visit_ok {past : List (Node × State)} {n : Node} {s s' : State}
    (h : (graph w).visit past n s = .ok s') :
    ∃ u, node w (past.map Prod.fst) s n = .ok u ∧ s' = s.merge u := by
  cases hu : node w (past.map Prod.fst) s n with
  | error e =>
    rw [show (graph w).visit past n s = (node w _ s n).map s.merge from rfl, hu] at h
    cases h
  | ok u =>
    rw [show (graph w).visit past n s = (node w _ s n).map s.merge from rfl, hu] at h
    cases h
    exact ⟨u, rfl, rfl⟩

theorem merge_blocked (s u : State) : (s.merge u).blocked = (u.blocked <|> s.blocked) := rfl

theorem isBlocked_iff {s : State} : s.isBlocked = true ↔ s.blocked = some true := by
  unfold State.isBlocked
  cases s.blocked with
  | none => simp
  | some b => simp

/-- A block is merged into the state. -/
theorem merge_isBlocked {s u : State} (h : u.blocked = some true) :
    (s.merge u).isBlocked = true := by
  rw [isBlocked_iff, merge_blocked, h]
  rfl

/-- **Every node keeps the assertions.** -/
theorem keeps (w : Outside) (applicationId : Value) :
    (graph w).Keeps (assertions w applicationId) where
  on := by
    rintro past n s s' n' hbefore hvisit hnext
    obtain ⟨u, hu, rfl⟩ := visit_ok hvisit
    change Found w applicationId (calls ((n, s) :: past)) (s.merge u) n'
    rw [calls_cons]
    cases n with
    | route =>
      obtain ⟨hk, hs⟩ := hbefore
      rcases route_ok hs hu with ⟨hblocked, -⟩ | ⟨hblocked, hattempts, hrecord, hasked⟩
      · rw [show (graph w).next .route (s.merge u) = _ from if_pos (merge_isBlocked hblocked)]
          at hnext
        cases hnext
      · have hfree : (s.merge u).blocked = some false := by rw [merge_blocked, hblocked]; rfl
        rw [show (graph w).next .route (s.merge u) = _ from
          if_neg (by rw [isBlocked_iff, hfree]; nofun)] at hnext
        cases hnext
        refine ⟨hk, hrecord, hasked, hfree, ?_⟩
        rw [show (s.merge u).attempts = (u.attempts <|> s.attempts) from rfl, hattempts]
        rfl
    | compute =>
      obtain ⟨hk, hrecord, hasked, hfree, hattempts⟩ := hbefore
      rcases compute_ok hasked hu with ⟨hblocked, -, -⟩ |
        ⟨⟨figures, hfigures, hcomputed⟩, hblocked, hsame⟩
      · rw [show (graph w).next .compute (s.merge u) = _ from if_pos (merge_isBlocked hblocked)]
          at hnext
        cases hnext
      · have hfree' : (s.merge u).blocked = some false := by
          rw [merge_blocked, hblocked, hfree]
          rfl
        have hopen : ¬ (s.merge u).isBlocked = true := by rw [isBlocked_iff, hfree']; nofun
        rw [show (graph w).next .compute (s.merge u) = _ from if_neg hopen] at hnext
        cases hnext
        refine ⟨?_, hrecord, ⟨figures, ?_, hcomputed⟩, ?_, fun h => absurd h hopen⟩
        · rw [hk]
          decide
        · rw [show (s.merge u).figures = (u.figures <|> s.figures) from rfl, hfigures]
          rfl
        · rw [show (s.merge u).attempts = (u.attempts <|> s.attempts) from rfl, hsame, hattempts,
            hk]
          rfl
    | assemble =>
      obtain ⟨hk, hrecord, hfigures, hattempts, hreason⟩ := hbefore
      obtain ⟨document, rfl⟩ := assemble_ok hu
      cases hnext
      refine ⟨hk, hrecord, hfigures, ?_, hreason⟩
      rw [hattempts]
      rfl
    | verify =>
      obtain ⟨hk, hrecord, hfigures, hattempts, hreason⟩ := hbefore
      rcases verify_ok hu with ⟨fields, rfl⟩ | ⟨rfl, figures, hsome, hspelled⟩
      · replace hnext :
            next .verify (s.merge (blocked .renderMismatch (.fields fields))) = some n' := hnext
        dsimp only [next] at hnext
        rw [if_neg (by rw [merge_isBlocked rfl]; nofun)] at hnext
        split at hnext
        · rename_i hagain
          cases hnext
          have hless : calls past < maxAssembleAttempts := by
            have h := hagain.2
            rw [show (s.merge _).attempts = s.attempts from rfl, hattempts] at h
            exact h
          exact ⟨hless, hrecord, hfigures, hattempts, fun _ => rfl⟩
        · cases hnext
      · cases hnext
        obtain ⟨figures', hsome', hcomputed⟩ := hfigures
        cases hsome.symm.trans hsome'
        exact ⟨hk, ⟨hrecord, figures, hsome, hcomputed, hspelled⟩, rfl⟩
    | narrate =>
      obtain ⟨hk, hpassed, hfree⟩ := hbefore
      obtain ⟨narration, degraded, rfl⟩ := narrate_ok hu
      cases hnext
      exact ⟨hk, hpassed, hfree⟩
    | persist => cases hnext
  ends := by
    rintro past n s s' hbefore hvisit hnext
    obtain ⟨u, hu, rfl⟩ := visit_ok hvisit
    change calls ((n, s) :: past) ≤ _ ∧ _
    rw [calls_cons]
    cases n with
    | route =>
      obtain ⟨hk, hs⟩ := hbefore
      refine ⟨by rw [hk]; decide, fun hopen => ?_⟩
      rw [show (graph w).next .route (s.merge u) = _ from if_neg (by rw [hopen]; nofun)] at hnext
      cases hnext
    | compute =>
      obtain ⟨hk, -⟩ := hbefore
      refine ⟨by rw [hk]; decide, fun hopen => ?_⟩
      rw [show (graph w).next .compute (s.merge u) = _ from if_neg (by rw [hopen]; nofun)] at hnext
      cases hnext
    | assemble => cases hnext
    | verify =>
      refine ⟨hbefore.1, fun hopen => ?_⟩
      rw [show (graph w).next .verify (s.merge u) = _ from if_pos hopen] at hnext
      cases hnext
    | narrate => cases hnext
    | persist =>
      obtain ⟨hk, hpassed, -⟩ := hbefore
      exact ⟨hk, fun _ => hpassed.merge (persist_ok hu).1 (persist_ok hu).2.1⟩
  raises := by
    rintro past n s e hbefore -
    change calls ((n, s) :: past) ≤ _
    rw [calls_cons]
    cases n with
    | route =>
      rw [hbefore.1]
      decide
    | compute =>
      rw [hbefore.1]
      decide
    | assemble => exact hbefore.1
    | verify => exact hbefore.1
    | narrate => exact hbefore.1
    | persist => exact hbefore.1

/-- The steps that are left. -/
def stepsLeft : Node → State → ℕ
  | .route, _ => 9
  | .compute, _ => 8
  | .assemble, s => 3 + 2 * (maxAssembleAttempts - s.attempts.getD 0)
  | .verify, s => 4 + 2 * (maxAssembleAttempts - s.attempts.getD 0)
  | .narrate, _ => 2
  | .persist, _ => 1

theorem stepsLeft_visit {past : List (Node × State)} {n n' : Node} {s s' : State}
    (hbefore : (assertions w applicationId).before past n s)
    (hvisit : (graph w).visit past n s = .ok s') (hnext : (graph w).next n s' = some n') :
    stepsLeft n' s' < stepsLeft n s := by
  have hafter := (keeps w applicationId).on hbefore hvisit hnext
  cases n with
  | route =>
    unfold graph next at hnext
    dsimp only at hnext
    split at hnext
    · cases hnext
    · cases hnext
      exact Nat.lt_succ_self 8
  | compute =>
    unfold graph next at hnext
    dsimp only at hnext
    split at hnext
    · cases hnext
    · cases hnext
      change 3 + 2 * (2 - _) < 8
      omega
  | assemble =>
    cases hnext
    have hk := hafter.2.2.2.1
    rw [calls_cons] at hk
    have hattempts := hbefore.2.2.2.1
    have hless := hbefore.1
    change 4 + 2 * (maxAssembleAttempts - s'.attempts.getD 0) <
      3 + 2 * (maxAssembleAttempts - s.attempts.getD 0)
    rw [hk, hattempts, if_pos rfl, Option.getD_some, Option.getD_some]
    unfold maxAssembleAttempts at hless ⊢
    omega
  | verify =>
    have hattempts := hbefore.2.2.2.1
    unfold graph next at hnext
    dsimp only at hnext
    split at hnext
    · cases hnext
      change 2 < 4 + _
      omega
    · split at hnext
      · cases hnext
        have hk := hafter.2.2.2.1
        rw [calls_cons, if_neg (by decide)] at hk
        change 3 + 2 * (maxAssembleAttempts - s'.attempts.getD 0) <
          4 + 2 * (maxAssembleAttempts - s.attempts.getD 0)
        rw [hk, hattempts, add_zero]
        omega
      · cases hnext
  | narrate =>
    cases hnext
    exact Nat.lt_succ_self 1
  | persist => cases hnext

theorem before_route (w : Outside) (applicationId : Value) :
    (assertions w applicationId).before [] .route
      { applicationId := some applicationId, attempts := some 0 } := ⟨rfl, rfl⟩

/-- **What every run does**: its outcome and its visits keep the assertions. -/
theorem invoke_gated (w : Outside) (applicationId : Value) :
    (assertions w applicationId).Holds (invoke w applicationId) ∧
      ∀ x ∈ (invoke w applicationId).visits,
        ∃ past, Found w applicationId (calls past) x.2 x.1 := by
  obtain ⟨hout, hall⟩ := Graph.run_spec (keeps w applicationId) recursionLimit
    (before_route w applicationId)
  exact ⟨hout, fun x hx => (hall x hx).resolve_left List.not_mem_nil⟩

/-- **Every run ends**, well within the limit. -/
theorem invoke_ends (w : Outside) (applicationId : Value) :
    (invoke w applicationId).outcome.isSome = true :=
  Graph.run_ends (keeps w applicationId) stepsLeft stepsLeft_visit recursionLimit
    (before_route w applicationId) (show 9 < 25 by decide)

/-! ## The narration -/

/-- The state without the narration. -/
def State.quiet (s : State) : State := { s with narration := none, narrationDegraded := none }

/-- Two calls that return both or raise the same. -/
def RaiseAlike {α : Type} (x y : Except Text α) : Prop :=
  x.map (fun _ => ()) = y.map fun _ => ()

/-- The same outside with another checker, and another judgement of what it says. -/
def withChecker (w : Outside) (checker : CheckerRequest → Except Text (Option Narration))
    (grounded : Text → Value → Value → Bool) : Outside :=
  { w with checker := checker, grounded := grounded }

variable {checker : CheckerRequest → Except Text (Option Narration)}
  {grounded : Text → Value → Value → Bool} {s s' : State}

theorem quiet_iff : s.quiet = s'.quiet ↔
    s' = { s with narration := s'.narration, narrationDegraded := s'.narrationDegraded } := by
  cases s
  cases s'
  simp only [State.quiet, State.mk.injEq]
  constructor
  · rintro ⟨rfl, rfl, rfl, rfl, rfl, rfl, rfl, rfl, rfl, -, -, rfl, rfl, rfl, rfl, rfl, rfl, rfl⟩
    simp
  · rintro ⟨rfl, rfl, rfl, rfl, rfl, rfl, rfl, rfl, rfl, -, -, rfl, rfl, rfl, rfl, rfl, rfl, rfl⟩
    simp

theorem quiet_merge {u u' : State} (hs : s.quiet = s'.quiet) (hu : u.quiet = u'.quiet) :
    (s.merge u).quiet = (s'.merge u').quiet := by
  rw [quiet_iff.mp hs, quiet_iff.mp hu]
  rfl

/-- A node that does not narrate reads neither the checker nor the narration. -/
theorem node_quiet {past : List Node} {n : Node} (hn : n ≠ .narrate) (h : s.quiet = s'.quiet) :
    node (withChecker w checker grounded) past s' n = node w past s n := by
  rw [quiet_iff.mp h]
  cases n with
  | narrate => exact absurd rfl hn
  | _ => rfl

theorem brief_quiet (w : Outside) (termMonths annualRate : Value) (reply : Option Narration) :
    (brief w termMonths annualRate reply).quiet = {} := by
  obtain ⟨narration, degraded, hbrief⟩ := brief_eq w termMonths annualRate reply
  rw [hbrief]
  rfl

/-- The narrating node writes the narration, or raises as the other one does. -/
theorem narrate_quiet (grounded : Text → Value → Value → Bool)
    (hraise : ∀ r, RaiseAlike (w.checker r) (checker r))
    (h : s.quiet = s'.quiet) :
    (∃ e, narrate w s = .error e ∧ narrate (withChecker w checker grounded) s' = .error e) ∨
      ∃ u u', narrate w s = .ok u ∧ narrate (withChecker w checker grounded) s' = .ok u' ∧
        u.quiet = u'.quiet := by
  rw [quiet_iff.mp h]
  unfold narrate
  dsimp only
  cases need s.applicationId with
  | error e => exact .inl ⟨e, rfl, rfl⟩
  | ok applicationId =>
  cases need s.termMonths with
  | error e => exact .inl ⟨e, rfl, rfl⟩
  | ok termMonths =>
  cases need s.annualRate with
  | error e => exact .inl ⟨e, rfl, rfl⟩
  | ok annualRate =>
  cases need s.checksPassed with
  | error e => exact .inl ⟨e, rfl, rfl⟩
  | ok checksPassed =>
  have halike := hraise ⟨applicationId, termMonths, annualRate, checksPassed⟩
  change _ = (Except.map _ ((withChecker w checker grounded).checker _)) at halike
  unfold Bind.bind Monad.toBind Except.instMonad Except.bind
  dsimp only
  cases hreply : w.checker ⟨applicationId, termMonths, annualRate, checksPassed⟩ with
  | error cause =>
    rw [hreply] at halike
    cases hreply' : (withChecker w checker grounded).checker
        ⟨applicationId, termMonths, annualRate, checksPassed⟩ with
    | error cause' =>
      rw [hreply'] at halike
      cases halike
      exact .inl ⟨_, rfl, rfl⟩
    | ok reply' =>
      rw [hreply'] at halike
      cases halike
  | ok reply =>
    rw [hreply] at halike
    cases hreply' : (withChecker w checker grounded).checker
        ⟨applicationId, termMonths, annualRate, checksPassed⟩ with
    | error cause' =>
      rw [hreply'] at halike
      cases halike
    | ok reply' =>
      refine .inr ⟨_, _, rfl, rfl, ?_⟩
      rw [brief_quiet, brief_quiet]

/-- A visit differs in the narration only. -/
theorem visit_quiet (hraise : ∀ r, RaiseAlike (w.checker r) (checker r))
    {past past' : List (Node × State)} {n : Node} (hpast : past.map Prod.fst = past'.map Prod.fst)
    (h : s.quiet = s'.quiet) :
    Graph.Alike (fun t t' : State => t.quiet = t'.quiet) (some ((graph w).visit past n s))
      (some ((graph (withChecker w checker grounded)).visit past' n s')) := by
  unfold graph
  dsimp only
  by_cases hn : n = .narrate
  · subst hn
    rcases narrate_quiet grounded hraise h with ⟨e, hx, hx'⟩ | ⟨u, u', hx, hx', hu⟩
    · unfold node
      rw [hx, hx']
      rfl
    · unfold node
      rw [hx, hx']
      exact quiet_merge h hu
  · rw [← hpast, node_quiet hn h]
    cases node w (past.map Prod.fst) s n with
    | error e => rfl
    | ok u => exact quiet_merge h rfl

theorem next_quiet (n : Node) (h : s.quiet = s'.quiet) : next n s = next n s' := by
  rw [quiet_iff.mp h]
  rfl

/-- How an answer is blocked. -/
def Answer.block : Answer → Option (AnswerReason × Option Detail × ℕ)
  | .blocked reason detail attempts _ _ => some (reason, detail, attempts)
  | .ok .. => none

/-- **What the checker says changes nothing but the narration**: with another brief and another
judgement of it, the run raises the same or is blocked the same. -/
theorem narration_quiet (hraise : ∀ r, RaiseAlike (w.checker r) (checker r)) :
    (run (withChecker w checker grounded) applicationId).map Answer.block =
      (run w applicationId).map Answer.block := by
  have halike : Graph.Alike (fun t t' : State => t.quiet = t'.quiet)
      (invoke w applicationId).outcome
      (invoke (withChecker w checker grounded) applicationId).outcome :=
    Graph.run_congr (graph w) (graph (withChecker w checker grounded))
      (fun hpast h => visit_quiet hraise hpast h) (fun h => next_quiet _ h) recursionLimit rfl rfl
  unfold run
  cases hout : (invoke w applicationId).outcome with
  | none =>
    rw [hout] at halike
    cases hout' : (invoke (withChecker w checker grounded) applicationId).outcome with
    | none => rfl
    | some x =>
      rw [hout'] at halike
      exact halike.elim
  | some x =>
    rw [hout] at halike
    cases hout' : (invoke (withChecker w checker grounded) applicationId).outcome with
    | none =>
      rw [hout'] at halike
      cases x <;> exact halike.elim
    | some x' =>
      rw [hout'] at halike
      cases x with
      | error e =>
        cases x' with
        | error e' =>
          cases halike
          rfl
        | ok t' => exact halike.elim
      | ok t =>
        cases x' with
        | error e' => exact halike.elim
        | ok t' =>
          change Except.ok _ = Except.ok _
          rw [quiet_iff.mp halike]
          unfold answer State.isBlocked
          dsimp only
          split <;> rfl

/-! ## The pipeline -/

/-- No node is visited once the run is blocked for good. -/
theorem Found.not_blocked {k : ℕ} {s : State} {n : Node} (h : Found w applicationId k s n) :
    ¬ BlockedForGood s := by
  rintro ⟨hblocked, hreason⟩
  cases n with
  | route =>
    rw [h.2] at hblocked
    cases hblocked
  | compute =>
    rw [isBlocked_iff, h.2.2.2.1] at hblocked
    cases hblocked
  | assemble => exact hreason (h.2.2.2.2 hblocked)
  | verify => exact hreason (h.2.2.2.2 hblocked)
  | narrate =>
    rw [isBlocked_iff, h.2.2] at hblocked
    cases hblocked
  | persist =>
    rw [isBlocked_iff, h.2.2] at hblocked
    cases hblocked

/-- The outcome of a run is a state or an exception. -/
theorem invoke_outcome (w : Outside) (applicationId : Value) :
    ∃ x, (invoke w applicationId).outcome = some x :=
  Option.isSome_iff_exists.mp (invoke_ends w applicationId)

theorem invoke_calls (w : Outside) (applicationId : Value) :
    calls (invoke w applicationId).visits ≤ maxAssembleAttempts := by
  obtain ⟨x, hx⟩ := invoke_outcome w applicationId
  have hholds := (invoke_gated w applicationId).1
  unfold Graph.Assertions.Holds at hholds
  rw [hx] at hholds
  cases x with
  | ok s => exact hholds.1
  | error e => exact hholds

/-- A run that answers `ok` has passed the gate with the document it answers. -/
theorem ok_passed {document : Option Value} {narration : Option Narration} {degraded : Bool}
    {disclosure provenance : Option Value} {attempts : ℕ}
    (h : run w applicationId =
      .ok (.ok document narration degraded disclosure provenance attempts)) :
    ∃ s, (invoke w applicationId).outcome = some (.ok s) ∧ s.document = document ∧
      Passed w applicationId s := by
  obtain ⟨x, hx⟩ := invoke_outcome w applicationId
  have hholds := (invoke_gated w applicationId).1
  unfold Graph.Assertions.Holds at hholds
  unfold run at h
  rw [hx] at hholds h
  cases x with
  | error e => cases h
  | ok s =>
    have hanswer := Except.ok.inj h
    unfold answer at hanswer
    split at hanswer
    · cases hanswer
    · rename_i hopen
      cases hanswer
      exact ⟨s, hx, rfl, hholds.2 (by simpa using hopen)⟩

end Runs

/-- **The gate cannot be talked past**, whatever is gathered, computed and replied: a run reaches
`persist`, or answers `ok`, only with an approval on record and a document that spells the figures
of the offer it asked for; the maker is called at most twice, and nothing is visited once the run is
blocked for good; the checker's reply does not change whether and how it is blocked; and the run
ends. -/
theorem pipeline_gated (w : Outside) (applicationId : Value) :
    (∀ s, (.persist, s) ∈ (invoke w applicationId).visits → Passed w applicationId s) ∧
    (∀ document narration degraded disclosure provenance attempts,
      run w applicationId =
        .ok (.ok document narration degraded disclosure provenance attempts) →
      ∃ s, (invoke w applicationId).outcome = some (.ok s) ∧ s.document = document ∧
        Passed w applicationId s) ∧
    calls (invoke w applicationId).visits ≤ maxAssembleAttempts ∧
    (∀ x ∈ (invoke w applicationId).visits, ¬ BlockedForGood x.2) ∧
    (∀ checker grounded, (∀ r, RaiseAlike (w.checker r) (checker r)) →
      (run (withChecker w checker grounded) applicationId).map Answer.block =
        (run w applicationId).map Answer.block) ∧
    (invoke w applicationId).outcome.isSome = true := by
  refine ⟨fun s hs => ?_, fun _ _ _ _ _ _ h => ok_passed h, invoke_calls w applicationId,
    fun x hx => ?_, fun _ _ hraise => narration_quiet hraise, invoke_ends w applicationId⟩
  · obtain ⟨past, hfound⟩ := (invoke_gated w applicationId).2 _ hs
    exact hfound.2.1
  · obtain ⟨past, hfound⟩ := (invoke_gated w applicationId).2 x hx
    exact hfound.not_blocked

/-! ## A run with a second attempt -/

/-- The figures of a computed offer, the APR given. -/
def sampleFigures (apr : String) : Value :=
  .dict [("apr".toList, .str apr.toList), ("finance_charge".toList, .str "73.81".toList),
    ("amount_financed".toList, .str "970.00".toList),
    ("total_of_payments".toList, .str "1043.81".toList),
    ("monthly_payment".toList, .str "86.98".toList)]

/-- Application 1 is approved; the maker misspells the APR once. -/
def misspelledOnce : Outside where
  gather _ := .ok
    { outcome := some (.str "approve".toList), decisionEventId := some (.int 7),
      principal := some (.int 1000), annualRate := some (.str "7.99".toList),
      termMonths := some (.int 12) }
  computeOffer r := match r.applicationId, r.decisionEventId with
    | .int 1, .int 7 => .ok (.dict [("disclosure".toList, sampleFigures "13.760"),
        ("offer_id".toList, .int 3), ("decision_event_id".toList, .none)])
    | _, _ => .error "no such offer".toList
  maker calls _ :=
    .ok (.dict [("figures".toList, sampleFigures (if calls = 0 then "13.76" else "13.760"))])
  checker _ := .ok none
  grounded _ _ _ := true
  persistDisclosure _ := .ok (.dict [("disclosure_id".toList, .int 5)])
  readProvenance _ := .ok (.dict [("chain_complete".toList, .bool true)])
  containerText _ := []

/-- The maker is called twice, the document of its second call is persisted, and it has passed. -/
theorem pipeline_gated_second : calls (invoke misspelledOnce (.int 1)).visits = 2 ∧
    ∃ s, (Node.persist, s) ∈ (invoke misspelledOnce (.int 1)).visits ∧
      s.document = some (.dict [("figures".toList, sampleFigures "13.760")]) ∧
      Passed misspelledOnce (.int 1) s := by
  obtain ⟨s, past, hvisits, hdocument⟩ : ∃ s past,
      (invoke misspelledOnce (.int 1)).visits = (Node.persist, s) :: past ∧
        s.document = some (.dict [("figures".toList, sampleFigures "13.760")]) :=
    ⟨_, _, rfl, rfl⟩
  have hmem : (Node.persist, s) ∈ (invoke misspelledOnce (.int 1)).visits :=
    hvisits ▸ List.mem_cons_self
  exact ⟨rfl, s, hmem, hdocument, (pipeline_gated misspelledOnce (.int 1)).1 s hmem⟩

end Meridian.Coordinator
