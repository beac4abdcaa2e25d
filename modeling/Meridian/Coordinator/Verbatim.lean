import Meridian.Coordinator.Gate
import Meridian.Disclosure.Repaid
import Meridian.Disclosure.Shape

/-!
# A document that copies the computed figures

The figures of an offer go through floats, JSON and fixed-point texts before a document has them. A
document that copies those texts passes `_verify`, and `create_disclosure` accepts it on the same inputs
exactly if the payments and the fee cover the principal; from `10 ^ -8` per cent on they do
(`verbatim_accepted_iff`). At a rate of `7.2e-25` per cent the payments are too low by two fifths, and a
charge with a minus is no figure (`tiny_rate_refused`).
-/

namespace Meridian.Coordinator

open Python Disclosure

/-- What `create_offer` answers of an offer: its figures are floats. -/
def Presents (offer : Value) (b : Box Double) : Prop :=
  ∃ disclosure, disclosureOf offer = .ok disclosure ∧
    ∀ f, disclosure.get (figureKey f) = .ok (.float (figure b f))

/-- `_verify` lets a document pass with these figures. -/
def Verified (figures : Option (Box Text)) (document : Value) : Prop :=
  ∀ s : State, s.figures = figures → s.document = some document →
    ∃ u, verify s = .ok u ∧ u.isBlocked = false

section Nodes

variable {w : Outside} {s u : State} {b : Box Double}

theorem figureTexts_presented {disclosure : Value}
    (h : ∀ f, disclosure.get (figureKey f) = .ok (.float (figure b f))) :
    figureTexts w disclosure = .ok ((offerTexts b).map some) := by
  simp only [figureTexts, boxOf, h, bind, Except.bind]
  rfl

/-- `_compute` writes the texts of the offer's figures. -/
theorem compute_presented (hoffer : ∀ q o, w.computeOffer q = .ok o → Presents o b)
    (h : compute w s = .ok u) : u.figures = some (offerTexts b) := by
  obtain ⟨_, -, h⟩ := of_bind_ok h
  obtain ⟨_, -, h⟩ := of_bind_ok h
  obtain ⟨_, -, h⟩ := of_bind_ok h
  obtain ⟨_, -, h⟩ := of_bind_ok h
  obtain ⟨offer, hanswer, h⟩ := of_bind_ok h
  obtain ⟨disclosure, hdisclosure, h⟩ := of_bind_ok h
  obtain ⟨texts, htexts, h⟩ := of_bind_ok h
  obtain ⟨disclosure', hdisclosure', hfigures⟩ := hoffer _ _ (fromOutside_ok hanswer)
  cases (reading_ok hdisclosure).symm.trans hdisclosure'
  cases (reading_ok htexts).symm.trans (figureTexts_presented hfigures)
  have hnone : (figureFields.filter fun f => (figure ((offerTexts b).map some) f).isNone) = [] :=
    List.filter_eq_nil_iff.mpr fun f _ => by cases f <;> simp [figure, Box.map]
  rw [hnone] at h
  obtain ⟨_, -, h⟩ := of_bind_ok h
  obtain ⟨_, -, h⟩ := of_bind_ok h
  cases h
  rfl

theorem mismatched_of_spelled {document : Value} {figures : Box Text} (h : Spelled document figures)
    (fs : List Figure) : mismatched document figures fs = .ok [] := by
  induction fs with
  | nil => rfl
  | cons f fs ih =>
    have hself : (Value.str (figure figures f)).isStr (figure figures f) = true := Value.isStr_iff.mpr rfl
    simp only [mismatched, h f, ih, bind, Except.bind, hself, if_true]
    rfl

theorem verified_of_spelled {document : Value} {figures : Box Text} (h : Spelled document figures) :
    Verified (some figures) document := by
  intro s hfigures hdocument
  refine ⟨{ blocked := some false, reason := some .cleared, checksPassed := some figureFields.length },
    ?_, rfl⟩
  simp only [verify, hfigures, hdocument, need, Option.getD_some, mismatched_of_spelled h, reading, bind,
    Except.bind]
  rfl

/-- What the record reads as a document spells its figures. -/
theorem spelled_of_document {document : Value} {doc : Document}
    (h : disclosureDocument document = some doc) : Spelled document doc.figures := by
  obtain ⟨members, figures, rfl, -, -, hfigures, hdoc, -⟩ := disclosureDocument_eq_some.mp h
  obtain ⟨texts, rfl, -, hapr, hcharge, hfinanced, htotal, hmonthly⟩ := documentFigures_eq_some.mp hdoc
  have hmembers : (Value.dict members).orElse (.dict []) = .dict members := by
    cases members with
    | nil => cases hfigures
    | cons m members => rfl
  have htexts : (Value.dict texts).orElse (.dict []) = .dict texts := by
    cases texts with
    | nil => cases hapr
    | cons m texts => rfl
  have hrendered : renderedFigures (.dict members) = .ok (.dict texts) := by
    simp only [renderedFigures, hmembers, Value.get, hfigures, Option.getD_some, htexts, bind,
      Except.bind]
    rfl
  intro f
  rw [rendered, hrendered]
  cases f with
  | apr => exact congrArg (Except.ok ∘ (Option.getD · .none)) hapr
  | financeCharge => exact congrArg (Except.ok ∘ (Option.getD · .none)) hcharge
  | monthlyPayment => exact congrArg (Except.ok ∘ (Option.getD · .none)) hmonthly
  | amountFinanced => exact congrArg (Except.ok ∘ (Option.getD · .none)) hfinanced
  | totalOfPayments => exact congrArg (Except.ok ∘ (Option.getD · .none)) htotal

end Nodes

/-- **A document that copies the computed figures** passes the figure gate, and the record accepts it on
the same inputs exactly if the payments and the fee cover the principal, as they do from a rate of
`10 ^ -8` per cent on. -/
theorem verbatim_accepted_iff {s : FeeSchedule} {t : Terms} {b : Box Double}
    (hb : createdOffer s t = .ok b) {w : Outside} {state u : State}
    (hoffer : ∀ q o, w.computeOffer q = .ok o → Presents o b) (hcompute : compute w state = .ok u)
    {document : Value} {doc : Document} (hdoc : disclosureDocument document = some doc)
    (hcopy : u.figures = some doc.figures) :
    (1 / 10 ^ 8 ≤ toDecimal t.annualRate → Covers s t) ∧
      (Verified u.figures document ∧ Accepts s t (b.map some) doc ↔ Covers s t) := by
  have htexts := compute_presented hoffer hcompute
  have hfigures : doc.figures = offerTexts b := Option.some.inj (hcopy.symm.trans htexts)
  refine ⟨covers_of_rate, ?_⟩
  rw [accepts_iff hb hfigures, and_iff_right_iff_imp]
  intro _
  rw [hcopy]
  exact verified_of_spelled (spelled_of_document hdoc)

/-! ## Two offers -/

/-- An answer of `create_offer`. -/
def offerAnswer (b : Box Double) : Value :=
  .dict [("offer_id".toList, .int 1), ("decision_event_id".toList, .int 1),
    ("disclosure".toList, .dict (figureFields.map fun f => (figureKey f, .float (figure b f))))]

/-- A document without prose. -/
def copied (figures : Box Text) : Value :=
  .dict [("heading".toList, .str []),
    ("figures".toList, .dict (figureFields.map fun f => (figureKey f, .str (figure figures f)))),
    ("payment_terms".toList, .str []), ("prepayment".toList, .str [])]

/-- Services that answer with an offer. -/
def offering (b : Box Double) : Outside where
  gather := fun _ => .error []
  computeOffer := fun _ => .ok (offerAnswer b)
  maker := fun _ q => .ok (copied q.figures)
  checker := fun _ => .ok none
  grounded := fun _ _ _ => true
  persistDisclosure := fun _ => .error []
  readProvenance := fun _ => .error []
  containerText := fun _ => []

/-- A state past `route`. -/
def routed : State where
  applicationId := some (.int 1)
  principal := some (.int 1000)
  annualRate := some (.float (.ofRat (799 / 100)))
  termMonths := some (.int 12)

theorem presents_offerAnswer (b : Box Double) : Presents (offerAnswer b) b :=
  ⟨_, rfl, fun f => by cases f <;> rfl⟩

theorem compute_offering (b : Box Double) : ∃ u, compute (offering b) routed = .ok u ∧
    u.figures = some (offerTexts b) :=
  ⟨_, rfl, rfl⟩

theorem disclosureDocument_copied (figures : Box Text) :
    ∃ doc, disclosureDocument (copied figures) = some doc ∧ doc.figures = figures :=
  ⟨_, rfl, rfl⟩

theorem verbatim_accepted_whole : ∃ b u doc, createdOffer publishedSchedule wholeTerms = .ok b ∧
    compute (offering b) routed = .ok u ∧ disclosureDocument (copied (offerTexts b)) = some doc ∧
    Verified u.figures (copied (offerTexts b)) ∧
    Accepts publishedSchedule wholeTerms (b.map some) doc := by
  obtain ⟨r, hr, -⟩ := exists_ok whole_returns
  obtain ⟨b, hb⟩ := exists_createdOffer (createRecord_ok hr)
  obtain ⟨u, hu, hfigures⟩ := compute_offering b
  obtain ⟨doc, hdoc, hcopy⟩ := disclosureDocument_copied (offerTexts b)
  obtain ⟨hrate, hiff⟩ := verbatim_accepted_iff hb
    (fun q o ho => by cases ho; exact presents_offerAnswer b) hu hdoc (by rw [hfigures, hcopy])
  obtain ⟨hverified, haccepts⟩ := hiff.mpr (hrate (by decide +kernel))
  exact ⟨b, u, doc, hb, hu, hdoc, hverified, haccepts⟩

/-- 1000 at a rate of `7.2e-25` per cent over four years. -/
def tinyTerms : Terms where
  principal := wholeTerms.principal
  annualRate := ⟨false, 7840105733858422, -133, by decide⟩
  termMonths := 48
  principal_bounds := wholeTerms.principal_bounds
  rate_bounds := by decide +kernel
  term_bounds := fourYears_bounds

/-- The offer is created with a finance charge of `-370.00`, and no document that copies its figures is
accepted. -/
theorem tiny_rate_refused : ∃ b, createdOffer publishedSchedule tinyTerms = .ok b ∧
    b.financeCharge.fixed 2 = "-370.00".toList ∧
    ∀ doc : Document, doc.figures = offerTexts b →
      ¬ Accepts publishedSchedule tinyTerms (b.map some) doc := by
  obtain ⟨b, hb, hcharge⟩ := exists_ok (show returns (createdOffer publishedSchedule tinyTerms)
    (fun b => b.financeCharge.fixed 2 = "-370.00".toList) = true by decide +kernel)
  refine ⟨b, hb, hcharge, fun doc hcopy haccepts => ?_⟩
  obtain ⟨interest, hinterest, hnegative⟩ := exists_ok (show returns
    (interestCharge .default (toDecimal tinyTerms.principal) (toDecimal tinyTerms.annualRate)
      tinyTerms.termMonths) (fun x => x < -30) = true by decide +kernel)
  have hfee : prepaidFinanceCharge .default (toDecimal publishedSchedule.originationFeePct)
      (toDecimal tinyTerms.principal) = .ok 30 := by decide +kernel
  have hcovers := (accepts_iff hb hcopy).mp haccepts interest 30 hinterest hfee
  linarith

end Meridian.Coordinator
