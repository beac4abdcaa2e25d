import Meridian.Disclosure.Record
import Meridian.Python.Value

/-!
# The document of a request

`DocumentFigures` and `DisclosureDocument` as pydantic reads them from the values of a JSON body: a
field has to be there and be a string, and no other key is allowed. `disclosureDocument` is none
where the request is refused with a 422; `disclosureDocument_eq_some` says what it takes.
-/

namespace Meridian.Disclosure

open Python

/-- A required `str` field. -/
def textField (members : List (Text × Value)) (name : String) : Option Text :=
  match members.lookup name.toList with
  | some (.str t) => some t
  | _ => none

/-- `extra="forbid"` -/
def forbidsExtra (fields : List String) (members : List (Text × Value)) : Bool :=
  members.all fun m => (fields.map String.toList).contains m.1

/-- `pattern=r"^\D*$"` -/
def digitFree (t : Text) : Bool := t.all fun c => (digit? c).isNone

theorem digitFree_append (t u : Text) : digitFree (t ++ u) = (digitFree t && digitFree u) :=
  List.all_append

/-- The fields of `DocumentFigures`. -/
def figureNames : List String :=
  ["apr", "finance_charge", "amount_financed", "total_of_payments", "monthly_payment"]

/-- `DocumentFigures` -/
def documentFigures : Value → Option (Box Text)
  | .dict members =>
    if forbidsExtra figureNames members then do
      let apr ← textField members "apr"
      let financeCharge ← textField members "finance_charge"
      let amountFinanced ← textField members "amount_financed"
      let totalOfPayments ← textField members "total_of_payments"
      let monthlyPayment ← textField members "monthly_payment"
      pure ⟨apr, financeCharge, monthlyPayment, amountFinanced, totalOfPayments⟩
    else none
  | _ => none

/-- The fields of `DisclosureDocument`. -/
def documentNames : List String := ["heading", "figures", "payment_terms", "prepayment"]

/-- The prose of a document: `pattern` and `max_length`. -/
def proseFits (heading paymentTerms prepayment : Text) : Bool :=
  digitFree (heading ++ paymentTerms ++ prepayment) && heading.length ≤ 120 &&
    paymentTerms.length ≤ 600 && prepayment.length ≤ 300

theorem prose_of_digitFree {t : Text} (h : digitFree t = true) : ∀ c ∈ t, digit? c = none :=
  fun c hc => Option.isNone_iff_eq_none.mp (List.all_eq_true.mp h c hc)

theorem digitFree_of_prose {t : Text} (h : ∀ c ∈ t, digit? c = none) : digitFree t = true :=
  List.all_eq_true.mpr fun c hc => Option.isNone_iff_eq_none.mpr (h c hc)

theorem proseFits_iff {heading paymentTerms prepayment : Text} :
    proseFits heading paymentTerms prepayment = true ↔
      digitFree (heading ++ paymentTerms ++ prepayment) = true ∧ heading.length ≤ 120 ∧
        paymentTerms.length ≤ 600 ∧ prepayment.length ≤ 300 := by
  simp only [proseFits, Bool.and_eq_true, decide_eq_true_eq, and_assoc]

/-- A document of fields that fit. -/
def Document.ofFields (heading : Text) (figures : Box Text) (paymentTerms prepayment : Text)
    (h : proseFits heading paymentTerms prepayment = true) : Document where
  heading := heading
  figures := figures
  paymentTerms := paymentTerms
  prepayment := prepayment
  prose := prose_of_digitFree (proseFits_iff.mp h).1
  lengths := (proseFits_iff.mp h).2

/-- `DisclosureDocument` -/
def disclosureDocument : Value → Option Document
  | .dict members =>
    if forbidsExtra documentNames members then do
      let heading ← textField members "heading"
      let figures ← (members.lookup "figures".toList).bind documentFigures
      let paymentTerms ← textField members "payment_terms"
      let prepayment ← textField members "prepayment"
      if h : proseFits heading paymentTerms prepayment = true then
        pure (Document.ofFields heading figures paymentTerms prepayment h)
      else none
    else none
  | _ => none

/-! ## What is read -/

variable {members : List (Text × Value)}

theorem textField_eq_some {name : String} {t : Text} :
    textField members name = some t ↔ members.lookup name.toList = some (.str t) := by
  unfold textField
  constructor
  · intro h
    split at h
    · rename_i u hu
      cases h
      exact hu
    · exact nomatch h
  · intro h
    rw [h]

theorem documentFigures_eq_some {v : Value} {b : Box Text} :
    documentFigures v = some b ↔ ∃ members, v = .dict members ∧
      forbidsExtra figureNames members = true ∧
      members.lookup "apr".toList = some (.str b.apr) ∧
      members.lookup "finance_charge".toList = some (.str b.financeCharge) ∧
      members.lookup "amount_financed".toList = some (.str b.amountFinanced) ∧
      members.lookup "total_of_payments".toList = some (.str b.totalOfPayments) ∧
      members.lookup "monthly_payment".toList = some (.str b.monthlyPayment) := by
  constructor
  · intro h
    unfold documentFigures at h
    split at h
    · rename_i members
      split at h
      · rename_i hextra
        simp only [Option.bind_eq_bind, Option.bind_eq_some_iff, textField_eq_some,
          Option.pure_def, Option.some.injEq] at h
        obtain ⟨apr, hapr, charge, hcharge, financed, hfinanced, total, htotal, payment, hpayment,
          rfl⟩ := h
        exact ⟨members, rfl, hextra, hapr, hcharge, hfinanced, htotal, hpayment⟩
      · exact nomatch h
    · exact nomatch h
  · rintro ⟨members, rfl, hextra, hapr, hcharge, hfinanced, htotal, hpayment⟩
    simp only [documentFigures, hextra, if_true, textField_eq_some.mpr hapr,
      textField_eq_some.mpr hcharge, textField_eq_some.mpr hfinanced, textField_eq_some.mpr htotal,
      textField_eq_some.mpr hpayment, Option.bind_eq_bind, Option.bind_some, Option.pure_def]

/-- **What a document takes**: its four fields and no other, and a prose that fits. -/
theorem disclosureDocument_eq_some {v : Value} {d : Document} :
    disclosureDocument v = some d ↔ ∃ members figures, v = .dict members ∧
      forbidsExtra documentNames members = true ∧
      members.lookup "heading".toList = some (.str d.heading) ∧
      members.lookup "figures".toList = some figures ∧ documentFigures figures = some d.figures ∧
      members.lookup "payment_terms".toList = some (.str d.paymentTerms) ∧
      members.lookup "prepayment".toList = some (.str d.prepayment) := by
  constructor
  · intro h
    unfold disclosureDocument at h
    split at h
    · rename_i members
      split at h
      · rename_i hextra
        simp only [Option.bind_eq_bind, Option.bind_eq_some_iff, textField_eq_some] at h
        obtain ⟨heading, hheading, figures, ⟨value, hvalue, hfigures⟩, terms, hterms, prepayment,
          hprepayment, h⟩ := h
        split at h
        · cases h
          exact ⟨members, value, rfl, hextra, hheading, hvalue, hfigures, hterms, hprepayment⟩
        · exact nomatch h
      · exact nomatch h
    · exact nomatch h
  · rintro ⟨members, figures, rfl, hextra, hheading, hvalue, hfigures, hterms, hprepayment⟩
    have hfits : proseFits d.heading d.paymentTerms d.prepayment = true :=
      proseFits_iff.mpr ⟨digitFree_of_prose d.prose, d.lengths⟩
    simp only [disclosureDocument, hextra, if_true, textField_eq_some.mpr hheading, hvalue,
      hfigures, textField_eq_some.mpr hterms, textField_eq_some.mpr hprepayment,
      Option.bind_eq_bind, Option.bind_some, hfits, dite_true, Option.pure_def]
    rfl

end Meridian.Disclosure
