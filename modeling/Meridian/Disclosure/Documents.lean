import Meridian.Disclosure.Figures

/-!
# What an accepted document says

`_refuse_if_document_disagrees` accepts a document exactly when each of its five figures, stripped,
is a plain decimal equal to the column it spells (`agrees_iff`). A record that is created with a
document was compared with the figures its own columns read back as (`createRecord_agrees`).
-/

namespace Meridian.Disclosure

open Python Numeric

/-- The document spells the figures of the row. -/
def Agrees (doc : Document) (r : Record) : Prop :=
  refuseIfDocumentDisagrees (some doc) r.persistedOutputs = .ok ()

instance (doc : Document) (r : Record) : Decidable (Agrees doc r) :=
  inferInstanceAs (Decidable (_ = _))

/-- The text, stripped, is a plain decimal of the number. -/
def Spells (text : Text) (x : ℚ) : Prop :=
  Reconciliation.plainDecimal (strip text) = true ∧
    ∃ d, Decimal.ofText (strip text) = .ok d ∧ d.value = x

/-- Every figure of the document is spelled as the box has it. -/
structure SpellsBox (figures : Box Text) (box : Box ℚ) : Prop where
  apr : Spells figures.apr box.apr
  financeCharge : Spells figures.financeCharge box.financeCharge
  monthlyPayment : Spells figures.monthlyPayment box.monthlyPayment
  amountFinanced : Spells figures.amountFinanced box.amountFinanced
  totalOfPayments : Spells figures.totalOfPayments box.totalOfPayments

theorem spells_iff {text : Text} {d : Decimal} : spells text d = true ↔ Spells text d.value := by
  unfold spells parseFigure Spells
  by_cases hplain : Reconciliation.plainDecimal (strip text) = true
  · rw [if_neg (by rw [hplain]; exact Bool.true_eq_false_eq_False)]
    cases hd : Decimal.ofText (strip text) with
    | error s => simp
    | ok parsed => simp [hplain, Decimal.numEq_iff]
  · simp [hplain]

theorem hundredths_value (k : ℤ) : (hundredths k).value = k / 100 := by
  rw [Decimal.value, hundredths, signed_natAbs]
  norm_num
  ring

theorem refuseIfDocumentDisagrees_ok {doc : Document} {o : Outputs} :
    refuseIfDocumentDisagrees (some doc) o = .ok () ↔
      ∀ x ∈ documentChecks doc.figures o, spells x.2.1 x.2.2 = true := by
  unfold refuseIfDocumentDisagrees
  dsimp only
  split
  · rename_i hbad
    exact iff_of_true rfl fun x hx => by simpa using List.filter_eq_nil_iff.mp hbad x hx
  · rename_i hbad
    refine iff_of_false nofun fun h => hbad ?_
    exact List.filter_eq_nil_iff.mpr fun x hx => by simp [h x hx]

/-- **What agreement means**: five plain decimals, equal to the columns. -/
theorem agrees_iff {doc : Document} {r : Record} : Agrees doc r ↔ SpellsBox doc.figures r.box := by
  have hvalue : r.persistedOutputs.apr.value = r.box.apr := threePlaces_value r.apr
  unfold Agrees
  rw [refuseIfDocumentDisagrees_ok]
  simp only [documentChecks, List.forall_mem_cons, spells_iff, hundredths_value, hvalue]
  constructor
  · rintro ⟨hcharge, hfinanced, hmonthly, htotal, hapr, -⟩
    exact ⟨hapr, hcharge, hmonthly, hfinanced, htotal⟩
  · rintro ⟨hapr, hcharge, hmonthly, hfinanced, htotal⟩
    exact ⟨hcharge, hfinanced, hmonthly, htotal, hapr, nofun⟩

/-- A record agrees with the document it is created with. -/
theorem createRecord_agrees {sha256 : Text → Text} {s : FeeSchedule} {t : Terms}
    {offer : OfferBox} {doc : Document} {r : Record}
    (h : createRecord sha256 s t offer (some doc) = .ok r) : Agrees doc r := by
  obtain ⟨b, hb, hout⟩ := (createRecord_ok h).outputs
  obtain ⟨b', hb', h⟩ := of_bind_ok h
  obtain ⟨_, -, h⟩ := of_bind_ok h
  obtain ⟨_, -, h⟩ := of_bind_ok h
  obtain ⟨o, ho, h⟩ := of_bind_ok h
  obtain ⟨_, hdoc, -⟩ := of_bind_ok h
  have hb' := of_orRaise_ok hb'
  have ho := of_orRaise_ok ho
  rw [hb] at hb'
  cases hb'
  rw [hout] at ho
  cases ho
  exact hdoc

end Meridian.Disclosure
