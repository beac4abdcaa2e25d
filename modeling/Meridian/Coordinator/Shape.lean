import Meridian.Coordinator.Stages
import Meridian.Disclosure.Shape
import Meridian.Llm.Client

/-!
# The maker's shape and the record's shape

The shape of a document is written twice: as the schema the maker's reply is validated with, and as
the model the record's request is read with. Both want the same keys, strings for figures and prose
without digits. The lengths are declared in both and enforced in the second alone, so what the maker
may return is a document exactly if its prose is short enough (`document_shape`).
-/

namespace Meridian.Coordinator

open Python Disclosure Llm

variable {members : List (Text × Value)} {v : Value}

/-- The prose of an object is within the lengths of the record. -/
def withinLengths (members : List (Text × Value)) : Bool :=
  [("heading", 120), ("payment_terms", 600), ("prepayment", 300)].all fun cap =>
    (textField members cap.1).all fun t => t.length ≤ cap.2

/-! ## The same keys -/

theorem isSome_lookup_iff {k : Text} {properties : List (Text × Schema)} :
    (properties.lookup k).isSome = true ↔ k ∈ properties.map Prod.fst := by
  rw [List.lookup_isSome_iff, List.mem_map]
  constructor
  · rintro ⟨p, hp, hk⟩
    exact ⟨p, hp, (beq_iff_eq.mp hk).symm⟩
  · rintro ⟨p, hp, rfl⟩
    exact ⟨p, hp, beq_self_eq_true _⟩

theorem forbidsExtra_iff {names : List String} {properties : List (Text × Schema)}
    (h : properties.map Prod.fst = names.map String.toList) :
    forbidsExtra names members = true ↔
      ∀ m ∈ members, (properties.lookup m.1).isSome = true := by
  simp only [forbidsExtra, List.all_eq_true, List.contains_iff_mem, isSome_lookup_iff, h]

theorem check_text {path : Text} :
    check (.string none none none) path v = .ok () ↔ ∃ t, v = .str t := by
  simp [check_string_ok]

theorem check_prose {path : Text} {max : ℕ} :
    check (proseOf max) path v = .ok () ↔ ∃ t, v = .str t ∧ digitFree t = true := by
  rw [proseOf, check_string_ok]
  refine exists_congr fun t => and_congr_right fun _ => ⟨fun h => h _ rfl, ?_⟩
  rintro h p hp
  cases hp
  exact h

/-- An object of texts, and of nothing else. -/
theorem check_texts {names : List String} {path : Text} :
    check (.object (names.map String.toList)
        (names.map fun name => (name.toList, .string none none none)) true) path v = .ok () ↔
      ∃ members, v = .dict members ∧ forbidsExtra names members = true ∧
        ∀ name ∈ names, ∃ t, members.lookup name.toList = some (.str t) := by
  have hkeys : (names.map fun name => (name.toList, Schema.string none none none)).map Prod.fst =
      names.map String.toList := by
    rw [List.map_map]
    rfl
  rw [check_object_ok]
  refine exists_congr fun members => and_congr_right fun _ => ?_
  simp only [forbidsExtra_iff hkeys, List.forall_mem_map, check_text]
  constructor
  · rintro ⟨hrequired, hclosed, htext⟩
    refine ⟨hclosed trivial, fun name hname => ?_⟩
    obtain ⟨v, hv⟩ := hrequired name hname
    obtain ⟨t, rfl⟩ := htext name hname v hv
    exact ⟨t, hv⟩
  · rintro ⟨hclosed, htext⟩
    refine ⟨fun name hname => ?_, fun _ => hclosed, fun name hname v hv => ?_⟩
    · obtain ⟨t, ht⟩ := htext name hname
      exact ⟨_, ht⟩
    · obtain ⟨t, ht⟩ := htext name hname
      exact ⟨t, Option.some.inj (hv.symm.trans ht)⟩

/-- The two shapes of the figures are one. -/
theorem check_figures {path : Text} :
    check figuresSchema path v = .ok () ↔ ∃ b, documentFigures v = some b := by
  have hschema : figuresSchema = .object (figureNames.map String.toList)
      (figureNames.map fun name => (name.toList, .string none none none)) true := rfl
  rw [hschema, check_texts]
  simp only [documentFigures_eq_some]
  constructor
  · rintro ⟨members, rfl, hextra, htext⟩
    simp only [figureNames, List.forall_mem_cons] at htext
    obtain ⟨⟨apr, hapr⟩, ⟨charge, hcharge⟩, ⟨financed, hfinanced⟩, ⟨total, htotal⟩,
      ⟨payment, hpayment⟩, -⟩ := htext
    exact ⟨⟨apr, charge, payment, financed, total⟩, members, rfl, hextra, hapr, hcharge, hfinanced,
      htotal, hpayment⟩
  · rintro ⟨b, members, rfl, hextra, hapr, hcharge, hfinanced, htotal, hpayment⟩
    refine ⟨members, rfl, hextra, ?_⟩
    simp only [figureNames, List.forall_mem_cons]
    exact ⟨⟨_, hapr⟩, ⟨_, hcharge⟩, ⟨_, hfinanced⟩, ⟨_, htotal⟩, ⟨_, hpayment⟩, nofun⟩

/-- A required prose field is a text without digits. -/
theorem exists_prose_iff {k : Text} :
    ((∃ v, members.lookup k = some v) ∧
        ∀ v, members.lookup k = some v → ∃ t, v = .str t ∧ digitFree t = true) ↔
      ∃ t, members.lookup k = some (.str t) ∧ digitFree t = true := by
  constructor
  · rintro ⟨⟨v, hv⟩, htext⟩
    obtain ⟨t, rfl, ht⟩ := htext v hv
    exact ⟨t, hv, ht⟩
  · rintro ⟨t, hlookup, ht⟩
    refine ⟨⟨_, hlookup⟩, fun v hv => ⟨t, ?_, ht⟩⟩
    exact Option.some.inj (hv.symm.trans hlookup)

/-- **What the maker may return**: the fields of a document, with a prose of any length. -/
theorem validateSchema_ok :
    validateSchema v disclosureAssembleSchema = .ok () ↔ ∃ members heading figures b terms prepayment,
      v = .dict members ∧ forbidsExtra documentNames members = true ∧
      members.lookup "heading".toList = some (.str heading) ∧
      members.lookup "figures".toList = some figures ∧ documentFigures figures = some b ∧
      members.lookup "payment_terms".toList = some (.str terms) ∧
      members.lookup "prepayment".toList = some (.str prepayment) ∧
      digitFree (heading ++ terms ++ prepayment) = true := by
  rw [validateSchema, disclosureAssembleSchema, check_object_ok]
  simp only [List.map_cons, List.map_nil, List.forall_mem_cons, check_prose, check_figures,
    digitFree_append, Bool.and_eq_true]
  constructor
  · rintro ⟨members, rfl, ⟨hheading, ⟨figures, hfigures⟩, hterms, hprepayment, -⟩, hclosed, hheading',
      hfigures', hterms', hprepayment', -⟩
    obtain ⟨heading, hheading, hfree⟩ := exists_prose_iff.mp ⟨hheading, hheading'⟩
    obtain ⟨b, hb⟩ := hfigures' figures hfigures
    obtain ⟨terms, hterms, hfree'⟩ := exists_prose_iff.mp ⟨hterms, hterms'⟩
    obtain ⟨prepayment, hprepayment, hfree''⟩ := exists_prose_iff.mp ⟨hprepayment, hprepayment'⟩
    exact ⟨members, heading, figures, b, terms, prepayment, rfl,
      (forbidsExtra_iff rfl).mpr (hclosed trivial), hheading, hfigures, hb, hterms, hprepayment,
      ⟨hfree, hfree'⟩, hfree''⟩
  · rintro ⟨members, heading, figures, b, terms, prepayment, rfl, hclosed, hheading, hfigures, hb,
      hterms, hprepayment, ⟨hfree, hfree'⟩, hfree''⟩
    obtain ⟨hheading, hheading'⟩ := exists_prose_iff.mpr ⟨heading, hheading, hfree⟩
    obtain ⟨hterms, hterms'⟩ := exists_prose_iff.mpr ⟨terms, hterms, hfree'⟩
    obtain ⟨hprepayment, hprepayment'⟩ := exists_prose_iff.mpr ⟨prepayment, hprepayment, hfree''⟩
    refine ⟨members, rfl, ⟨hheading, ⟨figures, hfigures⟩, hterms, hprepayment, nofun⟩,
      fun _ => (forbidsExtra_iff rfl).mp hclosed, hheading', fun w hw => ⟨b, ?_⟩, hterms',
      hprepayment', nofun⟩
    rw [← Option.some.inj (hfigures.symm.trans hw)]
    exact hb

/-! ## The same documents -/

theorem withinLengths_iff {heading terms prepayment : Text}
    (hheading : members.lookup "heading".toList = some (.str heading))
    (hterms : members.lookup "payment_terms".toList = some (.str terms))
    (hprepayment : members.lookup "prepayment".toList = some (.str prepayment)) :
    withinLengths members = true ↔
      heading.length ≤ 120 ∧ terms.length ≤ 600 ∧ prepayment.length ≤ 300 := by
  simp only [withinLengths, List.all_cons, List.all_nil, textField_eq_some.mpr hheading,
    textField_eq_some.mpr hterms, textField_eq_some.mpr hprepayment, Option.all_some,
    Bool.and_eq_true, Bool.and_true, decide_eq_true_eq]

/-- What the maker may return is a document exactly if its prose is short enough. -/
theorem disclosureDocument_iff {members : List (Text × Value)}
    (h : validateSchema (.dict members) disclosureAssembleSchema = .ok ()) :
    (∃ d, disclosureDocument (.dict members) = some d) ↔ withinLengths members = true := by
  obtain ⟨_, heading, figures, b, terms, prepayment, hv, hextra, hheading, hfigures, hb, hterms,
    hprepayment, hfree⟩ := validateSchema_ok.mp h
  cases hv
  rw [withinLengths_iff hheading hterms hprepayment]
  constructor
  · rintro ⟨d, hd⟩
    obtain ⟨_, _, hv, -, hheading', -, -, hterms', hprepayment'⟩ := disclosureDocument_eq_some.mp hd
    cases hv
    cases hheading.symm.trans hheading'
    cases hterms.symm.trans hterms'
    cases hprepayment.symm.trans hprepayment'
    exact d.lengths
  · intro hlengths
    have hfits := proseFits_iff.mpr ⟨hfree, hlengths⟩
    exact ⟨Document.ofFields heading b terms prepayment hfits, disclosureDocument_eq_some.mpr
      ⟨members, figures, rfl, hextra, hheading, hfigures, hb, hterms, hprepayment⟩⟩

theorem validateSchema_of_document {d : Document} (h : disclosureDocument v = some d) :
    validateSchema v disclosureAssembleSchema = .ok () := by
  obtain ⟨members, figures, rfl, hextra, hheading, hfigures, hb, hterms, hprepayment⟩ :=
    disclosureDocument_eq_some.mp h
  exact validateSchema_ok.mpr ⟨members, _, figures, _, _, _, rfl, hextra, hheading, hfigures, hb,
    hterms, hprepayment, digitFree_of_prose d.prose⟩

/-- **The two shapes**: what `validate_structured` returns of a text is a document exactly if its
prose is within the lengths of the record, and every document is accepted by the schema. -/
theorem document_shape (g : Guard) (depth : ℕ) :
    (∀ text members,
        validateStructured g depth text disclosureAssembleSchema = .ok members →
          ((∃ d, disclosureDocument (.dict members) = some d) ↔ withinLengths members = true)) ∧
      ∀ v d, disclosureDocument v = some d → validateSchema v disclosureAssembleSchema = .ok () := by
  refine ⟨fun text members h => ?_, fun v d => validateSchema_of_document⟩
  obtain ⟨-, -, -, hschema⟩ := validateStructured_ok.mp h
  exact disclosureDocument_iff hschema

/-! ## A long heading -/

/-- A guard that finds nothing. -/
def noFindings : Guard where
  redact := id
  streetAddress := fun _ => false
  labeledName := fun _ => false

/-- The figures of an offer. -/
def offeredFigures : Box Text :=
  ⟨"13.760".toList, "73.81".toList, "86.98".toList, "970.00".toList, "1043.81".toList⟩

/-- A reply that copies the figures under a heading of 121 characters. -/
def longHeading : Text :=
  "\x7b\"heading\":\"".toList ++ List.replicate 121 'A' ++
    ("\",\"figures\":\x7b\"apr\":\"13.760\",\"finance_charge\":\"73.81\"," ++
      "\"amount_financed\":\"970.00\",\"total_of_payments\":\"1043.81\"," ++
      "\"monthly_payment\":\"86.98\"\x7d,\"payment_terms\":\"\",\"prepayment\":\"\"\x7d").toList

/-- The figure gate lets a document pass. -/
def verifies (figures : Box Text) (document : Value) : Bool :=
  match verify { figures := some figures, document := some document } with
  | .ok s => !s.isBlocked
  | .error _ => false

/-- The reply is validated and its figures are verified, and it is no document of the record. -/
theorem longHeading_refused :
    ∃ members, validateStructured noFindings 100 longHeading disclosureAssembleSchema = .ok members ∧
      verifies offeredFigures (.dict members) = true ∧
      (disclosureDocument (.dict members)).isNone = true :=
  exists_ok (by decide +kernel)

end Meridian.Coordinator
