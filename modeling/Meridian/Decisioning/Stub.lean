import Meridian.Decisioning.Scoring
import Meridian.Numeric.Rounding

/-!
# The stub model over exact rationals

`score_application` of the stub, and the record `_run_decision` builds of what it returns, with every
number an exact rational and `round` the only rounding.

* `featureContributions`, `scoreApplication` are the model, `runDecision` the decision made of it.
* `States`: reasons that are those of the negative attributions, each once, the most negative first.
* `exists_negative_of_deny`: a score below the lower cutoff has an attribution that rounds below zero.
* `adverse_states`: every input is decided, every adverse decision states its reasons, and an approval
  states none.
* `approved_with_negative`: an approval hides a negative attribution.
-/

namespace Meridian.Decisioning.Stub

open Python Numeric

/-! ## The model -/

/-- The six inputs; `none` is an absent one. -/
structure ScoringInputs where
  bureauScore : Option ℚ
  annualIncome : Option ℚ
  requestedAmount : Option ℚ
  termMonths : Option ℚ
  monthlyDebt : Option ℚ
  employmentYears : Option ℚ

/-- `float(x or 0)` -/
def orZero (x : Option ℚ) : ℚ := x.getD 0

/-- `int` truncates. -/
def truncate (x : ℚ) : ℤ := if 0 ≤ x then ⌊x⌋ else ⌈x⌉

/-- `int(x or 36)` -/
def orThreeYears (x : Option ℚ) : ℤ := truncate (if orZero x = 0 then 36 else orZero x)

/-- `_BASE_SCORE` -/
def baseScore : ℚ := 640

/-- What the payments leave of the income, in points. -/
def paymentBurden (i : ScoringInputs) : ℚ :=
  let amount := orZero i.requestedAmount
  let term := orThreeYears i.termMonths
  let monthlyIncome := orZero i.annualIncome / 12
  let newPayment := if term ≠ 0 then amount / term else 0
  if 0 < monthlyIncome then
    let dti := (orZero i.monthlyDebt + newPayment) / monthlyIncome
    max ((35 / 100 - dti) * 120) (-80)
  else -80

/-- `_feature_contributions` -/
def featureContributions (i : ScoringInputs) : List (Text × ℚ) :=
  let amount := orZero i.requestedAmount
  let incomeRatio := if amount ≠ 0 then orZero i.annualIncome / amount else 0
  [("delinquency_history".toList, (orZero i.bureauScore - baseScore) * (1 / 2)),
    ("payment_burden".toList, paymentBurden i),
    ("income_sufficiency".toList, min incomeRatio 5 * 8 - 20),
    ("employment_tenure".toList, min (orZero i.employmentYears) 10 * 2 - 8)]

structure Attribution where
  feature : Text
  contribution : ℚ
  deriving DecidableEq

structure ModelOut where
  score : ℤ
  modelId : Text
  modelVersion : Text
  attributions : List Attribution
  deriving DecidableEq

/-- `round(value, 2)` -/
def roundCents (x : ℚ) : ℚ := halfEven (x * 100) / 100

/-- `score_application` -/
def scoreApplication (i : ScoringInputs) : ModelOut where
  score := halfEven (baseScore + ((featureContributions i).map Prod.snd).sum)
  modelId := "meridian-risk-stub".toList
  modelVersion := "1".toList
  attributions := (sortBy Prod.snd (featureContributions i)).map fun a => ⟨a.1, roundCents a.2⟩

/-! ## The decision -/

/-- The reason of a feature that is mapped. -/
def reasonOf (a : Attribution) : Option Reason :=
  (reasonMap.lookup a.feature).map fun r => ⟨r.1, r.2, a.feature⟩

/-- `a["contribution"] < 0` -/
def Attribution.negative (a : Attribution) : Bool := a.contribution < 0

/-- `principal_reasons` -/
def principalReasons (attributions : List Attribution) : Except Refused (List Reason) :=
  if attributions.any fun a => (reasonOf a).isNone then .error .unmappedFeature
  else
    let negatives := sortBy Attribution.contribution (attributions.filter (·.negative))
    .ok ((negatives.take maxReasons).filterMap reasonOf)

/-- `feature_provenance` -/
def featureProvenance (attributions : List Attribution) (source : CreditSource) :
    Except Refused (List (Text × Text)) :=
  if attributions.any fun a => a.feature ∉ creditDerivedFeatures ++ applicantStatedFeatures then
    .error .unmappedFeature
  else
    .ok (attributions.map fun a =>
      (a.feature, if a.feature ∈ creditDerivedFeatures then source.provenance
        else "applicant_stated".toList))

/-- The `drivers` of a decision. -/
structure Drivers where
  modelId : Text
  modelVersion : Text
  modelScore : ℤ
  attributions : List Attribution
  /-- `band_cutoffs` -/
  approve : ℤ
  deny : ℤ

def driversOf (out : ModelOut) : Drivers :=
  ⟨out.modelId, out.modelVersion, out.score, out.attributions, approveCutoff, denyCutoff⟩

/-- What `_run_decision` validates and records. -/
structure Decision where
  outcome : Band
  principalReasons : List Reason
  drivers : Drivers
  policyBand : Band
  featureProvenance : List (Text × Text)
  decidedBy : Text

/-- `_has_negative_drivers` -/
def hasNegativeDrivers (d : Drivers) : Bool := d.attributions.any (·.negative)

/-- `_validate_record`; the drivers are never an empty dictionary. -/
def validateRecord (outcome band : Band) (reasons : List Reason) (drivers : Drivers)
    (decidedBy : Text) : Except Refused Unit :=
  if outcome = .deny ∧ reasons = [] then .error .record
  else if outcome = .refer ∧ reasons = [] ∧ hasNegativeDrivers drivers = true then .error .record
  else if outcome ≠ band ∧ decidedBy = modelSignature then .error .record
  else .ok ()

/-- `_run_decision` from the credit pull up to the `INSERT`. -/
def runDecision (i : ScoringInputs) (source : CreditSource) : Except Refused Decision := do
  let out := scoreApplication i
  let band := policyBand out.score
  let outcome := band
  let mapped ← principalReasons out.attributions
  let reasons := if outcome = .approve then [] else mapped
  let provenance ← featureProvenance out.attributions source
  let drivers := driversOf out
  validateRecord outcome band reasons drivers modelSignature
  pure ⟨outcome, reasons, drivers, band, provenance, modelSignature⟩

/-! ## Rounding -/

theorem roundCents_neg {x : ℚ} (h : x < -1 / 200) : roundCents x < 0 := by
  have hnear := (abs_le.mp (halfEven_near (x * 100))).2
  have hlt : (halfEven (x * 100) : ℚ) < 0 := by linarith
  exact div_neg_of_neg_of_pos hlt (by norm_num)

/-- **A denied score** has a contribution that is not rounded away. -/
theorem exists_neg_of_sum {a b c d : ℚ} (h : halfEven (baseScore + (a + (b + (c + (d + 0))))) < 600) :
    ∃ x ∈ [a, b, c, d], x < -1 / 200 := by
  by_contra hnone
  simp only [List.mem_cons, List.not_mem_nil, or_false, forall_eq_or_imp, forall_eq, not_exists,
    not_and, not_lt] at hnone
  obtain ⟨ha, hb, hc, hd⟩ := hnone
  have hnear := (abs_le.mp (halfEven_near (baseScore + (a + (b + (c + (d + 0))))))).1
  have hscore : (halfEven (baseScore + (a + (b + (c + (d + 0))))) : ℚ) ≤ 599 := by
    exact_mod_cast Int.le_sub_one_of_lt h
  unfold baseScore at *
  linarith

/-! ## Reasons -/

/-- The reasons are those of the negative attributions, each feature once, the most negative first. -/
structure States (attributions : List Attribution) (reasons : List Reason) : Prop where
  exactly_negative : ∃ negatives : List Attribution,
    negatives.Perm (attributions.filter (·.negative)) ∧
    negatives.Pairwise (fun a b => a.contribution ≤ b.contribution) ∧
    reasons.map some = negatives.map reasonOf
  once : (reasons.map Reason.feature).Nodup

/-- The features of the model. -/
def features : List Text := ["delinquency_history".toList, "payment_burden".toList,
  "income_sufficiency".toList, "employment_tenure".toList]

theorem features_perm (i : ScoringInputs) :
    ((scoreApplication i).attributions.map Attribution.feature).Perm features := by
  have hsort := (sortBy_perm Prod.snd (featureContributions i)).map Prod.fst
  have hmap : (scoreApplication i).attributions.map Attribution.feature =
      (sortBy Prod.snd (featureContributions i)).map Prod.fst := by
    simp [scoreApplication, Function.comp_def]
  rw [hmap]
  exact hsort

theorem mapped_of_mem {a : Attribution} (h : a.feature ∈ features) :
    ∃ r, reasonOf a = some r ∧ r.feature = a.feature := by
  obtain ⟨feature, contribution⟩ := a
  simp only [features, List.mem_cons, List.not_mem_nil, or_false] at h
  rcases h with rfl | rfl | rfl | rfl <;> exact ⟨_, rfl, rfl⟩

section Decided

variable {i : ScoringInputs}

theorem feature_mem {a : Attribution} (h : a ∈ (scoreApplication i).attributions) :
    a.feature ∈ features :=
  (features_perm i).subset (List.mem_map_of_mem h)

theorem features_nodup : ((scoreApplication i).attributions.map Attribution.feature).Nodup :=
  (features_perm i).nodup_iff.mpr (by decide)

theorem length_attributions : (scoreApplication i).attributions.length = 4 := by
  have h := (features_perm i).length_eq
  rwa [List.length_map] at h

end Decided

theorem filterMap_reasonOf : ∀ l : List Attribution, (∀ a ∈ l, a.feature ∈ features) →
    (l.filterMap reasonOf).map some = l.map reasonOf ∧
      (l.filterMap reasonOf).map Reason.feature = l.map Attribution.feature
  | [], _ => ⟨rfl, rfl⟩
  | a :: l, h => by
    obtain ⟨r, hr, hfeature⟩ := mapped_of_mem (h a List.mem_cons_self)
    obtain ⟨hsome, hfeatures⟩ := filterMap_reasonOf l fun b hb => h b (List.mem_cons_of_mem _ hb)
    simp [hr, hsome, hfeature, hfeatures]

/-- **Principal reasons**: nothing is refused and nothing is cut off. -/
theorem principalReasons_states {as : List Attribution} (hmapped : ∀ a ∈ as, a.feature ∈ features)
    (hnodup : (as.map Attribution.feature).Nodup) (hlength : as.length ≤ maxReasons) :
    ∃ rs, principalReasons as = .ok rs ∧ States as rs := by
  have hperm := sortBy_perm Attribution.contribution (as.filter (·.negative))
  have hsub : (as.filter (·.negative)).Sublist as := List.filter_sublist
  have hshort : (sortBy Attribution.contribution (as.filter (·.negative))).length ≤ maxReasons :=
    hperm.length_eq.le.trans (hsub.length_le.trans hlength)
  have hknown : ¬ (as.any fun a => (reasonOf a).isNone) = true := by
    simp only [List.any_eq_true, not_exists, not_and]
    intro a ha hnone
    obtain ⟨r, hr, -⟩ := mapped_of_mem (hmapped a ha)
    rw [hr] at hnone
    cases hnone
  obtain ⟨hsome, hfeatures⟩ := filterMap_reasonOf
    (sortBy Attribution.contribution (as.filter (·.negative)))
    fun a ha => hmapped a (hsub.subset (hperm.subset ha))
  refine ⟨_, ?_, ⟨_, hperm, sortBy_pairwise _ _, hsome⟩, ?_⟩
  · unfold principalReasons
    rw [if_neg hknown]
    dsimp only
    rw [List.take_of_length_le hshort]
  · rw [hfeatures, (hperm.map _).nodup_iff]
    exact hnodup.sublist (hsub.map _)

theorem States.ne_nil {as : List Attribution} {rs : List Reason} (h : States as rs)
    {a : Attribution} (ha : a ∈ as) (hneg : a.negative = true) : rs ≠ [] := by
  rintro rfl
  obtain ⟨negatives, hperm, -, hmap⟩ := h.exactly_negative
  have hnil : negatives = [] := List.map_eq_nil_iff.mp hmap.symm
  rw [hnil] at hperm
  exact List.not_mem_nil (hperm.symm.subset (List.mem_filter.mpr ⟨ha, hneg⟩))

/-- A score below the lower cutoff has an attribution that rounds below zero. -/
theorem exists_negative_of_deny {i : ScoringInputs} (h : (scoreApplication i).score < 600) :
    ∃ a ∈ (scoreApplication i).attributions, a.negative = true := by
  obtain ⟨x, hx, hneg⟩ := exists_neg_of_sum h
  obtain ⟨c, hc, rfl⟩ := List.mem_map.mp (show x ∈ (featureContributions i).map Prod.snd from hx)
  refine ⟨⟨c.1, roundCents c.2⟩, List.mem_map.mpr ⟨c, (mem_sortBy _).mpr hc, rfl⟩, ?_⟩
  simpa [Attribution.negative] using roundCents_neg hneg

/-! ## Every decision -/

theorem featureProvenance_ok {as : List Attribution} (h : ∀ a ∈ as, a.feature ∈ features)
    (source : CreditSource) : ∃ ps, featureProvenance as source = .ok ps := by
  refine ⟨_, if_neg ?_⟩
  simp only [List.any_eq_true, decide_eq_true_eq, not_exists, not_and, not_not]
  exact fun a ha => h a ha

theorem policyBand_bands (score : ℤ) :
    (policyBand score = .approve ↔ 660 ≤ score) ∧
      (policyBand score = .refer ↔ 600 ≤ score ∧ score ≤ 659) ∧
      (policyBand score = .deny ↔ score ≤ 599) := by
  unfold policyBand approveCutoff denyCutoff
  split_ifs <;> simp <;> omega

theorem policyBand_deny {i : ScoringInputs}
    (h : policyBand (scoreApplication i).score = .deny) :
    ∃ a ∈ (scoreApplication i).attributions, a.negative = true :=
  exists_negative_of_deny (Int.lt_add_one_of_le ((policyBand_bands _).2.2.mp h))

/-- Nothing is refused, and the reasons that are recorded are the principal reasons unless the
application is approved. -/
theorem runDecision_ok (i : ScoringInputs) (source : CreditSource) :
    ∃ d rs, runDecision i source = .ok d ∧ States (scoreApplication i).attributions rs ∧
      d.outcome = policyBand (scoreApplication i).score ∧
      d.principalReasons = if d.outcome = .approve then [] else rs := by
  obtain ⟨rs, hrs, hstates⟩ := principalReasons_states (fun a ha => feature_mem ha)
    (features_nodup (i := i)) length_attributions.le
  obtain ⟨ps, hps⟩ := featureProvenance_ok (fun a ha => feature_mem (i := i) ha) source
  have hvalid : validateRecord (policyBand (scoreApplication i).score)
      (policyBand (scoreApplication i).score)
      (if policyBand (scoreApplication i).score = .approve then [] else rs)
      (driversOf (scoreApplication i)) modelSignature = .ok () := by
    unfold validateRecord
    rw [if_neg, if_neg, if_neg fun h => h.1 rfl]
    · rintro ⟨hband, hnil, hneg⟩
      rw [hband, if_neg nofun] at hnil
      obtain ⟨a, ha, hneg⟩ := List.any_eq_true.mp hneg
      exact hstates.ne_nil ha hneg hnil
    · rintro ⟨hband, hnil⟩
      rw [hband, if_neg nofun] at hnil
      obtain ⟨a, ha, hneg⟩ := policyBand_deny hband
      exact hstates.ne_nil ha hneg hnil
  refine ⟨⟨policyBand (scoreApplication i).score,
    if policyBand (scoreApplication i).score = .approve then [] else rs,
    driversOf (scoreApplication i), policyBand (scoreApplication i).score, ps, modelSignature⟩, rs,
    ?_, hstates, rfl, rfl⟩
  simp only [runDecision, hrs, hps, hvalid, bind, Except.bind, pure, Except.pure]

/-- **Every adverse decision states its reasons.** No input is refused, the score is in one band, a
denial has reasons, and the reasons of a denial or a referral are the features that contribute
negatively; an approval records none. -/
theorem adverse_states (i : ScoringInputs) (source : CreditSource) :
    ∃ d, runDecision i source = .ok d ∧
      (d.outcome = .approve ↔ 660 ≤ (scoreApplication i).score) ∧
      (d.outcome = .refer ↔ 600 ≤ (scoreApplication i).score ∧ (scoreApplication i).score ≤ 659) ∧
      (d.outcome = .deny ↔ (scoreApplication i).score ≤ 599) ∧
      (d.outcome = .deny → d.principalReasons ≠ []) ∧
      (d.outcome ≠ .approve → States (scoreApplication i).attributions d.principalReasons) ∧
      (d.outcome = .approve → d.principalReasons = []) := by
  obtain ⟨d, rs, hd, hstates, houtcome, hreasons⟩ := runDecision_ok i source
  obtain ⟨happrove, hrefer, hdeny⟩ := policyBand_bands (scoreApplication i).score
  have hadverse : d.outcome ≠ .approve → States (scoreApplication i).attributions
      d.principalReasons := fun h => by
    rw [hreasons, if_neg h]
    exact hstates
  refine ⟨d, hd, by rwa [houtcome], by rwa [houtcome], by rwa [houtcome], fun h => ?_, hadverse,
    fun h => by rw [hreasons, if_pos h]⟩
  obtain ⟨a, ha, hneg⟩ := policyBand_deny (houtcome.symm.trans h)
  exact (hadverse (by rw [h]; nofun)).ne_nil ha hneg

/-- No employment, and a score of 756. -/
def unemployed : ScoringInputs :=
  ⟨some 800, some 120000, some 12000, some 24, some 1000, some 0⟩

/-- An approval with a negative contribution records no reason. -/
theorem approved_with_negative : ∃ d, runDecision unemployed .bureau = .ok d ∧
    ¬ States (scoreApplication unemployed).attributions d.principalReasons := by
  obtain ⟨d, rs, hd, -, houtcome, hreasons⟩ := runDecision_ok unemployed .bureau
  have hband : policyBand (scoreApplication unemployed).score = .approve := by decide +kernel
  have hneg : (scoreApplication unemployed).attributions.any (·.negative) = true := by
    decide +kernel
  obtain ⟨a, ha, hneg⟩ := List.any_eq_true.mp hneg
  refine ⟨d, hd, fun h => h.ne_nil ha hneg ?_⟩
  rw [hreasons, if_pos (houtcome.trans hband)]

end Meridian.Decisioning.Stub
