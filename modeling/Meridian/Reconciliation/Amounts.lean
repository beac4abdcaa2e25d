import Meridian.Ledger.Services
import Meridian.Reconciliation.Rows

/-!
# The writer and the reader of an amount

`charge` stores an amount as the float it got, with the `amount_minor` it rounds half up from the
float's text. `load_ledger` derives the minor units again from the stored float's text, and refuses
what it would have to round. The two agree on every amount whose text is a plain decimal of at
most two places (`PlainCents`); on any other the reader aborts (`minorUnits_repr`,
`reader_agrees`).
-/

namespace Meridian.Reconciliation

open Python Ledger F64

/-! ## One amount -/

/-- The digits after the point of a text that starts with digits. -/
def decimalPlaces (t : Text) : List Nat := (Decimal.takeFraction (takeDigits t).2).1

/-- The text is an unsigned plain decimal of at most two places. -/
def PlainCents (t : Text) : Prop := plainDecimal t = true ∧ (decimalPlaces t).length ≤ 2

instance (t : Text) : Decidable (PlainCents t) := inferInstanceAs (Decidable (_ ∧ _))

section Text

variable {ip fp : List Nat}

theorem decimalPlaces_fixedText (h : Parts ip fp) : decimalPlaces (fixedText false ip fp) = fp := by
  unfold decimalPlaces
  rw [takeDigits_fixedText h.int_lt]
  exact congrArg Prod.fst (takeDigits_digitText h.frac_lt)

theorem plainDecimal_minus (t : Text) : plainDecimal ('-' :: t) = false := rfl

theorem plainDecimal_scientificText {ds : List Nat} (h : Digits ds) (k : Int) :
    plainDecimal (scientificText ds k) = false := by
  obtain ⟨d, es, heq, htext⟩ := scientificText_cases h k
  rw [heq] at h
  have hd : ∀ e ∈ [d], e < 10 := fun e he => h.lt e (by simpa using .inl (List.mem_singleton.mp he))
  rw [htext]
  unfold plainDecimal
  by_cases hes : es = []
  · have htake : takeDigits (digitChar d :: ([] ++ 'e' :: exponentText (k - 1))) =
        ([d], 'e' :: exponentText (k - 1)) := takeDigits_map_digitChar hd (by simp; decide)
    rw [if_pos hes, htake]
    rfl
  · have htake : takeDigits (digitChar d :: ('.' :: digitText es ++ 'e' :: exponentText (k - 1))) =
        ([d], '.' :: (digitText es ++ 'e' :: exponentText (k - 1))) :=
      takeDigits_map_digitChar hd (by simp; decide)
    have hfrac : takeDigits (digitText es ++ 'e' :: exponentText (k - 1)) =
        (es, 'e' :: exponentText (k - 1)) :=
      takeDigits_map_digitChar (fun e he => h.lt e (List.mem_cons_of_mem d he)) (by simp; decide)
    rw [if_neg hes, htake]
    simp [hfrac]

/-- The reader's pattern matches the text of a float exactly in unsigned fixed notation. -/
theorem plainDecimal_repr (f : F64) :
    plainDecimal f.repr = true ↔ f.neg = false ∧ Fixed f.digits.2 := by
  by_cases hneg : f.neg = true
  · have htext : ∃ t, f.repr = '-' :: t := by
      rw [F64.repr, hneg]
      exact ⟨_, rfl⟩
    obtain ⟨t, htext⟩ := htext
    rw [htext, plainDecimal_minus, hneg]
    simp
  · have hneg : f.neg = false := by simpa using hneg
    by_cases hk : Fixed f.digits.2
    · rw [repr_fixed hk, hneg]
      have hparts := parts_spec hk
      exact ⟨fun _ => ⟨rfl, hk⟩, fun _ => plainDecimal_fixedText hparts.int_lt hparts.frac_lt
        hparts.int_ne_nil hparts.frac_ne_nil⟩
    · rw [F64.repr, if_neg hk, hneg]
      constructor
      · intro h
        have hfalse := plainDecimal_scientificText (digits_spec f) f.digits.2
        rw [signText, if_neg (by simp), List.nil_append, hfalse] at h
        cases h
      · exact fun h => absurd h.2 hk

theorem ofDigits_parts_lt (h : Parts ip fp) : ofDigits (ip ++ fp) < 10 ^ 21 := by
  have hlt : ∀ d ∈ ip ++ fp, d < 10 := fun d hd =>
    (List.mem_append.mp hd).elim (h.int_lt d) (h.frac_lt d)
  have hlen : (ip ++ fp).length ≤ 21 := by
    rw [List.length_append]
    exact h.length_le
  exact (ofDigits_lt hlt).trans_le (Nat.pow_le_pow_right (by decide) hlen)

theorem cents_lt (h : Parts ip fp) : ofDigits (ip ++ fp) * 10 ^ (2 - fp.length) < 10 ^ 22 := by
  have hpos : 0 < fp.length := List.length_pos_iff.mpr h.frac_ne_nil
  calc ofDigits (ip ++ fp) * 10 ^ (2 - fp.length)
      ≤ ofDigits (ip ++ fp) * 10 ^ 1 :=
        Nat.mul_le_mul_left _ (Nat.pow_le_pow_right (by decide) (by omega))
    _ < 10 ^ 21 * 10 ^ 1 := (Nat.mul_lt_mul_right (by decide)).mpr (ofDigits_parts_lt h)
    _ = 10 ^ 22 := by norm_num

/-- Whole cents and more than two places exclude each other: the last place is no zero. -/
theorem dvd_cents_iff (h : Parts ip fp) :
    10 ^ fp.length ∣ ofDigits (ip ++ fp) * 100 ↔ fp.length ≤ 2 := by
  constructor
  · intro hdvd
    by_contra hlen
    obtain ⟨n, hn⟩ : ∃ n, fp.length = n + 3 := ⟨fp.length - 3, by omega⟩
    rcases h.last with hone | ⟨es, d, rfl, hd⟩
    · omega
    · have hten : 10 ∣ ofDigits (ip ++ (es ++ [d])) := by
        have : 10 ^ 3 ∣ ofDigits (ip ++ (es ++ [d])) * 100 :=
          (pow_dvd_pow 10 (by omega)).trans hdvd
        omega
      rw [← List.append_assoc, ofDigits_append] at hten
      have hlast : ofDigits [d] = d := by simp [ofDigits]
      have := h.frac_lt d (by simp)
      rw [hlast, List.length_singleton] at hten
      omega
  · intro hlen
    have hpow : 10 ^ fp.length ∣ 100 := by
      have : fp.length = 0 ∨ fp.length = 1 ∨ fp.length = 2 := by omega
      rcases this with h0 | h0 | h0 <;> rw [h0] <;> decide
    exact hpow.trans (Dvd.intro_left _ rfl)

/-- **The reader on fixed notation**: the cents of at most two places, an abort for more. -/
theorem minorUnits_fixedText (source : Source) (h : Parts ip fp) :
    minorUnits source (some (fixedText false ip fp)) =
      if fp.length ≤ 2 then .ok (ofDigits (ip ++ fp) * 10 ^ (2 - fp.length) : Nat)
      else .error (.abort (.amountSubCent source (fixedText false ip fp))) := by
  have hstrip : strip (fixedText false ip fp) = fixedText false ip fp :=
    strip_eq fun c hc => (mem_fixedText h.int_lt h.frac_lt c hc).1
  have hof := ofText_fixedText false h.int_lt h.frac_lt h.int_ne_nil
  have hn := ofDigits_parts_lt h
  have hlen := h.length_le
  have hpos : 0 < fp.length := List.length_pos_iff.mpr h.frac_ne_nil
  have hmul : Decimal.mul ⟨false, ofDigits (ip ++ fp), -fp.length⟩ minorUnitsPerMajor =
      .ok ⟨false, ofDigits (ip ++ fp) * 100, -fp.length⟩ := by
    have hfix := Decimal.fix_eq (d := ⟨false, ofDigits (ip ++ fp) * 100, -fp.length⟩)
      (by simp only; omega) (by simp only; omega) (by simp only; omega)
    unfold Decimal.mul minorUnitsPerMajor
    simpa using hfix
  unfold minorUnits
  simp only [hstrip, plainDecimal_fixedText h.int_lt h.frac_lt h.int_ne_nil h.frac_ne_nil, hof, hmul]
  -- the number is whole exactly when the places divide it
  have hround : (-(-(fp.length : Int))).toNat = fp.length := by omega
  have hmin : min (-(fp.length : Int)) 0 = -fp.length := by omega
  have hshift : (0 - -(fp.length : Int)).toNat = fp.length := by omega
  have hwhole : (Decimal.numEq ⟨false, ofDigits (ip ++ fp) * 100, -fp.length⟩
      (Decimal.toIntegralValue ⟨false, ofDigits (ip ++ fp) * 100, -fp.length⟩)) = true ↔
      10 ^ fp.length ∣ ofDigits (ip ++ fp) * 100 := by
    unfold Decimal.toIntegralValue Decimal.numEq
    rw [if_neg (by simp only; omega)]
    simp only [Decimal.scaledTo, Decimal.rescaled, if_neg (show ¬ (0 : Int) ≤ -fp.length by omega),
      hround, hmin, hshift, sub_self, Int.toNat_zero, pow_zero, mul_one, signed, beq_iff_eq]
    constructor
    · intro heq
      have heq : ofDigits (ip ++ fp) * 100 =
          Decimal.halfEven (ofDigits (ip ++ fp) * 100) fp.length * 10 ^ fp.length := by
        simpa using Int.ofNat_inj.mp (by simpa using heq)
      exact Dvd.intro_left _ heq.symm
    · intro hdvd
      rw [Decimal.halfEven_of_dvd hdvd, Nat.div_mul_cancel hdvd]
  by_cases h2 : fp.length ≤ 2
  · have hdvd := (dvd_cents_iff h).mpr h2
    rw [if_pos h2, if_neg (by simp), if_neg (by rw [hwhole.mpr hdvd]; simp)]
    have hquot : ofDigits (ip ++ fp) * 100 / 10 ^ fp.length =
        ofDigits (ip ++ fp) * 10 ^ (2 - fp.length) := by
      have h100 : 100 = 10 ^ (2 - fp.length) * 10 ^ fp.length := by
        rw [← pow_add, Nat.sub_add_cancel h2]
        rfl
      rw [h100, ← mul_assoc, Nat.mul_div_cancel _ (by positivity)]
    simp only [Decimal.toInt, Decimal.rescaled, if_neg (show ¬ (0 : Int) ≤ -fp.length by omega),
      hround, hquot, signed]
    rfl
  · have hnot : ¬ 10 ^ fp.length ∣ ofDigits (ip ++ fp) * 100 :=
      fun hd => h2 ((dvd_cents_iff h).mp hd)
    rw [if_neg h2, if_neg (by simp), if_pos (by simpa using mt hwhole.mp hnot)]

/-- **The writer on fixed notation** of at most two places: the same cents. -/
theorem amountMinor_fixed {f : F64} (h : Parts ip fp) (hf : f.repr = fixedText false ip fp)
    (h2 : fp.length ≤ 2) :
    amountMinor f = .ok (ofDigits (ip ++ fp) * 10 ^ (2 - fp.length) : Nat) := by
  have hof := ofText_fixedText false h.int_lt h.frac_lt h.int_ne_nil
  have hn := ofDigits_parts_lt h
  have hpos : 0 < fp.length := List.length_pos_iff.mpr h.frac_ne_nil
  have hcents := cents_lt h
  have hexp : -(fp.length : Int) + 2 = ((2 - fp.length : Nat) : Int) := by omega
  have hscale : Decimal.scaleb ⟨false, ofDigits (ip ++ fp), -fp.length⟩ 2 =
      .ok ⟨false, ofDigits (ip ++ fp), ((2 - fp.length : Nat) : Int)⟩ := by
    unfold Decimal.scaleb
    rw [hexp]
    exact Decimal.fix_eq (by simp only; omega) (by simp only; omega) (by simp only; omega)
  have hquant : Decimal.quantizeUnit ⟨false, ofDigits (ip ++ fp), ((2 - fp.length : Nat) : Int)⟩ =
      .ok ⟨false, ofDigits (ip ++ fp) * 10 ^ (2 - fp.length), 0⟩ := by
    have hround : Decimal.rescaled Decimal.halfUp
        ⟨false, ofDigits (ip ++ fp), ((2 - fp.length : Nat) : Int)⟩ =
        ofDigits (ip ++ fp) * 10 ^ (2 - fp.length) := by
      simp [Decimal.rescaled]
    have hfix := Decimal.fix_eq (d := ⟨false, ofDigits (ip ++ fp) * 10 ^ (2 - fp.length), 0⟩)
      (by simp only; omega) (by simp) (by simp)
    have hdigits := Decimal.numDigits_le (k := 21) (by decide) hn
    have hdigits' := Decimal.numDigits_le (k := 22) (by decide) hcents
    unfold Decimal.quantizeUnit
    split_ifs with h0 hbig hlong hlong'
    · simp only at h0
      simpa [h0] using hfix
    · simp only [Decimal.adjusted, Decimal.eMax] at hbig
      omega
    · simp only [Decimal.adjusted, Decimal.prec] at hlong
      omega
    · rw [hround] at hlong'
      simp only [Decimal.prec] at hlong'
      omega
    · rw [hround]
      exact hfix
  unfold amountMinor
  rw [hf]
  simp only [hof, hscale, hquant]
  simp [Decimal.toInt, Decimal.rescaled, signed]

end Text

/-- **One amount.** The reader derives the writer's minor units from a plain decimal of at most two
places, and aborts on any other text of a float. -/
theorem minorUnits_repr (source : Source) (f : F64) :
    if PlainCents f.repr then
      ∃ m, minorUnits source (some f.repr) = .ok m ∧ amountMinor f = .ok m
    else ∃ a, minorUnits source (some f.repr) = .error (.abort a) := by
  by_cases hplain : plainDecimal f.repr = true
  · obtain ⟨hneg, hk⟩ := (plainDecimal_repr f).mp hplain
    have h := parts_spec hk
    have hf := repr_fixed hk
    rw [hneg] at hf
    have hplaces : decimalPlaces f.repr = (fixedParts f.digits.1 f.digits.2).2 := by
      rw [hf]
      exact decimalPlaces_fixedText h
    by_cases h2 : (fixedParts f.digits.1 f.digits.2).2.length ≤ 2
    · rw [if_pos ⟨hplain, by rw [hplaces]; exact h2⟩]
      refine ⟨_, ?_, amountMinor_fixed h hf h2⟩
      rw [hf, minorUnits_fixedText source h, if_pos h2]
    · rw [if_neg fun hp => h2 (by rw [← hplaces]; exact hp.2)]
      rw [hf, minorUnits_fixedText source h, if_neg h2]
      exact ⟨_, rfl⟩
  · rw [if_neg fun hp => hplain hp.1]
    refine ⟨.amountNotPlain source f.repr, ?_⟩
    simp only [minorUnits, strip_eq isSpace_repr]
    rw [if_pos (by simpa using hplain)]

/-- The minor units of a float are below ten to the twenty-second. -/
theorem minorUnits_repr_lt {source : Source} {f : F64} {m : Int}
    (h : minorUnits source (some f.repr) = .ok m) : 0 ≤ m ∧ m < 10 ^ 22 := by
  by_cases hcents : PlainCents f.repr
  · obtain ⟨hneg, hk⟩ := (plainDecimal_repr f).mp hcents.1
    have hparts := parts_spec hk
    have hf := repr_fixed hk
    rw [hneg] at hf
    rw [hf, minorUnits_fixedText source hparts] at h
    split_ifs at h
    cases h
    exact ⟨Int.natCast_nonneg _, by exact_mod_cast cents_lt hparts⟩
  · have hread := minorUnits_repr source f
    rw [if_neg hcents, h] at hread
    obtain ⟨a, ha⟩ := hread
    cases ha

/-! ## A window of charged rows -/

/-- The row was claimed by some `charge`: it has the loan, the amount and the minor units of the
charge's parameters. -/
def Charged (p : Payment) : Prop :=
  ∃ d ttl c key a, chargeIntent d ttl c key = .ok a ∧ p.loanId = some a.loanId ∧
    p.amount = a.amount ∧ p.amountMinor = some a.amountMinor

/-- The columns of a row and its `created_at` that the ledger query selects. -/
def selected (p : Payment) (createdAt : Int) : PaymentRow :=
  ⟨p.id, p.loanId, .finite p.amount, some createdAt⟩

/-- The ledger row with the minor units the writer stored. -/
def storedRow (p : Payment) (createdAt : Int) : Option LedgerRow :=
  match p.loanId, p.amountMinor with
  | some loanId, some amountMinor => some ⟨p.id, loanId, amountMinor, createdAt⟩
  | _, _ => none

section Window

variable {p : Payment} {c f t : Int}

theorem Charged.amounts (h : Charged p) :
    (∃ l, p.loanId = some l) ∧ ∃ m, p.amountMinor = some m ∧ amountMinor p.amount = .ok m := by
  obtain ⟨d, ttl, ch, key, a, ha, hl, hamt, hm⟩ := h
  unfold chargeIntent at ha
  cases hminor : amountMinor ch.amount with
  | error e =>
    rw [hminor] at ha
    cases ha
  | ok m =>
    rw [hminor] at ha
    cases ha
    exact ⟨⟨_, hl⟩, m, hm, by rw [hamt]; exact hminor⟩

/-- A charged row loads with the minor units stored on it, when its amount is plain. -/
theorem typedRow_selected (h : Charged p) (hp : PlainCents p.amount.repr) :
    typedRow (selected p c) = storedRow p c ∧ (storedRow p c).isSome := by
  obtain ⟨⟨l, hl⟩, m, hm, hminor⟩ := h.amounts
  have hread := minorUnits_repr (.payment p.id) p.amount
  rw [if_pos hp] at hread
  obtain ⟨n, hn, hminor'⟩ := hread
  rw [hminor] at hminor'
  cases hminor'
  simp [typedRow, selected, storedRow, hl, hm, Double.repr, hn]

/-- A charged row whose amount is not plain aborts its window. -/
theorem ledgerRow_selected (h : Charged p) (hp : ¬ PlainCents p.amount.repr)
    (hin : between f t (dateOf c) = true) :
    typedRow (selected p c) = none ∧ ∃ a, ledgerRow f t (selected p c) = .error (.abort a) := by
  obtain ⟨⟨l, hl⟩, -⟩ := h.amounts
  have hread := minorUnits_repr (.payment p.id) p.amount
  rw [if_neg hp] at hread
  obtain ⟨a, ha⟩ := hread
  constructor
  · simp [typedRow, selected, hl, Double.repr, ha]
  · refine ⟨a, ?_⟩
    simp only [ledgerRow, selected, hl, Double.repr, ha, hin]
    rfl

/-- **The reader agrees with the writer** on every window of charged rows with plain amounts, row by
row, and aborts on every other window. -/
theorem reader_agrees {ps : List (Payment × Int)} (hps : ∀ x ∈ ps, Charged x.1)
    (hupper : addDays t 1 = some (t + 1)) (f : Int) :
    ((∀ x ∈ ps, between f t (dateOf x.2) = true → PlainCents x.1.amount.repr) →
      ∃ L, loadLedger (some (ps.map fun x => selected x.1 x.2)) f t = .ok L ∧
        L.Perm ((ps.filter fun x => between f t (dateOf x.2)).filterMap
          fun x => storedRow x.1 x.2)) ∧
    ((∃ x ∈ ps, between f t (dateOf x.2) = true ∧ ¬ PlainCents x.1.amount.repr) →
      ∃ a, loadLedger (some (ps.map fun x => selected x.1 x.2)) f t = .error (.abort a)) := by
  have hcases := loadLedger_cases hupper (ps.map fun x => selected x.1 x.2) f
  constructor
  · intro hplain
    rcases hcases with ⟨⟨L, hL, hperm⟩, -⟩ | ⟨e, -, r, hr, hin, hnone, -⟩
    · refine ⟨L, hL, hperm.trans ?_⟩
      rw [List.filter_map, List.filterMap_map]
      refine List.Perm.of_eq (List.filterMap_congr fun x hx => ?_)
      obtain ⟨hmem, hin⟩ := List.mem_filter.mp hx
      exact (typedRow_selected (hps x hmem) (hplain x hmem hin)).1
    · obtain ⟨x, hx, rfl⟩ := List.mem_map.mp hr
      obtain ⟨hsame, hsome⟩ := typedRow_selected (c := x.2) (hps x hx) (hplain x hx hin)
      rw [← hsame, hnone] at hsome
      cases hsome
  · rintro ⟨x, hx, hin, hplain⟩
    rcases hcases with ⟨-, hall⟩ | ⟨e, he, r, hr, hin', hnone, herr⟩
    · have hsome := hall _ (List.mem_map_of_mem hx) hin
      rw [(ledgerRow_selected (hps x hx) hplain hin).1] at hsome
      cases hsome
    · obtain ⟨y, hy, rfl⟩ := List.mem_map.mp hr
      have hbad : ¬ PlainCents y.1.amount.repr := fun hp => by
        have hsome := typedRow_selected (c := y.2) (hps y hy) hp
        rw [← hsome.1, hnone] at hsome
        cases hsome.2
      obtain ⟨a, ha⟩ := (ledgerRow_selected (f := f) (t := t) (hps y hy) hbad hin').2
      rw [herr] at ha
      cases ha
      exact ⟨a, he⟩

end Window

/-- A charge of one amount by card on loan 1. -/
def chargeOf (amount : F64) : ChargeIn := ⟨1, none, amount, ['c', 'a', 'r', 'd'], some ['k']⟩

/-- 0.125 -/
def eighth : F64 := ⟨false, 2 ^ 52, -55, by decide⟩

/-- The row a charge of the amount claims, with the minor units it computes. -/
def rowOf (amount : F64) (minor : Int) : Payment :=
  ⟨1, some 1, none, amount, some minor, some ['c', 'a', 'r', 'd'], .captured, none, none, none⟩

theorem charged_rowOf {amount : F64} {minor : Int} (h : amountMinor amount = .ok minor) :
    Charged (rowOf amount minor) := by
  have hc : amountMinor (chargeOf amount).amount = .ok minor := h
  let a : Intent := ⟨1, none, amount, minor, ['c', 'a', 'r', 'd'], ['k'],
    paymentIdempotencyTtlHours [], requestFingerprint sampleDeployment 1 minor ['c', 'a', 'r', 'd'] none⟩
  refine ⟨sampleDeployment, [], chargeOf amount, ['k'], a, ?_, rfl, rfl, rfl⟩
  unfold chargeIntent
  rw [hc]
  rfl

/-- Noon of 2026-05-31. -/
def noon : Int := 739767 * microsPerDay + 43200000000

/-- **The writer rounds, the reader refuses**: `charge` stores 13 minor units for 0.125, and the
row aborts its window. -/
theorem eighth_aborts : Charged (rowOf eighth 13) ∧
    loadLedger (some [selected (rowOf eighth 13) noon]) 739767 739767 =
      .error (.abort (.amountSubCent (.payment 1) "0.125".toList)) :=
  ⟨charged_rowOf (by decide +kernel), by decide +kernel⟩

theorem reader_reads : ∃ L, loadLedger (some [selected (rowOf sampleAmount 1250) noon])
    739767 739767 = .ok L ∧ L.Perm [⟨1, 1, 1250, noon⟩] := by
  have hps : ∀ x ∈ [(rowOf sampleAmount 1250, noon)], Charged x.1 := by
    intro x hx
    rw [List.mem_singleton.mp hx]
    exact charged_rowOf (by decide +kernel)
  exact (reader_agrees hps (by decide +kernel) 739767).1 (by decide +kernel)

end Meridian.Reconciliation
