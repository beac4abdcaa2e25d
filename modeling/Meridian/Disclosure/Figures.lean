import Meridian.Disclosure.Record

/-!
# How the figures of a record relate

* `box_adds_up`: on a principal of whole cents the amount financed and the finance charge make the
  total of payments, and the offer built from the same inputs has the record's figures.
* `recomputes`: on a principal of whole cents the snapshot gives the record's figures again; the
  fingerprint comes out of the columns whatever the principal is.

The figures are rounded one by one. That they add up rests on the sums in between being exact, since
no figure has more digits than the total of payments (`fix_shift`), and a whole number of cents then
passes through the rounding.
-/

namespace Meridian.Disclosure

open Python Numeric

/-- The principal is a whole number of cents. -/
def Terms.WholeCents (t : Terms) : Prop := ∃ k : ℤ, toDecimal t.principal = k / 100

/-- The figures of a row as numbers. -/
def Record.box (r : Record) : Box ℚ :=
  ⟨r.apr / 1000, r.financeChargeCents / 100, r.monthlyPaymentCents / 100,
    r.amountFinancedCents / 100, r.totalOfPaymentsCents / 100⟩

/-! ## Rounded operations -/

theorem fix_near (x : ℚ) : |Context.default.fix x - x| ≤ |x| / 1000 := by
  have hnear := roundTo_near 28 x
  have hsmall : (10 : ℚ) ^ (1 - ((28 : ℕ) : ℤ)) / 2 ≤ 1 / 1000 := by norm_num
  have hle := mul_le_mul_of_nonneg_left hsmall (abs_nonneg x)
  rw [Context.fix_default]
  linarith

/-- Whole hundredths that fit are kept. -/
theorem fix_hundredths {n : ℤ} (hn : |n| ≤ 10 ^ 28) :
    Context.default.fix (n / 100) = n / 100 := by
  rw [Context.fix_default]
  exact roundTo_eq (by norm_num) n (-2) (by norm_num; ring) hn

theorem fix_intCast {n : ℤ} (hn : |n| ≤ 10 ^ 28) : Context.default.fix n = n := by
  rw [Context.fix_default]
  exact roundTo_eq (by norm_num) n 0 (by rw [zpow_zero, mul_one]) hn

theorem quantize_ok {unit x y : ℚ} (h : Context.default.quantize unit x = .ok y) :
    y = halfUp (x / unit) * unit ∧ |halfUp (x / unit)| < 10 ^ 28 := by
  unfold Context.quantize at h
  split_ifs at h with hlong
  cases h
  exact ⟨rfl, Context.tooLong_default.mp (Bool.eq_false_of_not_eq_true hlong)⟩

theorem quantize_eq {unit x : ℚ} {n : ℤ} (h : halfUp (x / unit) = n) (hn : |n| < 10 ^ 28) :
    Context.default.quantize unit x = .ok (n * unit) := by
  unfold Context.quantize
  rw [h, Context.tooLong_default.mpr hn]
  rfl

theorem div_cents (x : ℚ) : x / cents = x * 100 := by
  unfold cents
  ring

theorem toCentPlaces_ok {x y : ℚ} (h : toCentPlaces x = .ok y) :
    y = halfUp (x * 100) / 100 ∧ |halfUp (x * 100)| < 10 ^ 28 := by
  obtain ⟨hy, hlt⟩ := quantize_ok (of_raising_ok h)
  rw [div_cents] at hy hlt
  refine ⟨?_, hlt⟩
  rw [hy, cents]
  ring

theorem toCentPlaces_eq {x : ℚ} {n : ℤ} (h : halfUp (x * 100) = n) (hn : |n| < 10 ^ 28) :
    toCentPlaces x = .ok (n / 100) := by
  unfold toCentPlaces
  rw [quantize_eq (by rw [div_cents, h]) hn, cents]
  exact congrArg Except.ok (by ring)

theorem toCents_ok {x : ℚ} {n : ℤ} (h : toCents x = .ok n) :
    n = halfUp (Context.default.fix (x * 100)) ∧ |n| < 10 ^ 28 := by
  obtain ⟨w, hw, hn⟩ := of_bind_ok h
  obtain ⟨hw, hlt⟩ := quantize_ok (of_raising_ok hw)
  cases hn
  rw [hw, div_one, mul_one, Int.floor_intCast]
  rw [div_one] at hlt
  exact ⟨rfl, hlt⟩

theorem toCents_eq {x : ℚ} {n : ℤ} (h : halfUp (Context.default.fix (x * 100)) = n)
    (hn : |n| < 10 ^ 28) : toCents x = .ok n := by
  unfold toCents
  rw [quantize_eq (by rw [div_one, h]) hn, mul_one]
  exact congrArg Except.ok (Int.floor_intCast n)

/-- A figure in cents keeps them. -/
theorem toCents_hundredths {n : ℤ} (hn : |n| < 10 ^ 28) : toCents (n / 100) = .ok n := by
  refine toCents_eq ?_ hn
  rw [div_mul_cancel₀ _ (by norm_num), fix_intCast hn.le, halfUp_intCast]

theorem toCentPlaces_hundredths {n : ℤ} (hn : |n| < 10 ^ 28) :
    toCentPlaces (n / 100) = .ok (n / 100) := by
  refine toCentPlaces_eq ?_ hn
  rw [div_mul_cancel₀ _ (by norm_num), halfUp_intCast]

/-- A rounded figure is counted as it is. -/
theorem toCents_of_toCentPlaces {x y : ℚ} {c : ℤ} (hx : toCentPlaces x = .ok y)
    (hc : toCents y = .ok c) : y = c / 100 ∧ c = halfUp (x * 100) ∧ |c| < 10 ^ 28 := by
  obtain ⟨hy, hlt⟩ := toCentPlaces_ok hx
  rw [hy, toCents_hundredths hlt] at hc
  cases hc
  exact ⟨hy, rfl, hlt⟩

/-- A result keeps its digits when it is counted in cents. -/
theorem fix_mul_hundred (x : ℚ) :
    Context.default.fix (Context.default.fix x * 100) = Context.default.fix x * 100 := by
  obtain ⟨n, hn, hle⟩ := roundTo_form 28 x
  rw [Context.fix_default, Context.fix_default x]
  refine roundTo_eq (by norm_num) n (Int.log 10 |x| + 1 - (28 : ℕ) + 2) ?_ hle
  rw [hn, quantum, zpow_add₀ (by norm_num) _ 2]
  norm_num
  ring

/-- A number moved by whole cents towards zero keeps its digits. -/
theorem fix_shift {total : ℚ} {units e c : ℤ} (htotal : total = units * 10 ^ e) (he : e ≤ -2)
    (hunits : |units| ≤ 10 ^ 28) (hle : |total + c / 100| ≤ |total|) :
    Context.default.fix (total + c / 100) = total + c / 100 := by
  have hpos : (0 : ℚ) < 10 ^ e := by positivity
  have hsplit : (1 : ℚ) / 100 = 10 ^ (-2 - e).toNat * 10 ^ e := by
    rw [← zpow_natCast, ← zpow_add₀ (by norm_num), Int.toNat_of_nonneg (by omega)]
    norm_num
  have hform : total + c / 100 = ((units + c * 10 ^ (-2 - e).toNat : ℤ) : ℚ) * 10 ^ e := by
    push_cast
    rw [add_mul, mul_assoc, ← hsplit, htotal]
    ring
  rw [Context.fix_default]
  refine roundTo_eq (by norm_num) _ e hform ?_
  rw [hform, htotal, abs_mul, abs_mul, abs_of_pos hpos] at hle
  have hcoeff := le_of_mul_le_mul_right hle hpos
  exact le_trans (by exact_mod_cast hcoeff) hunits

/-! ## What a computed figure is -/

section Computed

variable {feePct principal rate : ℚ} {n : ℤ}

theorem prepaidFinanceCharge_ok {fee : ℚ}
    (h : prepaidFinanceCharge .default feePct principal = .ok fee) :
    fee = halfUp (Context.default.fix (principal * feePct) * 100) / 100 ∧
      |halfUp (Context.default.fix (principal * feePct) * 100)| < 10 ^ 28 :=
  toCentPlaces_ok h

theorem amountFinanced_ok {financed : ℚ} (h : amountFinanced .default feePct principal = .ok financed) :
    ∃ fee, prepaidFinanceCharge .default feePct principal = .ok fee ∧
      financed = Context.default.fix (principal - fee) := by
  obtain ⟨fee, hfee, h⟩ := of_bind_ok h
  cases h
  exact ⟨fee, hfee, rfl⟩

theorem financeCharge_ok {charge : ℚ} (h : financeCharge .default feePct principal rate n = .ok charge) :
    ∃ payment fee, monthlyPayment .default principal rate n = .ok payment ∧
      prepaidFinanceCharge .default feePct principal = .ok fee ∧
      toCentPlaces (Context.default.fix (Context.default.fix
        (Context.default.fix (payment * n) - principal) + fee)) = .ok charge := by
  obtain ⟨interest, hinterest, h⟩ := of_bind_ok h
  obtain ⟨fee, hfee, h⟩ := of_bind_ok h
  obtain ⟨_, -, hinterest⟩ := of_bind_ok hinterest
  obtain ⟨payment, hpayment, hinterest⟩ := of_bind_ok hinterest
  cases hinterest
  exact ⟨payment, fee, hpayment, hfee, h⟩

/-- The rate has three places. -/
theorem computeApr_ok {apr : ℚ} (h : computeApr .default feePct principal rate n = .ok apr) :
    ∃ k : ℤ, apr = k / 1000 := by
  obtain ⟨_, -, h⟩ := of_bind_ok h
  obtain ⟨payment, -, h⟩ := of_bind_ok h
  obtain ⟨financed, -, h⟩ := of_bind_ok h
  split_ifs at h
  obtain ⟨hapr, -⟩ := quantize_ok (of_raising_ok h)
  rw [aprPlaces, mul_one_div] at hapr
  exact ⟨_, hapr⟩

theorem compute_ok {b : Box ℚ} (h : compute feePct principal rate n = .ok b) :
    ∃ payment, monthlyPayment .default principal rate n = .ok payment ∧
      computeApr .default feePct principal rate n = .ok b.apr ∧
      financeCharge .default feePct principal rate n = .ok b.financeCharge ∧
      amountFinanced .default feePct principal = .ok b.amountFinanced ∧
      toCentPlaces payment = .ok b.monthlyPayment ∧
      toCentPlaces (Context.default.fix (payment * n)) = .ok b.totalOfPayments := by
  obtain ⟨payment, hpayment, h⟩ := of_bind_ok h
  obtain ⟨apr, hapr, h⟩ := of_bind_ok h
  obtain ⟨charge, hcharge, h⟩ := of_bind_ok h
  obtain ⟨financed, hfinanced, h⟩ := of_bind_ok h
  obtain ⟨monthly, hmonthly, h⟩ := of_bind_ok h
  obtain ⟨total, htotal, h⟩ := of_bind_ok h
  cases h
  exact ⟨payment, hpayment, hapr, hcharge, hfinanced, hmonthly, htotal⟩

end Computed

/-- What the outputs of computed figures are. -/
theorem outputs_ok {b : Box ℚ} {o : Outputs} (h : outputs b = .ok o) :
    o.apr = threePlaces ⌊b.apr * 1000⌋ ∧ toCents b.financeCharge = .ok o.financeChargeCents ∧
      toCents b.amountFinanced = .ok o.amountFinancedCents ∧
      toCents b.monthlyPayment = .ok o.monthlyPaymentCents ∧
      toCents b.totalOfPayments = .ok o.totalOfPaymentsCents := by
  obtain ⟨charge, hcharge, h⟩ := of_bind_ok h
  obtain ⟨financed, hfinanced, h⟩ := of_bind_ok h
  obtain ⟨monthly, hmonthly, h⟩ := of_bind_ok h
  obtain ⟨total, htotal, h⟩ := of_bind_ok h
  cases h
  exact ⟨rfl, hcharge, hfinanced, hmonthly, htotal⟩

theorem of_orRaise_ok {α : Type} {x : Except Fault α} {a : α} (h : orRaise x = .ok a) :
    x = .ok a := by
  cases x with
  | error f => cases h
  | ok b =>
    cases h
    rfl

theorem threePlaces_value (k : ℤ) : (threePlaces k).value = k / 1000 := by
  rw [Decimal.value, threePlaces, signed_natAbs]
  norm_num
  ring

@[simp] theorem numericThousandths_threePlaces (k : ℤ) : numericThousandths (threePlaces k) = k := by
  rw [numericThousandths, threePlaces_value, div_mul_cancel₀ _ (by norm_num), halfUp_intCast]

/-- What a persisted record holds. -/
structure Persisted (sha256 : Text → Text) (s : FeeSchedule) (t : Terms) (r : Record) : Prop where
  snapshot : snapshot s t = .ok r.computeSnapshot
  outputs : ∃ b, compute (toDecimal s.originationFeePct) (toDecimal t.principal)
    (toDecimal t.annualRate) t.termMonths = .ok b ∧ outputs b = .ok r.persistedOutputs
  fits : fits r.apr r.persistedOutputs
  version : r.feeScheduleVersion = s.version ∧ r.aprMethodVersion = aprMethodVersion
  fingerprint : r.contentFingerprint = computeFingerprint sha256 r.computeSnapshot s.version
    aprMethodVersion r.persistedOutputs

theorem createRecord_ok {sha256 : Text → Text} {s : FeeSchedule} {t : Terms} {offer : OfferBox}
    {document : Option Document} {r : Record}
    (h : createRecord sha256 s t offer document = .ok r) : Persisted sha256 s t r := by
  obtain ⟨b, hb, h⟩ := of_bind_ok h
  obtain ⟨_, -, h⟩ := of_bind_ok h
  obtain ⟨inputs, hinputs, h⟩ := of_bind_ok h
  obtain ⟨o, ho, h⟩ := of_bind_ok h
  obtain ⟨_, -, h⟩ := of_bind_ok h
  have ho := of_orRaise_ok ho
  have hthousandths : threePlaces (numericThousandths o.apr) = o.apr := by
    rw [(outputs_ok ho).1, numericThousandths_threePlaces]
  dsimp only [persist] at h
  split_ifs at h with hfits hchecks
  cases h
  have hout : (⟨threePlaces (numericThousandths o.apr), o.financeChargeCents, o.amountFinancedCents,
      o.monthlyPaymentCents, o.totalOfPaymentsCents⟩ : Outputs) = o := by rw [hthousandths]
  refine ⟨of_orRaise_ok hinputs, ⟨b, of_orRaise_ok hb, ?_⟩, ?_, ⟨rfl, rfl⟩, ?_⟩
  · exact ho.trans (congrArg Except.ok hout.symm)
  · exact hfits
  · exact (congrArg (computeFingerprint sha256 inputs s.version aprMethodVersion) hout).symm

/-! ## The offer has the record's figures -/

theorem offerFigures_eq {sha256 : Text → Text} {s : FeeSchedule} {t : Terms} {r : Record}
    (h : Persisted sha256 s t r) : offerFigures (toDecimal s.originationFeePct)
      (toDecimal t.principal) (toDecimal t.annualRate) t.termMonths = .ok r.box := by
  obtain ⟨b, hb, hout⟩ := h.outputs
  obtain ⟨payment, hpayment, hapr, hcharge, hfinanced, hmonthly, htotal⟩ := compute_ok hb
  obtain ⟨hthousandths, hccharge, hcfinanced, hcmonthly, hctotal⟩ := outputs_ok hout
  obtain ⟨payment', fee, -, -, hchargeCents⟩ := financeCharge_ok hcharge
  obtain ⟨fee', -, hfix⟩ := amountFinanced_ok hfinanced
  obtain ⟨hcharge', -, hchargelt⟩ := toCents_of_toCentPlaces hchargeCents hccharge
  have hmonthly' := (toCents_of_toCentPlaces hmonthly hcmonthly).1
  have htotal' := (toCents_of_toCentPlaces htotal hctotal).1
  have hfinanced' : toCentPlaces b.amountFinanced = .ok (r.amountFinancedCents / 100) := by
    obtain ⟨hcents, hlt⟩ := toCents_ok hcfinanced
    refine toCentPlaces_eq ?_ hlt
    rw [hfix, fix_mul_hundred, ← hfix] at hcents
    exact hcents.symm
  have hapr' : b.apr = r.apr / 1000 := by
    obtain ⟨k, hk⟩ := computeApr_ok hapr
    have hvalue := congrArg Decimal.value hthousandths
    rw [hk, div_mul_cancel₀ _ (by norm_num), Int.floor_intCast] at hvalue
    rw [hk, ← threePlaces_value k, ← hvalue]
    exact threePlaces_value r.apr
  unfold offerFigures
  simp only [hpayment, hapr, hcharge, hfinanced, bind, Except.bind]
  rw [hcharge', toCentPlaces_hundredths hchargelt, hmonthly, hfinanced', htotal]
  simp only [hapr', hmonthly', htotal']
  rfl

/-! ## The figures add up -/

/-- The cents of the fee. -/
theorem fee_bounds {feePct principal fee : ℚ} (hfee : 0 ≤ feePct ∧ feePct ≤ 3 / 8)
    (hprincipal : 0 < principal) (h : prepaidFinanceCharge .default feePct principal = .ok fee) :
    0 ≤ fee ∧ fee ≤ 3 / 8 * principal * (1001 / 1000) + 1 / 200 := by
  obtain ⟨hvalue, -⟩ := prepaidFinanceCharge_ok h
  have hexact : 0 ≤ principal * feePct := mul_nonneg hprincipal.le hfee.1
  have hle := mul_le_mul_of_nonneg_left hfee.2 hprincipal.le
  have hround := abs_le.mp (halfUp_near (Context.default.fix (principal * feePct) * 100))
  have hfix := abs_le.mp (fix_near (principal * feePct))
  rw [abs_of_nonneg hexact] at hfix
  rw [hvalue]
  constructor
  · have hlow : (-1 : ℚ) < halfUp (Context.default.fix (principal * feePct) * 100) := by
      linarith [hround.1, hfix.1]
    have hlow : -1 < halfUp (Context.default.fix (principal * feePct) * 100) := by
      exact_mod_cast hlow
    have hnonneg : (0 : ℚ) ≤ halfUp (Context.default.fix (principal * feePct) * 100) := by
      exact_mod_cast Int.lt_iff_add_one_le.mp hlow
    positivity
  · linarith [hround.2, hfix.2]

/-- **The roundings commute** on whole cents: the finance charge is what the total leaves. -/
theorem charge_eq {payment principal fee : ℚ} {n k f charge monthly total : ℤ} (hn : 12 ≤ n)
    (hp : principal = k / 100) (hk : 0 < k) (hfee : fee = f / 100) (hfinanced : 0 < k - f)
    (hfeele : 0 ≤ fee ∧ fee ≤ 3 / 8 * principal * (1001 / 1000) + 1 / 200)
    (hmonthly : monthly = halfUp (payment * 100)) (hm : 0 < monthly)
    (htotal : total = halfUp (Context.default.fix (payment * n) * 100)) (ht : 0 < total)
    (htlt : |total| < 2 ^ 63)
    (hcharge : charge = halfUp (Context.default.fix (Context.default.fix
      (Context.default.fix (payment * n) - principal) + fee) * 100)) (hc : 0 ≤ charge) :
    charge = total + (f - k) := by
  obtain ⟨units, hunits, hle⟩ := roundTo_form 28 (payment * n)
  have hquantum := quantum_le 28 (x := payment * n)
  rw [← Context.fix_default] at hunits
  set T := Context.default.fix (payment * n) with hT
  -- the total is at least a few cents, and no more than its column holds
  have hpayment : 1 / 200 ≤ payment := by
    have hnear := (abs_le.mp (halfUp_near (payment * 100))).2
    rw [← hmonthly] at hnear
    have hone : (1 : ℚ) ≤ monthly := by exact_mod_cast hm
    linarith
  have hterm : (12 : ℚ) ≤ n := by exact_mod_cast hn
  have hexact : 3 / 50 ≤ payment * n := by nlinarith
  have hTnear := abs_le.mp (fix_near (payment * n))
  rw [abs_of_nonneg (by linarith), ← hT] at hTnear
  have hTlow : 1 / 20 ≤ T := by linarith [hTnear.1]
  have hThigh : T * 100 ≤ 2 ^ 63 + 1 := by
    have hnear := (abs_le.mp (halfUp_near (T * 100))).1
    rw [← htotal] at hnear
    have hlt : (total : ℚ) < 2 ^ 63 := by exact_mod_cast (abs_lt.mp htlt).2
    linarith
  have hplace : Int.log 10 |payment * n| + 1 - (28 : ℕ) ≤ -2 := by
    by_contra hbig
    have hbound := hquantum (by linarith)
    rw [abs_of_nonneg (show (0 : ℚ) ≤ payment * n by linarith)] at hbound
    have hmono : (10 : ℚ) ^ (-1 : ℤ) ≤ quantum 28 (payment * n) :=
      zpow_le_zpow_right₀ (by norm_num) (by omega)
    norm_num at hmono hbound
    linarith [hTnear.1]
  -- a charge that is not negative bounds the principal by the total
  have hprincipal : (1 : ℚ) / 100 ≤ principal := by
    have hone : (1 : ℚ) ≤ k := by exact_mod_cast hk
    rw [hp]
    linarith
  have hdouble : principal ≤ 2 * T := by
    by_contra hlt
    have hnear := (abs_le.mp (halfUp_near (Context.default.fix
      (Context.default.fix (T - principal) + fee) * 100))).2
    rw [← hcharge] at hnear
    have hnonneg : (0 : ℚ) ≤ charge := by exact_mod_cast hc
    have hsum := (abs_le.mp (fix_near (Context.default.fix (T - principal) + fee))).2
    have hdiff := (abs_le.mp (fix_near (T - principal))).2
    rw [abs_of_nonpos (show T - principal ≤ 0 by linarith)] at hdiff
    rcases abs_cases (Context.default.fix (T - principal) + fee) with ⟨habs, _⟩ | ⟨habs, _⟩
    all_goals
      rw [habs] at hsum
      linarith [hfeele.2]
  have hnet : (0 : ℚ) < principal - fee := by
    have hpos : (0 : ℚ) < k - f := by exact_mod_cast hfinanced
    rw [hp, hfee]
    linarith
  have habsT : |T| = T := abs_of_nonneg (by linarith)
  have hsub : Context.default.fix (T - principal) = T - principal := by
    have hshift := fix_shift (c := -k) hunits hplace hle (by
      rw [habsT, abs_le]
      push_cast
      constructor <;> linarith [hp])
    push_cast at hshift
    rw [neg_div, ← hp, ← sub_eq_add_neg] at hshift
    exact hshift
  have hadd : Context.default.fix (T - principal + fee) = T - principal + fee := by
    have hform : T - principal + fee = T + (f - k : ℤ) / 100 := by
      push_cast
      rw [hp, hfee]
      ring
    rw [hform]
    refine fix_shift hunits hplace hle ?_
    rw [← hform, habsT, abs_le]
    constructor <;> linarith [hfeele.1]
  -- whole cents pass through the last rounding
  have hcents : (T - principal + fee) * 100 = T * 100 + (f - k : ℤ) := by
    push_cast
    rw [hp, hfee]
    ring
  rw [hsub, hadd, hcents] at hcharge
  rw [hcharge] at hc ⊢
  rw [htotal] at ht ⊢
  exact halfUp_add_intCast ht.le hc

theorem fee_pct_le (s : FeeSchedule) :
    0 ≤ toDecimal s.originationFeePct ∧ toDecimal s.originationFeePct ≤ 3 / 8 := by
  refine ⟨toDecimal_nonneg s.fee_bounds.1, ?_⟩
  have hle := toDecimal_le s.fee_bounds.1
  linarith [s.fee_bounds.2]

theorem principal_le (t : Terms) : toDecimal t.principal ≤ 75000 := by
  have hle := toDecimal_le t.principal_bounds.1.le
  linarith [t.principal_bounds.2]

theorem cents_add_up {sha256 : Text → Text} {s : FeeSchedule} {t : Terms} {r : Record}
    (h : Persisted sha256 s t r) (hwhole : t.WholeCents) :
    r.amountFinancedCents + r.financeChargeCents = r.totalOfPaymentsCents := by
  obtain ⟨k, hk⟩ := hwhole
  obtain ⟨b, hb, hout⟩ := h.outputs
  obtain ⟨payment, hpayment, -, hcharge, hfinanced, hmonthly, htotal⟩ := compute_ok hb
  obtain ⟨-, hccharge, hcfinanced, hcmonthly, hctotal⟩ := outputs_ok hout
  obtain ⟨payment', fee, hpayment', hfee, hchargeCents⟩ := financeCharge_ok hcharge
  obtain ⟨fee', hfee', hfix⟩ := amountFinanced_ok hfinanced
  cases hpayment.symm.trans hpayment'
  cases hfee.symm.trans hfee'
  have hpos := toDecimal_pos t.principal_bounds.1
  have hkpos : 0 < k := by
    rw [hk] at hpos
    have hpos : (0 : ℚ) < k := by linarith
    exact_mod_cast hpos
  have hkle : k ≤ 7500000 := by
    have hle := principal_le t
    rw [hk] at hle
    have hle : (k : ℚ) ≤ 7500000 := by linarith
    exact_mod_cast hle
  obtain ⟨hfeeValue, -⟩ := prepaidFinanceCharge_ok hfee
  have hbounds := fee_bounds (fee_pct_le s) hpos hfee
  obtain ⟨hnonneg, hfinancedPos, hmonthlyPos, htotalPos⟩ := r.amounts_nonneg
  generalize halfUp (Context.default.fix (toDecimal t.principal * toDecimal s.originationFeePct)
    * 100) = f at hfeeValue
  have hfinancedEq : r.amountFinancedCents = k - f := by
    have hnet : toDecimal t.principal - fee = ((k - f : ℤ) : ℚ) / 100 := by
      push_cast
      rw [hk, hfeeValue]
      ring
    have hsmall : |k - f| ≤ 10 ^ 28 := by
      have hfle : (f : ℚ) ≤ 10 ^ 7 := by
        rw [hfeeValue, hk] at hbounds
        have hkle : (k : ℚ) ≤ 7500000 := by exact_mod_cast hkle
        linarith [hbounds.2]
      have hf0 : (0 : ℚ) ≤ f := by
        rw [hfeeValue] at hbounds
        linarith [hbounds.1]
      have hfle : f ≤ 10 ^ 7 := by exact_mod_cast hfle
      have hf0 : 0 ≤ f := by exact_mod_cast hf0
      rw [abs_le]
      omega
    obtain ⟨hcents, -⟩ := toCents_ok hcfinanced
    rw [hfix, fix_mul_hundred, hnet, fix_hundredths hsmall, div_mul_cancel₀ _ (by norm_num),
      halfUp_intCast] at hcents
    exact hcents
  have hcharge := charge_eq t.term_bounds.1 hk hkpos hfeeValue (hfinancedEq ▸ hfinancedPos) hbounds
    (toCents_of_toCentPlaces hmonthly hcmonthly).2.1 hmonthlyPos
    (toCents_of_toCentPlaces htotal hctotal).2.1 htotalPos h.fits.2.2.2.2
    (toCents_of_toCentPlaces hchargeCents hccharge).2.1 hnonneg
  have hcharge : r.financeChargeCents = r.totalOfPaymentsCents + (f - k) := hcharge
  omega

/-! ## Two loans of twelve months -/

/-- The published schedule. -/
def publishedSchedule : FeeSchedule :=
  ⟨"2024-11".toList, ⟨false, 8646911284551352, -58, by decide⟩, by decide, by decide +kernel⟩

def twelveMonths (principal : F64) (h : 0 < principal.toRat ∧ principal.toRat ≤ 50000) : Terms :=
  ⟨principal, defaultRate, 12, h, defaultRate_bounds, oneYear_bounds⟩

/-- A principal of 1000. -/
def wholeTerms : Terms := twelveMonths ⟨false, 8796093022208000, -43, by decide⟩ (by decide +kernel)

/-- A principal of 1000.005. -/
def subCentTerms : Terms :=
  twelveMonths ⟨false, 8796137002673111, -43, by decide⟩ (by decide +kernel)

/-- The row of an offer. -/
def offerRow (b : Box ℚ) : OfferBox := b.map fun x => some (.ofRat x)

def wholeRow : OfferBox := offerRow ⟨13.760, 73.81, 86.98, 970.00, 1043.81⟩

def subCentRow : OfferBox := offerRow ⟨13.760, 73.81, 86.98, 970.01, 1043.81⟩

/-- The digest of the text that is hashed for `wholeTerms`. -/
def wholeDigest (_ : Text) : Text :=
  "fb7c0d3e32ec9ae2ae5994ea1a8e301465499b21fd55e0d222ff698229a92876".toList

/-- The digest of the text that is hashed for `subCentTerms`. -/
def subCentDigest (_ : Text) : Text :=
  "03eb7eebca3a0790c280f53d9457a8ed1f6189c1107f4936cd148afc88dc4a32".toList

theorem whole_returns : returns (createRecord wholeDigest publishedSchedule wholeTerms wholeRow none)
    (fun _ => True) = true := by decide +kernel

theorem subCent_returns : returns (createRecord subCentDigest publishedSchedule subCentTerms subCentRow none)
    (fun r => r.computeSnapshot = ⟨100001, "7.99".toList, 12, "0.03".toList⟩ ∧
      r.amountFinancedCents = 97001 ∧ r.financeChargeCents = 7381 ∧
      r.totalOfPaymentsCents = 104381) = true := by decide +kernel

theorem wholeTerms_wholeCents : wholeTerms.WholeCents := ⟨100000, by decide +kernel⟩

/-- **The Reg Z box adds up** on a principal of whole cents, and the offer built from the same
inputs carries the record's five figures. -/
theorem box_adds_up {sha256 : Text → Text} {s : FeeSchedule} {t : Terms} {offer : OfferBox}
    {document : Option Document} {r : Record} (h : createRecord sha256 s t offer document = .ok r)
    (hwhole : t.WholeCents) :
    r.amountFinancedCents + r.financeChargeCents = r.totalOfPaymentsCents ∧
      buildOffer s t = .ok (r.box.map Double.ofRat) := by
  have hr := createRecord_ok h
  refine ⟨cents_add_up hr hwhole, ?_⟩
  unfold buildOffer
  rw [offerFigures_eq hr]
  rfl

theorem box_adds_up_whole : ∃ r, createRecord wholeDigest publishedSchedule wholeTerms wholeRow none = .ok r ∧
    r.amountFinancedCents + r.financeChargeCents = r.totalOfPaymentsCents ∧
    buildOffer publishedSchedule wholeTerms = .ok (r.box.map Double.ofRat) := by
  obtain ⟨r, hr, -⟩ := exists_ok whole_returns
  exact ⟨r, hr, box_adds_up hr wholeTerms_wholeCents⟩

/-- The fraction of a cent is lost from the total and kept in the amount financed. -/
theorem subCent_box_is_off : ∃ r,
    createRecord subCentDigest publishedSchedule subCentTerms subCentRow none = .ok r ∧
    r.amountFinancedCents + r.financeChargeCents = r.totalOfPaymentsCents + 1 := by
  obtain ⟨r, hr, -, hfinanced, hcharge, htotal⟩ := exists_ok subCent_returns
  refine ⟨r, hr, ?_⟩
  rw [hfinanced, hcharge, htotal]
  rfl

/-! ## Recomputing a record -/

theorem decimalText_reads (f : F64) : ∃ d, Decimal.ofText (decimalText f) = .ok d ∧
    d.value = toDecimal f := by
  obtain ⟨d, hd, -, -⟩ := F64.ofText_repr f
  refine ⟨d, ?_, ?_⟩
  · simp only [decimalText, hd]
    exact Decimal.ofText_toText d
  · simp only [toDecimal, hd]

theorem recompute_eq {sha256 : Text → Text} {s : FeeSchedule} {t : Terms} {r : Record}
    (h : Persisted sha256 s t r) (hwhole : t.WholeCents) :
    r.computeSnapshot.recompute = .ok r.persistedOutputs := by
  obtain ⟨k, hk⟩ := hwhole
  obtain ⟨b, hb, hout⟩ := h.outputs
  obtain ⟨principalCents, hprincipal, hsnapshot⟩ := of_bind_ok h.snapshot
  obtain ⟨hcents, hlt⟩ := toCents_ok hprincipal
  have hle : |k| ≤ 10 ^ 28 := by
    have hpos := toDecimal_pos t.principal_bounds.1
    have hle := principal_le t
    rw [hk] at hpos hle
    have hpos : (0 : ℚ) < k := by linarith
    have hle : (k : ℚ) ≤ 10 ^ 28 := by linarith
    have hpos : 0 < k := by exact_mod_cast hpos
    have hle : k ≤ 10 ^ 28 := by exact_mod_cast hle
    rw [abs_le]
    omega
  rw [hk, div_mul_cancel₀ _ (by norm_num), fix_intCast hle, halfUp_intCast] at hcents
  obtain ⟨rate, hrate, hratev⟩ := decimalText_reads t.annualRate
  obtain ⟨fee, hfee, hfeev⟩ := decimalText_reads s.originationFeePct
  have hdiv : Context.default.div k 100 = .ok (toDecimal t.principal) := by
    rw [Context.div, if_neg (by norm_num), fix_hundredths hle, hk]
  have hsnapshot : (⟨principalCents, decimalText t.annualRate, t.termMonths,
      decimalText s.originationFeePct⟩ : Snapshot) = r.computeSnapshot := Except.ok.inj hsnapshot
  unfold Snapshot.recompute
  rw [← hsnapshot]
  simp only [hrate, hfee, hcents, hdiv, raising, hratev, hfeev, bind, Except.bind, hb, hout]

/-- **A record is recomputed** from its snapshot on a principal of whole cents; its fingerprint
comes out of its columns on any. -/
theorem recomputes {sha256 : Text → Text} {s : FeeSchedule} {t : Terms} {offer : OfferBox}
    {document : Option Document} {r : Record} (h : createRecord sha256 s t offer document = .ok r) :
    r.recomputedFingerprint sha256 = r.contentFingerprint ∧
      (t.WholeCents → r.computeSnapshot.recompute = .ok r.persistedOutputs) := by
  have hr := createRecord_ok h
  refine ⟨?_, recompute_eq hr⟩
  rw [Record.recomputedFingerprint, hr.fingerprint, hr.version.1, hr.version.2]

theorem recomputes_whole : ∃ r, createRecord wholeDigest publishedSchedule wholeTerms wholeRow none = .ok r ∧
    r.recomputedFingerprint wholeDigest = r.contentFingerprint ∧
    r.computeSnapshot.recompute = .ok r.persistedOutputs := by
  obtain ⟨r, hr, -⟩ := exists_ok whole_returns
  obtain ⟨hfingerprint, hfigures⟩ := recomputes hr
  exact ⟨r, hr, hfingerprint, hfigures wholeTerms_wholeCents⟩

/-- The total of payments comes from the payment on the snapshot's principal. -/
theorem recompute_total {s : Snapshot} {o : Outputs} (h : s.recompute = .ok o) :
    ∃ rate principal payment, Decimal.ofText s.noteRatePct = .ok rate ∧
      Context.default.div s.principalCents 100 = .ok principal ∧
      monthlyPayment .default principal rate.value s.termMonths = .ok payment ∧
      o.totalOfPaymentsCents = halfUp (Context.default.fix (payment * s.termMonths) * 100) := by
  unfold Snapshot.recompute at h
  split at h
  · rename_i rate fee hrate hfee
    obtain ⟨principal, hprincipal, h⟩ := of_bind_ok h
    obtain ⟨b, hb, hout⟩ := of_bind_ok h
    obtain ⟨payment, hpayment, -, -, -, -, htotal⟩ := compute_ok hb
    obtain ⟨-, -, -, -, hctotal⟩ := outputs_ok hout
    exact ⟨rate, principal, payment, hrate, of_raising_ok hprincipal, hpayment,
      (toCents_of_toCentPlaces htotal hctotal).2.1⟩
  · cases h

/-- The snapshot has a principal of 1000.01, whose total of payments is a cent more. -/
theorem subCent_not_recomputed : ∃ r,
    createRecord subCentDigest publishedSchedule subCentTerms subCentRow none = .ok r ∧
    r.computeSnapshot.recompute ≠ .ok r.persistedOutputs := by
  obtain ⟨r, hr, hsnapshot, -, -, htotal⟩ := exists_ok subCent_returns
  refine ⟨r, hr, fun hrecompute => ?_⟩
  rw [hsnapshot] at hrecompute
  obtain ⟨rate, principal, payment, hrate, hprincipal, hpayment, heq⟩ := recompute_total hrecompute
  have hrate' : Decimal.ofText "7.99".toList = .ok ⟨false, 799, -2⟩ := by decide +kernel
  have hprincipal' : Context.default.div ((100001 : ℤ) : ℚ) 100 = .ok 1000.01 := by decide +kernel
  obtain ⟨payment', hpayment', hmore⟩ := exists_ok (show returns
    (monthlyPayment .default 1000.01 (Decimal.value ⟨false, 799, -2⟩) 12)
    (fun p => halfUp (Context.default.fix (p * 12) * 100) = 104382) = true by decide +kernel)
  cases hrate.symm.trans hrate'
  cases hprincipal.symm.trans hprincipal'
  cases hpayment.symm.trans hpayment'
  have hsame : (104381 : ℤ) = 104382 := htotal.symm.trans (heq.trans (by exact_mod_cast hmore))
  omega

end Meridian.Disclosure
