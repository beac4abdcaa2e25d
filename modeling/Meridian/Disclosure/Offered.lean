import Meridian.Disclosure.Documents
import Meridian.Disclosure.Residue
import Meridian.Python.FixedText

/-!
# The figures an offer hands out

`createdOffer` is `build_offer` with the sign a zero keeps in a decimal and in a float: a finance charge
that is rounded from below zero is written with a minus. Its figures and the record's, computed again
from the same inputs, are the same whole numbers of cents (`createdOffer_ok`), so both comparisons accept
a document that copies their texts exactly if the payments and the fee cover the principal
(`accepts_iff`).
-/

namespace Meridian.Disclosure

open Python Numeric

/-- `total` of `finance_charge`, before it is rounded. -/
def chargeTotal (feePct principal annualRatePct : ℚ) (termMonths : ℤ) : Except Fault ℚ := do
  let interest ← interestCharge .default principal annualRatePct termMonths
  let fee ← prepaidFinanceCharge .default feePct principal
  pure (Context.default.fix (interest + fee))

/-- `float` of a decimal, whose zero has a sign. -/
def floatOf (neg : Bool) (x : ℚ) : Double :=
  if x = 0 then .finite { F64.zero with neg := neg } else .ofRat x

/-- `build_offer`, the float of each figure with its sign. -/
def createdOffer (s : FeeSchedule) (t : Terms) : Except Fault (Box Double) := do
  let figures ← offerFigures (toDecimal s.originationFeePct) (toDecimal t.principal)
    (toDecimal t.annualRate) t.termMonths
  let charge ← chargeTotal (toDecimal s.originationFeePct) (toDecimal t.principal)
    (toDecimal t.annualRate) t.termMonths
  pure { figures.map Double.ofRat with financeCharge := floatOf (charge < 0) figures.financeCharge }

/-- `interest_charge` and `prepaid_finance_charge` together are not negative: the payments and the fee
bring in the principal. -/
def Covers (s : FeeSchedule) (t : Terms) : Prop :=
  ∀ interest fee, interestCharge .default (toDecimal t.principal) (toDecimal t.annualRate)
      t.termMonths = .ok interest →
    prepaidFinanceCharge .default (toDecimal s.originationFeePct) (toDecimal t.principal) = .ok fee →
    0 ≤ interest + fee

/-- `create_disclosure` computes the figures again and passes both comparisons. -/
def Accepts (s : FeeSchedule) (t : Terms) (offer : OfferBox) (document : Document) : Prop :=
  ∃ computed o, compute (toDecimal s.originationFeePct) (toDecimal t.principal)
      (toDecimal t.annualRate) t.termMonths = .ok computed ∧
    refuseIfOfferDisagrees offer computed = .ok () ∧ outputs computed = .ok o ∧
    refuseIfDocumentDisagrees (some document) o = .ok ()

/-- The texts of an offer's figures: the rate to three places, money to two. -/
def offerTexts (b : Box Double) : Box Text :=
  ⟨b.apr.fixed 3, b.financeCharge.fixed 2, b.monthlyPayment.fixed 2, b.amountFinanced.fixed 2,
    b.totalOfPayments.fixed 2⟩

theorem financeCharge_eq (feePct principal rate : ℚ) (n : ℤ) :
    financeCharge .default feePct principal rate n =
      chargeTotal feePct principal rate n >>= toCentPlaces := by
  unfold financeCharge chargeTotal
  cases interestCharge .default principal rate n with
  | error e => rfl
  | ok interest =>
    cases prepaidFinanceCharge .default feePct principal with
    | error e => rfl
    | ok fee => rfl

/-- A record's inputs have an offer. -/
theorem exists_createdOffer {sha256 : Text → Text} {s : FeeSchedule} {t : Terms} {r : Record}
    (h : Persisted sha256 s t r) : ∃ b, createdOffer s t = .ok b := by
  obtain ⟨computed, hcomputed, -⟩ := h.outputs
  obtain ⟨_, -, -, hcharge, -⟩ := compute_ok hcomputed
  rw [financeCharge_eq] at hcharge
  obtain ⟨charge, hcharge, -⟩ := of_bind_ok hcharge
  unfold createdOffer
  rw [bind_of_ok (offerFigures_eq h), bind_of_ok hcharge]
  exact ⟨_, rfl⟩

/-! ## How large the figures are -/

section Payment

variable {principal rate : ℚ} {n : ℤ}

theorem fix_one : Context.default.fix 1 = 1 := by
  have hone := fix_intCast (n := 1) (by norm_num)
  exact_mod_cast hone

/-- A power of a factor is no less than the factor. -/
theorem le_power {b : ℚ} (hb : 1 ≤ b) (hfix : Context.default.fix b = b) (hn : 1 ≤ n) :
    b ≤ Context.default.power b n := by
  obtain ⟨m, hm, hle⟩ := roundTo_form 28 b
  rw [← Context.fix_default, hfix] at hm
  have hloop : ∀ w : ℕ, 28 ≤ w → ∀ fuel k, 1 ≤ k → k ≤ fuel →
      b ≤ (⟨some w⟩ : Context).powerLoop b fuel k := by
    intro w hw fuel
    have hpow : (10 : ℤ) ^ 28 ≤ 10 ^ w := pow_le_pow_right₀ (by norm_num) hw
    have hkeep : roundTo w b = b := roundTo_eq (by omega) m _ hm (hle.trans hpow)
    have hmono : ∀ {x : ℚ}, b ≤ x → b ≤ roundTo w x := fun h =>
      hkeep ▸ roundTo_mono (by omega) h
    induction fuel with
    | zero => omega
    | succ fuel ih =>
      intro k hk hfuel
      rw [Context.powerLoop, if_neg (by omega)]
      by_cases h1 : k = 1
      · rw [if_pos h1]
      · rw [if_neg h1]
        have hhalf := ih (k / 2) (by omega) (by omega)
        have hsquare := hmono (hhalf.trans (le_mul_of_one_le_left (by linarith) (hb.trans hhalf)))
        split_ifs
        · exact hmono (le_mul_of_one_le_left (by linarith) (hb.trans hsquare))
        · exact hsquare
  have hpower := fix_mono (hloop (28 + (Decimal.numDigits n.natAbs + 2)) (by omega) n.natAbs n.natAbs
    (by omega) le_rfl)
  rw [hfix] at hpower
  rw [Context.power, if_pos (by omega)]
  exact hpower

/-- A factor above one is above it by a part of the rate. -/
theorem rate_le_factor {r : ℚ} (hr : 0 ≤ r) (hn : 1 ≤ n)
    (hne : Context.default.power (Context.default.fix (1 + r)) n ≠ 1) :
    r ≤ 40 * (Context.default.power (Context.default.fix (1 + r)) n - 1) := by
  have hb : 1 ≤ Context.default.fix (1 + r) := by
    have hmono := fix_mono (show (1 : ℚ) ≤ 1 + r by linarith)
    rwa [fix_one] at hmono
  have hpower := le_power hb (fix_idem _) hn
  set F := Context.default.power (Context.default.fix (1 + r)) n with hF
  have hround : (10 : ℚ) ^ (-((28 : ℕ) : ℤ)) / 2 = 1 / (2 * 10 ^ 28) := by norm_num
  -- no number of so many digits lies closer to one
  have hgap : 1 / (2 * 10 ^ 28) ≤ F - 1 := by
    by_contra hclose
    refine hne ?_
    have hkeep : Context.default.fix F = F := by
      rw [hF, Context.power, if_pos (by omega)]
      exact fix_idem _
    rw [← hkeep, Context.fix_default]
    refine roundTo_eq_of_near (by norm_num) (by linarith) 1 0 (by norm_num) (by norm_num) ?_
    rw [hround, abs_sub_comm, abs_of_nonneg (by linarith)]
    have hge : (1 : ℚ) * (1 / (2 * 10 ^ 28)) ≤ F * (1 / (2 * 10 ^ 28)) :=
      mul_le_mul_of_nonneg_right (by linarith) (by norm_num)
    linarith
  by_cases hsmall : r ≤ 2 / 10 ^ 27
  · linarith
  · have hnear := roundTo_near 28 (1 + r)
    rw [← Context.fix_default, abs_of_nonneg (show 0 ≤ 1 + r by linarith)] at hnear
    have hplace : (10 : ℚ) ^ (1 - ((28 : ℕ) : ℤ)) / 2 = 1 / (2 * 10 ^ 27) := by norm_num
    rw [hplace] at hnear
    have hlow := (abs_le.mp hnear).1
    linarith

/-- The level payment is not negative, and at most a multiple of the principal. -/
theorem monthlyPayment_bounds {payment : ℚ} (hp : 0 < principal)
    (hrate : 0 ≤ rate) (hrate' : rate ≤ 60)
    (h : monthlyPayment .default principal rate n = .ok payment) :
    0 ≤ payment ∧ payment ≤ 42 * principal := by
  obtain ⟨_, hvalid, h⟩ := of_bind_ok h
  have hn : 1 ≤ n := (validate_ok hvalid).2
  have hnq : (1 : ℚ) ≤ n := by exact_mod_cast hn
  have hr := monthlyRate_nonneg hrate
  have hr' := monthlyRate_le hrate hrate'
  by_cases h0 : monthlyRate .default rate = 0
  · rw [if_pos h0] at h
    cases h
    have hnonneg : 0 ≤ principal / n := by positivity
    have hle : principal / n ≤ principal := div_le_self hp.le hnq
    have hnear := (abs_le.mp (fix_near (principal / n))).2
    rw [abs_of_nonneg hnonneg] at hnear
    exact ⟨fix_nonneg hnonneg, by linarith⟩
  · rw [if_neg h0] at h
    have h := of_raising_ok h
    set r := monthlyRate .default rate
    set F := Context.default.power (Context.default.fix (1 + r)) n with hF
    have hb : 1 ≤ Context.default.fix (1 + r) := by
      have hmono := fix_mono (show (1 : ℚ) ≤ 1 + r by linarith)
      rwa [fix_one] at hmono
    have hge : 1 ≤ F := hb.trans (le_power hb (fix_idem _) hn)
    unfold Context.div at h
    split_ifs at h with hzero
    cases h
    have hne : F ≠ 1 := fun hone => hzero (by rw [hone, sub_self]; rfl)
    have hfactor := rate_le_factor hr hn hne
    have hgap : 0 < F - 1 := sub_pos.mpr (lt_of_le_of_ne hge hne.symm)
    have hpr : 0 ≤ principal * r := by positivity
    have hfirst := (abs_le.mp (fix_near (principal * r))).2
    rw [abs_of_nonneg hpr] at hfirst
    have hfirst0 := fix_nonneg hpr
    have hprod : 0 ≤ Context.default.fix (principal * r) * F := mul_nonneg hfirst0 (by linarith)
    have hsecond := (abs_le.mp (fix_near (Context.default.fix (principal * r) * F))).2
    rw [abs_of_nonneg hprod] at hsecond
    have hbelow := (abs_le.mp (fix_near (F - 1))).1
    rw [abs_of_pos hgap] at hbelow
    have hden : 999 / 1000 * (F - 1) ≤ Context.default.fix (F - 1) := by linarith
    have hdenpos : 0 < Context.default.fix (F - 1) := by linarith
    have hquot : Context.default.fix (Context.default.fix (principal * r) * F) /
        Context.default.fix (F - 1) ≤ 83 / 2 * principal := by
      rw [div_le_iff₀ hdenpos]
      -- the rate is at most forty times what the factor is above one
      have hrF : r * F ≤ 41 * (F - 1) := by nlinarith
      have hprF : principal * (r * F) ≤ principal * (41 * (F - 1)) :=
        mul_le_mul_of_nonneg_left hrF hp.le
      have hscale := mul_le_mul_of_nonneg_right hfirst (show 0 ≤ F by linarith)
      have hdenp := mul_le_mul_of_nonneg_left hden (show 0 ≤ 83 / 2 * principal by positivity)
      nlinarith
    have hquot0 : 0 ≤ Context.default.fix (Context.default.fix (principal * r) * F) /
        Context.default.fix (F - 1) := div_nonneg (fix_nonneg hprod) hdenpos.le
    have hlast := (abs_le.mp (fix_near (Context.default.fix (Context.default.fix (principal * r) * F) /
      Context.default.fix (F - 1)))).2
    rw [abs_of_nonneg hquot0] at hlast
    exact ⟨fix_nonneg hquot0, by linarith⟩

end Payment

/-- The rate is a number of thousandths between none and twelve hundred per cent. -/
theorem computeApr_bounds {feePct principal rate apr : ℚ} {n : ℤ}
    (h : computeApr .default feePct principal rate n = .ok apr) :
    ∃ k : ℕ, apr = k / 1000 ∧ k ≤ 1200000 := by
  obtain ⟨_, -, h⟩ := of_bind_ok h
  obtain ⟨payment, -, h⟩ := of_bind_ok h
  obtain ⟨financed, -, h⟩ := of_bind_ok h
  split_ifs at h
  have hmiddle : ∀ {lo hi : ℚ}, 0 ≤ lo ∧ lo ≤ 1 → 0 ≤ hi ∧ hi ≤ 1 →
      0 ≤ Context.default.fix (Context.default.fix (lo + hi) / 2) ∧
        Context.default.fix (Context.default.fix (lo + hi) / 2) ≤ 1 := by
    intro lo hi hlo hhi
    have hsum := fix_nonneg (show 0 ≤ lo + hi by linarith)
    have hsum' := fix_le_intCast (n := 2) (by norm_num) (show lo + hi ≤ ((2 : ℤ) : ℚ) by
      push_cast; linarith)
    push_cast at hsum'
    refine ⟨fix_nonneg (by linarith), ?_⟩
    have hhalf := fix_mono (show Context.default.fix (lo + hi) / 2 ≤ 1 by linarith)
    rwa [fix_one] at hhalf
  have hbracket : ∀ k, (0 ≤ (bracket .default payment financed n k).1 ∧
      (bracket .default payment financed n k).1 ≤ 1) ∧
      0 ≤ (bracket .default payment financed n k).2 ∧
        (bracket .default payment financed n k).2 ≤ 1 := by
    intro k
    unfold bracket
    induction k with
    | zero => norm_num
    | succ k ih =>
      rw [bisect_succ, halve]
      split_ifs
      · exact ⟨hmiddle ih.1 ih.2, ih.2⟩
      · exact ⟨ih.1, hmiddle ih.1 ih.2⟩
  obtain ⟨hlow, hhigh⟩ := hbracket iterations
  obtain ⟨hmonthly, hmonthly'⟩ := hmiddle hlow hhigh
  obtain ⟨hapr, -⟩ := quantize_ok (of_raising_ok h)
  set monthly := Context.default.fix (Context.default.fix
    ((bracket .default payment financed n iterations).1 +
      (bracket .default payment financed n iterations).2) / 2)
  have hyear := fix_nonneg (show 0 ≤ monthly * 12 by linarith)
  have hyear' := fix_le_intCast (n := 12) (by norm_num) (show monthly * 12 ≤ ((12 : ℤ) : ℚ) by
    push_cast; linarith)
  push_cast at hyear'
  have hpercent := fix_nonneg (show 0 ≤ Context.default.fix (monthly * 12) * 100 by linarith)
  have hpercent' := fix_le_intCast (n := 1200) (by norm_num)
    (show Context.default.fix (monthly * 12) * 100 ≤ ((1200 : ℤ) : ℚ) by push_cast; linarith)
  push_cast at hpercent'
  have hdiv : ∀ x : ℚ, x / aprPlaces = x * 1000 := by
    intro x
    unfold aprPlaces
    ring
  rw [hdiv] at hapr
  have hnonneg := halfUp_nonneg (show 0 ≤
    Context.default.fix (Context.default.fix (monthly * 12) * 100) * 1000 by linarith)
  have hle := halfUp_mono (show Context.default.fix (Context.default.fix (monthly * 12) * 100) * 1000 ≤
    ((1200000 : ℤ) : ℚ) by push_cast; linarith)
  rw [halfUp_intCast] at hle
  obtain ⟨k, hk⟩ := Int.eq_ofNat_of_zero_le hnonneg
  rw [hk] at hapr hle
  refine ⟨k, ?_, by exact_mod_cast hle⟩
  rw [hapr, aprPlaces]
  push_cast
  ring

/-! ## The figures in whole cents -/

theorem offerFigures_ok {feePct principal rate : ℚ} {n : ℤ} {b : Box ℚ}
    (h : offerFigures feePct principal rate n = .ok b) :
    ∃ payment charge financed, monthlyPayment .default principal rate n = .ok payment ∧
      computeApr .default feePct principal rate n = .ok b.apr ∧
      financeCharge .default feePct principal rate n = .ok charge ∧
      toCentPlaces charge = .ok b.financeCharge ∧ toCentPlaces payment = .ok b.monthlyPayment ∧
      amountFinanced .default feePct principal = .ok financed ∧
      toCentPlaces financed = .ok b.amountFinanced ∧
      toCentPlaces (Context.default.fix (payment * n)) = .ok b.totalOfPayments := by
  obtain ⟨payment, hpayment, h⟩ := of_bind_ok h
  obtain ⟨apr, hapr, h⟩ := of_bind_ok h
  obtain ⟨charge, hcharge, h⟩ := of_bind_ok h
  obtain ⟨chargeCents, hchargeCents, h⟩ := of_bind_ok h
  obtain ⟨monthly, hmonthly, h⟩ := of_bind_ok h
  obtain ⟨financed, hfinanced, h⟩ := of_bind_ok h
  obtain ⟨financedCents, hfinancedCents, h⟩ := of_bind_ok h
  obtain ⟨total, htotal, h⟩ := of_bind_ok h
  cases h
  exact ⟨payment, charge, financed, hpayment, hapr, hcharge, hchargeCents, hmonthly, hfinanced,
    hfinancedCents, htotal⟩

/-- The amount financed is positive where there is a rate. -/
theorem financed_pos {feePct principal rate apr financed : ℚ} {n : ℤ}
    (h : computeApr .default feePct principal rate n = .ok apr)
    (hfinanced : amountFinanced .default feePct principal = .ok financed) : 0 < financed := by
  obtain ⟨_, -, h⟩ := of_bind_ok h
  obtain ⟨payment, -, h⟩ := of_bind_ok h
  obtain ⟨financed', hfinanced', h⟩ := of_bind_ok h
  cases hfinanced.symm.trans hfinanced'
  split_ifs at h with hle
  exact not_le.mp hle

/-- Amounts of cents, not negative and not large. -/
theorem exists_cents {x y : ℚ} (hx : 0 ≤ x) (hx' : x ≤ 10 ^ 9) (h : toCentPlaces x = .ok y) :
    ∃ k : ℕ, y = k / 100 ∧ halfUp (x * 100) = k ∧ k ≤ 10 ^ 12 := by
  obtain ⟨hy, -⟩ := toCentPlaces_ok h
  obtain ⟨k, hk⟩ := Int.eq_ofNat_of_zero_le (halfUp_nonneg (show 0 ≤ x * 100 by positivity))
  have hle := shownCents_le hx'
  rw [shownCents, hk] at hle
  push_cast at hle
  have hk' : (k : ℚ) ≤ 10 ^ 12 := by linarith
  rw [hk, Int.cast_natCast] at hy
  exact ⟨k, hy, hk, by exact_mod_cast hk'⟩

/-- The offer's figures and the record's of the same inputs, in thousandths and cents; the record keeps
the amount financed `net` unrounded until it is counted. -/
structure Counted (s : FeeSchedule) (t : Terms) (b : Box Double) (apr monthly financed total : ℕ)
    (charge net : ℚ) : Prop where
  charge_eq : chargeTotal (toDecimal s.originationFeePct) (toDecimal t.principal)
    (toDecimal t.annualRate) t.termMonths = .ok charge
  offer : b = ⟨.ofRat (apr / 1000), floatOf (charge < 0) (halfUp (charge * 100) / 100),
    .ofRat (monthly / 100), .ofRat (financed / 100), .ofRat (total / 100)⟩
  computed : compute (toDecimal s.originationFeePct) (toDecimal t.principal) (toDecimal t.annualRate)
    t.termMonths = .ok ⟨apr / 1000, halfUp (charge * 100) / 100, monthly / 100, net, total / 100⟩
  outputs : outputs ⟨apr / 1000, halfUp (charge * 100) / 100, monthly / 100, net, total / 100⟩ =
    .ok ⟨threePlaces apr, halfUp (charge * 100), financed, monthly, total⟩
  net_near : |(financed : ℚ) / 100 - net| ≤ 1 / 200
  charge_le : charge ≤ 10 ^ 9
  small : apr ≤ 10 ^ 12 ∧ monthly ≤ 10 ^ 12 ∧ financed ≤ 10 ^ 12 ∧ total ≤ 10 ^ 12

/-- **An offer that is created is counted in cents**, and so are the record's figures. -/
theorem createdOffer_counted {s : FeeSchedule} {t : Terms} {b : Box Double}
    (h : createdOffer s t = .ok b) :
    ∃ apr monthly financed total charge net, Counted s t b apr monthly financed total charge net := by
  obtain ⟨figures, hfigures, h⟩ := of_bind_ok h
  obtain ⟨charge, htotalCharge, h⟩ := of_bind_ok h
  obtain ⟨payment, chargeCents, net, hpayment, hapr, hcharge, hchargeCents, hmonthly, hnet, hfinanced,
    htotal⟩ := offerFigures_ok hfigures
  have hp := toDecimal_pos t.principal_bounds.1
  have hp' := principal_le t
  obtain ⟨hrate, hrate'⟩ := rate_bound t
  -- the sizes of the amounts
  obtain ⟨hpayment0, hpayment'⟩ := monthlyPayment_bounds hp hrate hrate' hpayment
  have hn : (1 : ℚ) ≤ t.termMonths := by exact_mod_cast (by linarith [t.term_bounds.1] : 1 ≤ t.termMonths)
  have hn' : (t.termMonths : ℚ) ≤ 60 := by exact_mod_cast t.term_bounds.2
  have hT0 := fix_nonneg (show 0 ≤ payment * t.termMonths by positivity)
  have hT := fix_le_intCast (n := 189000000) (by norm_num)
    (show payment * t.termMonths ≤ ((189000000 : ℤ) : ℚ) by push_cast; nlinarith)
  push_cast at hT
  obtain ⟨fee, hfee, hnetfix⟩ := amountFinanced_ok hnet
  obtain ⟨hfee0, hfee'⟩ := fee_bounds (fee_pct_le s) hp hfee
  have hnet0 := financed_pos hapr hnet
  have hnet' : net ≤ 10 ^ 9 := by
    have hle := fix_le_intCast (n := 75000) (by norm_num)
      (show toDecimal t.principal - fee ≤ ((75000 : ℤ) : ℚ) by push_cast; linarith)
    push_cast at hle
    linarith
  have hcharge' : charge ≤ 10 ^ 9 := by
    obtain ⟨interest, hinterest, hsum⟩ := of_bind_ok htotalCharge
    obtain ⟨fee', hfee'', hsum⟩ := of_bind_ok hsum
    obtain ⟨_, -, hinterest⟩ := of_bind_ok hinterest
    obtain ⟨payment', hpayment'', hinterest⟩ := of_bind_ok hinterest
    cases hpayment.symm.trans hpayment''
    cases hfee.symm.trans hfee''
    cases hinterest
    cases hsum
    have hinterest := fix_le_intCast (n := 189000000) (by norm_num)
      (show Context.default.fix (payment * t.termMonths) - toDecimal t.principal ≤
        ((189000000 : ℤ) : ℚ) by push_cast; linarith)
    push_cast at hinterest
    have hsum := fix_le_intCast (n := 1000000000) (by norm_num)
      (show Context.default.fix (Context.default.fix (payment * t.termMonths) - toDecimal t.principal) +
        fee ≤ ((1000000000 : ℤ) : ℚ) by push_cast; linarith)
    push_cast at hsum
    linarith
  -- the figures of the offer
  rw [financeCharge_eq, bind_of_ok htotalCharge] at hcharge
  obtain ⟨hchargeEq, hchargeLt⟩ := toCentPlaces_ok hcharge
  have hchargeCents' : figures.financeCharge = halfUp (charge * 100) / 100 := by
    rw [hchargeEq, toCentPlaces_hundredths hchargeLt] at hchargeCents
    exact (Except.ok.inj hchargeCents).symm
  obtain ⟨apr, haprEq, hapr'⟩ := computeApr_bounds hapr
  obtain ⟨m, hm, hmCents, hm'⟩ := exists_cents hpayment0 (by linarith) hmonthly
  obtain ⟨f, hf, hfCents, hf'⟩ := exists_cents hnet0.le hnet' hfinanced
  obtain ⟨τ, hτ, hτCents, hτ'⟩ := exists_cents hT0 (by linarith) htotal
  have hcount : ∀ k : ℕ, k ≤ 10 ^ 12 → toCents ((k : ℚ) / 100) = .ok (k : ℤ) := by
    intro k hk
    have hk : |(k : ℤ)| < 10 ^ 28 := by
      rw [abs_of_nonneg (Int.natCast_nonneg k)]
      omega
    rw [← toCents_hundredths hk, Int.cast_natCast]
  have hnetCents : toCents net = .ok (f : ℤ) := by
    refine toCents_eq ?_ (by rw [abs_of_nonneg (Int.natCast_nonneg f)]; omega)
    rw [hnetfix, fix_mul_hundred, ← hnetfix]
    exact hfCents
  refine ⟨apr, m, f, τ, charge, net, htotalCharge, ?_, ?_, ?_, ?_, hcharge', by omega, hm', hf', hτ'⟩
  · cases h
    rw [hchargeCents']
    simp only [Box.map, haprEq, hm, hf, hτ]
  · unfold compute
    simp only [hpayment, hapr, hnet, hmonthly, htotal, financeCharge_eq, htotalCharge, hcharge, bind,
      Except.bind, haprEq, hm, hτ, hchargeEq]
    rfl
  · unfold outputs
    simp only [hcount m hm', hcount τ hτ', toCents_hundredths hchargeLt, hnetCents, bind, Except.bind]
    rw [div_mul_cancel₀ _ (by norm_num), Int.floor_natCast]
    rfl
  · have hnear := halfUp_near (net * 100)
    rw [hfCents, Int.cast_natCast] at hnear
    have hsplit : (f : ℚ) / 100 - net = (f - net * 100) / 100 := by ring
    rw [hsplit, abs_div, abs_of_pos (show (0 : ℚ) < 100 by norm_num)]
    linarith

/-! ## The comparisons -/

/-- A figure's text is read as the figure. -/
theorem spells_unitsText {places k : ℕ} {d : Decimal} (hplaces : 0 < places)
    (hd : d.value = k / 10 ^ places) : spells (F64.unitsText false places k) d = true := by
  rw [spells_iff, hd, Spells, F64.strip_unitsText]
  refine ⟨?_, _, F64.ofText_unitsText places k, ?_⟩
  · obtain ⟨ip, fp, htext, hi, hf, hne, hlen, -⟩ := F64.unitsText_parts places k
    rw [htext]
    exact Reconciliation.plainDecimal_fixedText hi hf hne (List.ne_nil_of_length_pos (by omega))
  · rw [Decimal.value, signed, if_neg (by simp), zpow_neg, zpow_natCast, div_eq_mul_inv]
    norm_cast

/-- A text with a minus is no figure. -/
theorem spells_minus (t : Text) (d : Decimal) : spells ('-' :: t) d = false := by
  have hminus : '-' ∈ strip ('-' :: t) := by
    have hfirst : ('-' :: t).dropWhile isSpace = '-' :: t := List.dropWhile_cons_of_neg (by decide)
    have hsplit := List.takeWhile_append_dropWhile (p := isSpace) (l := ('-' :: t).reverse)
    rw [strip, hfirst, List.mem_reverse]
    have hmem : '-' ∈ ('-' :: t).reverse := by simp
    rw [← hsplit] at hmem
    exact (List.mem_append.mp hmem).resolve_left fun hblank =>
      absurd (List.mem_takeWhile_imp hblank) (by decide)
  rw [← Bool.not_eq_true, spells_iff]
  exact fun h => Reconciliation.plainDecimal_unsigned h.1 hminus

/-- A figure that went through its float is within the tolerance. -/
theorem disagrees_ofRat {x y : ℚ} (hx : x = 0 ∨ 1 / 1000 ≤ x) (hx' : x ≤ 10 ^ 10)
    (h : |x - y| ≤ 1 / 200) : disagrees (some (.ofRat x)) y = .ok false := by
  have hread : ∃ f, Double.ofRat x = .finite f ∧ |toDecimal f - x| ≤ 1 / 1000 := by
    rcases hx with rfl | hx
    · refine ⟨.zero, by rw [Double.ofRat, if_pos rfl], ?_⟩
      have hzero : toDecimal F64.zero = 0 := by
        rw [toDecimal_eq, F64.decimal_zero rfl, mul_zero]
      rw [hzero]
      norm_num
    · obtain ⟨f, hf, hneg, hmant, hnear⟩ := F64.ofRat_near (x := x)
        (le_trans (le_trans (zpow_le_zpow_right₀ (by norm_num) (show (-1022 : ℤ) ≤ -10 by norm_num))
          (by norm_num)) hx)
        (lt_of_le_of_lt hx' (lt_of_lt_of_le (by norm_num)
          (zpow_le_zpow_right₀ (by norm_num) (show (100 : ℤ) ≤ 1023 by norm_num))))
      have hdecimal : toDecimal f = f.decimal := by
        rw [toDecimal_eq, hneg, if_neg (by simp), one_mul]
      have hsecond := F64.decimal_near hmant
      rw [abs_le] at hnear hsecond
      refine ⟨f, hf, ?_⟩
      rw [hdecimal, abs_le]
      constructor <;> norm_num at * <;> linarith
  obtain ⟨f, hf, hread⟩ := hread
  have hdiff : |toDecimal f - y| ≤ 3 / 500 := by
    calc |toDecimal f - y| = |(toDecimal f - x) + (x - y)| := by ring_nf
      _ ≤ |toDecimal f - x| + |x - y| := abs_add_le _ _
      _ ≤ 3 / 500 := by linarith
  have hfix := fix_near (toDecimal f - y)
  have hsmall : |Context.default.fix (toDecimal f - y)| ≤ 1 / 100 := by
    have hsub := abs_sub_abs_le_abs_sub (Context.default.fix (toDecimal f - y)) (toDecimal f - y)
    linarith
  rw [hf, disagrees, offerMatchTolerance, decide_eq_false (not_lt.mpr hsmall)]

/-- Zero, or a thousandth at least. -/
theorem zero_or_le {k : ℕ} {d : ℚ} (hd : 0 < d) (hd' : d ≤ 1000) : (k : ℚ) / d = 0 ∨ 1 / 1000 ≤ (k : ℚ) / d := by
  rcases Nat.eq_zero_or_pos k with rfl | hk
  · exact .inl (by simp)
  · have hone : (1 : ℚ) ≤ k := by exact_mod_cast hk
    exact .inr (div_le_div₀ (by linarith) hone hd hd')

namespace Counted

variable {s : FeeSchedule} {t : Terms} {b : Box Double} {apr monthly financed total : ℕ}
  {charge net : ℚ}

theorem covers_iff (h : Counted s t b apr monthly financed total charge net) :
    Covers s t ↔ 0 ≤ charge := by
  obtain ⟨interest, hinterest, hsum⟩ := of_bind_ok h.charge_eq
  obtain ⟨fee, hfee, hsum⟩ := of_bind_ok hsum
  cases hsum
  rw [fix_nonneg_iff]
  constructor
  · exact fun hcovers => hcovers interest fee hinterest hfee
  · intro hcharge interest' fee' hinterest' hfee'
    cases hinterest.symm.trans hinterest'
    cases hfee.symm.trans hfee'
    exact hcharge

/-- A document with a charge below zero is refused. -/
theorem not_accepts (h : Counted s t b apr monthly financed total charge net) (hneg : charge < 0)
    {offer : OfferBox} {document : Document} (hcopy : document.figures = offerTexts b) :
    ¬ Accepts s t offer document := by
  rintro ⟨computed, o, -, -, -, hdocument⟩
  have hcheck := refuseIfDocumentDisagrees_ok.mp hdocument
  have hminus : ∃ u, document.figures.financeCharge = '-' :: u := by
    rw [hcopy, h.offer, offerTexts, decide_eq_true hneg, floatOf]
    split_ifs with hzero
    · exact ⟨_, rfl⟩
    · refine F64.fixed_ofRat_neg 2 (lt_of_le_of_ne ?_ hzero)
      have hround := halfUp_mono (show charge * 100 ≤ ((0 : ℤ) : ℚ) by push_cast; linarith)
      rw [halfUp_intCast] at hround
      exact div_nonpos_of_nonpos_of_nonneg (by exact_mod_cast hround) (by norm_num)
  obtain ⟨u, hu⟩ := hminus
  have hspells := hcheck (.financeCharge, document.figures.financeCharge, hundredths o.financeChargeCents)
    List.mem_cons_self
  rw [hu, spells_minus] at hspells
  cases hspells

/-- A document with no figure below zero is accepted. -/
theorem accepts (h : Counted s t b apr monthly financed total charge net) (hcharge : 0 ≤ charge)
    {document : Document} (hcopy : document.figures = offerTexts b) :
    Accepts s t (b.map some) document := by
  obtain ⟨c, hc⟩ := Int.eq_ofNat_of_zero_le (halfUp_nonneg (show 0 ≤ charge * 100 by positivity))
  have hc' : c ≤ 10 ^ 12 := by
    have hle := halfUp_mono (show charge * 100 ≤ ((10 ^ 12 : ℤ) : ℚ) by
      push_cast; linarith [h.charge_le])
    rw [halfUp_intCast, hc] at hle
    exact_mod_cast hle
  have hcharged : (halfUp (charge * 100) : ℚ) = c := by rw [hc, Int.cast_natCast]
  obtain ⟨hapr, hmonthly, hfinanced, htotal⟩ := h.small
  have hoffer : b = ⟨.ofRat (apr / 1000), .ofRat (c / 100), .ofRat (monthly / 100),
      .ofRat (financed / 100), .ofRat (total / 100)⟩ := by
    rw [h.offer, decide_eq_false (not_lt.mpr hcharge), hcharged]
    congr 1
    unfold floatOf
    split_ifs with hzero
    · rw [hzero, Double.ofRat, if_pos rfl]
      rfl
    · rfl
  refine ⟨_, _, h.computed, ?_, h.outputs, refuseIfDocumentDisagrees_ok.mpr ?_⟩
  · have hmoney : ∀ k : ℕ, k ≤ 10 ^ 12 → ∀ y : ℚ, |(k : ℚ) / 100 - y| ≤ 1 / 200 →
        disagrees (some (.ofRat (k / 100))) y = .ok false := by
      intro k hk y hy
      have hkq : (k : ℚ) ≤ 10 ^ 12 := by exact_mod_cast hk
      exact disagrees_ofRat (zero_or_le (by norm_num) (by norm_num)) (by linarith) hy
    have hself : ∀ x : ℚ, |x - x| ≤ 1 / 200 := fun x => by simp
    have haprq : (apr : ℚ) ≤ 10 ^ 12 := by exact_mod_cast hapr
    have hrate := disagrees_ofRat (zero_or_le (k := apr) (d := 1000) (by norm_num) le_rfl) (by linarith)
      (hself _)
    have hfive : mismatches (fun x => disagrees x.1 x.2)
        (offerChecks (b.map some) ⟨apr / 1000, halfUp (charge * 100) / 100, monthly / 100, net,
          total / 100⟩) = .ok [] := by
      rw [hoffer, hcharged]
      simp only [offerChecks, Box.map, mismatches, hrate, hmoney c hc' _ (hself _),
        hmoney monthly hmonthly _ (hself _), hmoney financed hfinanced _ h.net_near,
        hmoney total htotal _ (hself _), bind, Except.bind]
      rfl
    unfold refuseIfOfferDisagrees
    rw [hfive]
    rfl
  · have htext : ∀ k : ℕ, k ≤ 10 ^ 12 →
        (Double.ofRat (k / 100)).fixed 2 = F64.unitsText false 2 k := by
      intro k hk
      have hfixed := F64.fixed_ofRat 2 (k := k) (by norm_num) (by omega)
      norm_num at hfixed
      exact hfixed
    have hrate : (Double.ofRat (apr / 1000)).fixed 3 = F64.unitsText false 3 apr := by
      have hfixed := F64.fixed_ofRat 3 (k := apr) (by norm_num) (by omega)
      norm_num at hfixed
      exact hfixed
    have hmoney : ∀ k : ℕ, spells (F64.unitsText false 2 k) (hundredths k) = true := fun k =>
      spells_unitsText (by norm_num) (by rw [hundredths_value]; norm_num)
    rw [hcopy, hoffer, hc]
    simp only [offerTexts, documentChecks, List.forall_mem_cons, hrate, htext c hc',
      htext monthly hmonthly, htext financed hfinanced, htext total htotal, hmoney, true_and]
    exact ⟨spells_unitsText (by norm_num) (by rw [threePlaces_value]; norm_num), List.forall_mem_nil _⟩

end Counted

/-- **A copied document is accepted exactly if** the payments and the fee cover the principal. -/
theorem accepts_iff {s : FeeSchedule} {t : Terms} {b : Box Double} (h : createdOffer s t = .ok b)
    {document : Document} (hcopy : document.figures = offerTexts b) :
    Accepts s t (b.map some) document ↔ Covers s t := by
  obtain ⟨apr, monthly, financed, total, charge, net, hcounted⟩ := createdOffer_counted h
  rw [hcounted.covers_iff]
  constructor
  · intro haccepts
    by_contra hneg
    exact hcounted.not_accepts (not_le.mp hneg) hcopy haccepts
  · exact fun hcharge => hcounted.accepts hcharge hcopy

end Meridian.Disclosure
