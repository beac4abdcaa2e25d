import Meridian.Python.Context
import Meridian.Python.Reading
import Meridian.Reconciliation.Amounts

/-!
# An amount read from text

`_minor_units` reads a plain decimal exactly and multiplies it by 100 under the default context,
which keeps 28 digits. A product of more digits is rounded before it is checked for sub-cent places:
the check then sees the rounded number.

* `ofText_plain`: the constructor is exact on a plain decimal.
* `fix_places`: what the context keeps of a number of `p` places.
* `minorUnits_exact`: the figure moves, or the run ends in `Overflow`, exactly when the product is
  not kept and rounds to whole cents, or has more than a million digits before the point.
-/

namespace Meridian.Python

/-! ## Plain decimals -/

namespace Decimal

theorem value_nonneg_exp {d : Decimal} (h : 0 ≤ d.exp) :
    d.value = (signed d.neg (d.coeff * 10 ^ d.exp.toNat) : ℤ) := by
  have hsigned : signed d.neg (d.coeff * 10 ^ d.exp.toNat) =
      signed d.neg d.coeff * 10 ^ d.exp.toNat := by
    unfold signed
    split_ifs <;> push_cast <;> ring
  rw [hsigned, value]
  push_cast
  rw [← zpow_natCast, Int.toNat_of_nonneg h]

theorem value_unit (neg : Bool) (n : ℕ) : value ⟨neg, n, 0⟩ = (signed neg n : ℤ) := by
  rw [value, zpow_zero, mul_one]

/-- A number below the unit is whole when its places divide its coefficient. -/
theorem dvd_of_whole {d : Decimal} (h : d.exp < 0) {m : ℤ} (hm : d.value = m) :
    10 ^ (-d.exp).toNat ∣ d.coeff ∧
      m = signed d.neg (d.coeff / 10 ^ (-d.exp).toNat) := by
  have hpow : (10 : ℚ) ^ d.exp * 10 ^ (-d.exp).toNat = 1 := by
    rw [← zpow_natCast, Int.toNat_of_nonneg (by omega), ← zpow_add₀ (by norm_num), add_neg_cancel,
      zpow_zero]
  have hcoeff : signed d.neg d.coeff = m * 10 ^ (-d.exp).toNat := by
    have hvalue := congrArg (· * (10 : ℚ) ^ (-d.exp).toNat) hm
    simp only [value, mul_assoc, hpow, mul_one] at hvalue
    exact_mod_cast hvalue
  have habs : d.coeff = m.natAbs * 10 ^ (-d.exp).toNat := by
    have h := congrArg Int.natAbs hcoeff
    rw [Int.natAbs_mul, Int.natAbs_pow] at h
    rw [show (10 : ℤ).natAbs = 10 from rfl] at h
    rw [← h]
    unfold signed
    split_ifs <;> omega
  refine ⟨Dvd.intro_left _ habs.symm, ?_⟩
  have hpos : 0 < 10 ^ (-d.exp).toNat := by positivity
  rw [habs, Nat.mul_div_cancel _ hpos]
  unfold signed at hcoeff ⊢
  split_ifs at hcoeff ⊢ with hneg
  · have : m * 10 ^ (-d.exp).toNat ≤ 0 := by omega
    have : m ≤ 0 := nonpos_of_mul_nonpos_left this (by positivity)
    omega
  · have : 0 ≤ m * 10 ^ (-d.exp).toNat := by omega
    have : 0 ≤ m := nonneg_of_mul_nonneg_left this (by positivity)
    omega

/-- `d == d.to_integral_value()` says that the number is whole. -/
theorem numEq_toIntegralValue {d : Decimal} :
    d.numEq d.toIntegralValue = true ↔ ∃ m : ℤ, d.value = m := by
  rw [numEq_iff]
  by_cases h : 0 ≤ d.exp
  · rw [toIntegralValue, if_pos h]
    exact ⟨fun _ => ⟨_, value_nonneg_exp h⟩, fun _ => rfl⟩
  · rw [toIntegralValue, if_neg h, value_unit]
    refine ⟨fun hv => ⟨_, hv⟩, ?_⟩
    rintro ⟨m, hm⟩
    obtain ⟨hdvd, hround⟩ := dvd_of_whole (not_le.mp h) hm
    rw [hm, hround, rescaled, if_neg h, halfEven_of_dvd hdvd]

theorem toInt_of_whole {d : Decimal} {m : ℤ} (hm : d.value = m) : d.toInt = m := by
  by_cases h : 0 ≤ d.exp
  · rw [value_nonneg_exp h] at hm
    rw [toInt, rescaled, if_pos h]
    exact_mod_cast hm
  · rw [toInt, rescaled, if_neg h]
    exact (dvd_of_whole (not_le.mp h) hm).2.symm

/-! ## What the context keeps -/

/-- The trailing digits of a number of `p` places that the context does not keep. -/
def dropped (n p : ℕ) : ℕ := max (numDigits n - 28) (p - 1000026)

theorem halfEven_mul_pow {n k : ℕ} : halfEven n k * 10 ^ k = n ↔ 10 ^ k ∣ n := by
  constructor
  · exact fun h => Dvd.intro_left _ h
  · exact fun h => by rw [halfEven_of_dvd h, Nat.div_mul_cancel h]

theorem lt_pow_numDigits (n : ℕ) : n < 10 ^ numDigits n :=
  (Nat.lt_base_pow_length_digits (by decide)).trans_le
    (Nat.pow_le_pow_right (by decide) (le_max_right _ _))

theorem halfEven_le (n k : ℕ) : halfEven n k ≤ n / 10 ^ k + 1 := by
  unfold halfEven halfUp
  split_ifs <;> omega

theorem le_halfEven (n k : ℕ) : n / 10 ^ k ≤ halfEven n k := by
  unfold halfEven halfUp
  split_ifs <;> omega

theorem lt_numDigits {n k : ℕ} (h : 10 ^ k ≤ n) : k < numDigits n := by
  by_contra hle
  exact absurd (lt_pow_numDigits n)
    (not_lt.mpr ((Nat.pow_le_pow_right (by decide) (not_lt.mp hle)).trans h))

variable {n p : ℕ}

/-- What is left of a number without its dropped digits fits the context. -/
theorem div_dropped_lt (n p : ℕ) : n / 10 ^ dropped n p < 10 ^ 28 := by
  have hle : numDigits n ≤ 28 + dropped n p := by
    unfold dropped
    omega
  rw [Nat.div_lt_iff_lt_mul (by positivity), ← pow_add]
  exact (lt_pow_numDigits n).trans_le (Nat.pow_le_pow_right (by decide) hle)

/-- A carry into one digit too many leaves a one and zeros. -/
theorem halfEven_carry (h : 28 < numDigits (halfEven n (dropped n p))) :
    halfEven n (dropped n p) = 10 ^ 28 ∧ ¬ 10 ^ dropped n p ∣ n := by
  have hlt := div_dropped_lt n p
  have hle := halfEven_le n (dropped n p)
  have hge : 10 ^ 28 ≤ halfEven n (dropped n p) := by
    by_contra hsmall
    exact absurd (numDigits_le (by decide) (not_le.mp hsmall)) (not_le.mpr h)
  refine ⟨by omega, fun hdvd => ?_⟩
  rw [halfEven_of_dvd hdvd] at hge
  omega

/-- The digits the context keeps of a number of `p` places, and the places of those it drops. -/
def keptDigits (n p : ℕ) : ℕ := numDigits (halfEven n (dropped n p)) + dropped n p

/-- A number of more digits than the context has keeps as many. -/
theorem numDigits_le_kept (h : 28 < numDigits n) (hp : p ≤ numDigits n) :
    numDigits n ≤ keptDigits n p := by
  have hdropped : dropped n p = numDigits n - 28 := by
    unfold dropped
    omega
  have hlow : 10 ^ 27 * 10 ^ dropped n p ≤ n := by
    by_contra hlt
    rw [not_le, ← pow_add] at hlt
    have hshort := numDigits_le (by omega) hlt
    omega
  have hquotient : 10 ^ 27 ≤ halfEven n (dropped n p) :=
    ((Nat.le_div_iff_mul_le (by positivity)).mpr hlow).trans (le_halfEven _ _)
  have hdigits := lt_numDigits hquotient
  unfold keptDigits
  omega

/-- Without a carry, what is kept has a million digits before the point when the number has. -/
theorem keptDigits_le (hn : numDigits n ≤ 1000000 + p)
    (hshort : numDigits (halfEven n (dropped n p)) ≤ 28) : keptDigits n p ≤ 1000000 + p := by
  have hdropped : dropped n p ≤ 999972 + p := by
    unfold dropped
    omega
  unfold keptDigits
  omega

/-- **What the context keeps** of a number of `p` places: the number rounded at the dropped digits,
unless it is too large. -/
theorem fix_places (n p : ℕ) :
    (fix ⟨false, n, -p⟩ = .error .overflow ∧ 1000000 + p < keptDigits n p ∧
      (1000000 + p < numDigits n ∨ p ≤ dropped n p ∧ ¬ 10 ^ dropped n p ∣ n)) ∨
    ∃ d, fix ⟨false, n, -p⟩ = .ok d ∧ numDigits n ≤ 1000000 + p ∧ keptDigits n p ≤ 1000000 + p ∧
      d.value * 10 ^ p = halfEven n (dropped n p) * 10 ^ dropped n p := by
  unfold fix
  by_cases hzero : n = 0
  · subst hzero
    right
    have hdigits : numDigits 0 = 1 := rfl
    have hround : halfEven 0 (dropped 0 p) = 0 := by
      rw [halfEven_of_dvd (dvd_zero _), Nat.zero_div]
    refine ⟨_, if_pos rfl, by omega, keptDigits_le (by omega) (by rw [hround]; decide), ?_⟩
    rw [hround, value]
    simp [signed]
  · rw [if_neg hzero]
    dsimp only
    by_cases hroom : eTop < numDigits n + -(p : ℤ) - prec
    · left
      rw [if_pos hroom]
      unfold eTop prec at hroom
      have hkept := numDigits_le_kept (n := n) (p := p) (by omega) (by omega)
      exact ⟨rfl, by omega, .inl (by omega)⟩
    · rw [if_neg hroom]
      have hfits : numDigits n ≤ 1000000 + p := by
        unfold eTop prec at hroom
        omega
      by_cases hround : -(p : ℤ) < max (numDigits n + -(p : ℤ) - prec) eTiny
      · rw [if_pos hround]
        have hexp : max (numDigits n + -(p : ℤ) - prec) eTiny = dropped n p - p := by
          unfold prec eTiny at hround ⊢
          unfold dropped
          omega
        have hdrop : (dropped n p - (p : ℤ) - -(p : ℤ)).toNat = dropped n p := by omega
        rw [hexp, hdrop]
        by_cases hcarry : prec < numDigits (halfEven n (dropped n p))
        · rw [if_pos hcarry]
          obtain ⟨hone, hinexact⟩ := halfEven_carry (Int.ofNat_lt.mp hcarry)
          by_cases htop : eTop < dropped n p - (p : ℤ) + 1
          · rw [if_pos htop]
            unfold eTop at htop
            have hlong : 28 < numDigits (halfEven n (dropped n p)) := Int.ofNat_lt.mp hcarry
            exact .inl ⟨rfl, by unfold keptDigits; omega, .inr ⟨by omega, hinexact⟩⟩
          · rw [if_neg htop]
            unfold eTop at htop
            have hlong := numDigits_le (k := 29) (by decide) (show 10 ^ 28 < 10 ^ 29 by norm_num)
            rw [← hone] at hlong
            refine .inr ⟨_, rfl, hfits, by unfold keptDigits; omega, ?_⟩
            rw [value, hone, signed, if_neg Bool.false_ne_true, mul_assoc, ← zpow_natCast,
              ← zpow_natCast, ← zpow_add₀ (by norm_num)]
            have hshift : (dropped n p : ℤ) - p + 1 + p = dropped n p + 1 := by omega
            rw [hshift, zpow_add₀ (by norm_num), zpow_one]
            push_cast
            ring
        · rw [if_neg hcarry]
          have hshort : numDigits (halfEven n (dropped n p)) ≤ 28 := by
            unfold prec at hcarry
            omega
          refine .inr ⟨_, rfl, hfits, keptDigits_le hfits hshort, ?_⟩
          rw [value, signed, if_neg Bool.false_ne_true, mul_assoc, ← zpow_natCast, ← zpow_natCast,
            ← zpow_add₀ (by norm_num), sub_add_cancel]
          push_cast
          rfl
      · rw [if_neg hround]
        unfold prec eTiny at hround
        have hnone : dropped n p = 0 := by
          unfold dropped
          omega
        have hsame : halfEven n 0 = n := by
          rw [halfEven_of_dvd (by rw [pow_zero]; exact one_dvd _), pow_zero, Nat.div_one]
        have hshort : numDigits (halfEven n (dropped n p)) ≤ 28 := by
          rw [hnone, hsame]
          omega
        refine .inr ⟨_, rfl, hfits, keptDigits_le hfits hshort, ?_⟩
        rw [hnone, hsame, value, signed,
          if_neg Bool.false_ne_true, mul_assoc, ← zpow_natCast, ← zpow_add₀ (by norm_num), neg_add_cancel]
        simp

end Decimal

end Meridian.Python

namespace Meridian.Reconciliation

open Python

/-! ## The number a plain decimal spells -/

/-- The digits of a plain decimal, without its point. -/
def plainCoeff (t : Text) : ℕ := ofDigits ((takeDigits t).1 ++ decimalPlaces t)

/-- The number a plain decimal spells. -/
def plainValue (t : Text) : ℚ := plainCoeff t / 10 ^ (decimalPlaces t).length

section Plain

variable {t : Text}

/-- A plain decimal is digits, and a point with more digits when there is one. -/
theorem plainDecimal_cases (h : plainDecimal t = true) : (takeDigits t).1 ≠ [] ∧
    ((takeDigits t).2 = [] ∨ ∃ u, (takeDigits t).2 = '.' :: u ∧ (takeDigits u).2 = []) := by
  unfold plainDecimal at h
  rw [Bool.and_eq_true] at h
  obtain ⟨hint, hrest⟩ := h
  refine ⟨by simpa using hint, ?_⟩
  split at hrest
  · rename_i hnil
    exact .inl hnil
  · rename_i u hpoint
    rw [Bool.and_eq_true] at hrest
    exact .inr ⟨u, hpoint, List.isEmpty_iff.mp hrest.2⟩
  · cases hrest

theorem mem_plainDecimal (h : plainDecimal t = true) {c : Char} (hc : c ∈ t) :
    (digit? c).isSome ∨ c = '.' := by
  obtain ⟨-, hnil | ⟨u, hpoint, hnil⟩⟩ := plainDecimal_cases h
  · rcases mem_takeDigits hc with hdigit | hin
    · exact .inl hdigit
    · rw [hnil] at hin
      cases hin
  · rcases mem_takeDigits hc with hdigit | hin
    · exact .inl hdigit
    · rw [hpoint] at hin
      rcases List.mem_cons.mp hin with hpoint | hin
      · exact .inr hpoint
      · rcases mem_takeDigits hin with hdigit | hin
        · exact .inl hdigit
        · rw [hnil] at hin
          cases hin

theorem head_plainDecimal (h : plainDecimal t = true) : ∀ c ∈ t.head?, (digit? c).isSome := by
  intro c hc
  cases t with
  | nil => cases hc
  | cons a t =>
    cases hc
    have hint := (plainDecimal_cases h).1
    unfold takeDigits at hint
    split at hint
    · rename_i d hd
      rw [hd]
      rfl
    · exact absurd rfl hint

/-- **The constructor is exact** on a plain decimal. -/
theorem ofText_plain (h : plainDecimal t = true) :
    Decimal.ofText t = .ok ⟨false, plainCoeff t, -(decimalPlaces t).length⟩ := by
  have hchars : ∀ c ∈ t, isSpace c = false ∧ c ≠ '_' := by
    intro c hc
    rcases mem_plainDecimal h hc with hdigit | rfl
    · obtain ⟨d, hd⟩ := Option.isSome_iff_exists.mp hdigit
      refine ⟨isSpace_of_digit hd, ?_⟩
      rintro rfl
      cases hd
    · exact ⟨rfl, by decide⟩
  have hhead : ∀ c ∈ t.head?, c ≠ '-' ∧ c ≠ '+' := by
    intro c hc
    obtain ⟨d, hd⟩ := Option.isSome_iff_exists.mp (head_plainDecimal h c hc)
    constructor
    · rintro rfl
      cases hd
    · rintro rfl
      cases hd
  obtain ⟨hint, hrest⟩ := plainDecimal_cases h
  have hexponent : (Decimal.takeFraction (takeDigits t).2).2 = [] := by
    rcases hrest with hnil | ⟨u, hpoint, hnil⟩
    · rw [hnil]
      rfl
    · rw [hpoint]
      exact hnil
  have hread : Decimal.unsigned? false t =
      some ⟨false, plainCoeff t, -(decimalPlaces t).length⟩ := by
    unfold Decimal.unsigned?
    dsimp only
    rw [if_neg (fun hnone => hint hnone.1), hexponent, Decimal.exponent?, Option.map_some,
      zero_sub]
    rfl
  exact Decimal.ofText_unsigned hchars hhead false hread

end Plain

/-! ## When the figure stays -/

/-- The function returns whole cents exactly for the plain decimals that spell them, and aborts on
every other text. -/
def Exact (source : Source) (raw : Text) : Prop :=
  (∀ n : ℤ, minorUnits source (some raw) = .ok n ↔
    plainDecimal (strip raw) = true ∧ plainValue (strip raw) = n / 100) ∧
  ∀ e, minorUnits source (some raw) = .error e → ∃ a, e = .abort a

/-- The hundredfold of a plain decimal has at most a million digits before its point, and either the
context drops none but zeros of it or what is left of it is no whole number. -/
def Kept (t : Text) : Prop :=
  let n := plainCoeff t * 100
  let p := (decimalPlaces t).length
  Decimal.numDigits n ≤ 1000000 + p ∧
    (10 ^ Decimal.dropped n p ∣ n ∨
      ¬ 10 ^ p ∣ Decimal.halfEven n (Decimal.dropped n p) * 10 ^ Decimal.dropped n p)

instance (t : Text) : Decidable (Kept t) := inferInstanceAs (Decidable (_ ∧ _))

section Exactness

variable {source : Source} {raw t : Text} {d : Decimal}

theorem mul_minorUnitsPerMajor (n p : ℕ) : Decimal.mul ⟨false, n, -p⟩ minorUnitsPerMajor =
    Decimal.fix ⟨false, n * 100, -p⟩ := by
  unfold Decimal.mul minorUnitsPerMajor
  simp

theorem minorUnits_signal (h : plainDecimal (strip raw) = true) {s : Signal}
    (hfix : Decimal.fix ⟨false, plainCoeff (strip raw) * 100, -(decimalPlaces (strip raw)).length⟩ =
      .error s) : minorUnits source (some raw) = .error (.signal s) := by
  unfold minorUnits
  simp only [h, ofText_plain h, mul_minorUnitsPerMajor, hfix, Bool.true_eq_false, if_false]

theorem minorUnits_scaled (h : plainDecimal (strip raw) = true)
    (hfix : Decimal.fix ⟨false, plainCoeff (strip raw) * 100, -(decimalPlaces (strip raw)).length⟩ =
      .ok d) : minorUnits source (some raw) =
      if d.numEq d.toIntegralValue = false then .error (.abort (.amountSubCent source (strip raw)))
      else .ok d.toInt := by
  unfold minorUnits
  simp only [h, ofText_plain h, mul_minorUnitsPerMajor, hfix, Bool.true_eq_false, if_false]

/-- The cents of a plain decimal. -/
theorem plainValue_iff {t : Text} {n : ℤ} : plainValue t = n / 100 ↔
    ((plainCoeff t * 100 : ℕ) : ℚ) = n * 10 ^ (decimalPlaces t).length := by
  have hpow : (10 : ℚ) ^ (decimalPlaces t).length ≠ 0 := by positivity
  rw [plainValue, div_eq_div_iff hpow (by norm_num)]
  push_cast
  rfl

/-- Rounding is exact when it drops only zeros. -/
theorem rounded_eq_iff {n p : ℕ} : ((Decimal.halfEven n (Decimal.dropped n p) : ℚ) *
    10 ^ Decimal.dropped n p = (n : ℕ)) ↔ 10 ^ Decimal.dropped n p ∣ n := by
  rw [← Decimal.halfEven_mul_pow]
  exact_mod_cast Iff.rfl

/-- What is left of the product is whole when its places divide it. -/
theorem whole_iff {n p : ℕ} (hvalue : d.value * 10 ^ p =
    Decimal.halfEven n (Decimal.dropped n p) * 10 ^ Decimal.dropped n p) :
    (∃ m : ℤ, d.value = m) ↔
      10 ^ p ∣ Decimal.halfEven n (Decimal.dropped n p) * 10 ^ Decimal.dropped n p := by
  have hpow : (10 : ℚ) ^ p ≠ 0 := by positivity
  constructor
  · rintro ⟨m, hm⟩
    rw [hm] at hvalue
    have hint : m * 10 ^ p =
        ((Decimal.halfEven n (Decimal.dropped n p) * 10 ^ Decimal.dropped n p : ℕ) : ℤ) := by
      exact_mod_cast hvalue
    exact Int.natCast_dvd_natCast.mp ⟨m, by rw [← hint]; push_cast; ring⟩
  · rintro ⟨m, hm⟩
    refine ⟨m, mul_right_cancel₀ hpow ?_⟩
    rw [hvalue]
    exact_mod_cast hm.trans (mul_comm _ _)

end Exactness

/-- **When no figure moves.** The function is exact on a text precisely when the text is no plain
decimal or the context keeps its cents. -/
theorem minorUnits_exact (source : Source) (raw : Text) :
    Exact source raw ↔ (plainDecimal (strip raw) = true → Kept (strip raw)) := by
  by_cases hplain : plainDecimal (strip raw) = true
  · simp only [hplain, true_implies]
    unfold Exact Kept
    simp only [hplain, true_and, plainValue_iff]
    generalize hn : plainCoeff (strip raw) * 100 = n
    generalize hp : (decimalPlaces (strip raw)).length = p
    rcases Decimal.fix_places n p with ⟨hfix, -, hlarge⟩ | ⟨d, hfix, hfits, -, hvalue⟩
    · -- `Overflow` is no abort
      rw [minorUnits_signal hplain (by rw [hn, hp]; exact hfix)]
      constructor
      · rintro ⟨-, habort⟩
        obtain ⟨a, ha⟩ := habort _ rfl
        cases ha
      · rintro ⟨hfits, hkept⟩
        exfalso
        rcases hlarge with hlarge | ⟨hle, hinexact⟩
        · omega
        · rcases hkept with hexact | hpart
          · exact hinexact hexact
          · exact hpart (Dvd.dvd.mul_left (pow_dvd_pow 10 hle) _)
    · rw [minorUnits_scaled hplain (by rw [hn, hp]; exact hfix)]
      by_cases hwhole : ∃ m : ℤ, d.value = m
      · obtain ⟨m, hm⟩ := hwhole
        have hdvd := (whole_iff hvalue).mp ⟨m, hm⟩
        rw [if_neg (by rw [Decimal.numEq_toIntegralValue.mpr ⟨m, hm⟩]; decide),
          Decimal.toInt_of_whole hm]
        rw [hm] at hvalue
        constructor
        · rintro ⟨hreturns, -⟩
          refine ⟨hfits, .inl (rounded_eq_iff.mp ?_)⟩
          rw [← hvalue, (hreturns m).mp rfl]
        · rintro ⟨-, hkept⟩
          have hexact : (n : ℚ) = m * 10 ^ p := by
            rcases hkept with hexact | hpart
            · rw [hvalue]
              exact (rounded_eq_iff.mpr hexact).symm
            · exact absurd hdvd hpart
          refine ⟨fun k => ?_, nofun⟩
          rw [hexact, mul_left_inj' (by positivity), Int.cast_inj, Except.ok.injEq]
      · have hpart := mt (whole_iff hvalue).mpr hwhole
        rw [if_pos (by simpa using mt Decimal.numEq_toIntegralValue.mp hwhole)]
        refine iff_of_true ⟨fun k => iff_of_false nofun fun hk => ?_, ?_⟩ ⟨hfits, .inr hpart⟩
        · -- whole cents would have been kept
          have hdvd : 10 ^ p ∣ n := by
            have hint : (n : ℤ) = k * 10 ^ p := by exact_mod_cast hk
            exact Int.natCast_dvd_natCast.mp ⟨k, by rw [hint]; push_cast; ring⟩
          have hlt : Decimal.dropped n p ≤ p := by
            by_contra hlt
            exact hpart (Dvd.dvd.mul_left (pow_dvd_pow 10 (not_le.mp hlt).le) _)
          have hexact := Decimal.halfEven_mul_pow.mpr ((pow_dvd_pow 10 hlt).trans hdvd)
          exact hpart (by rw [hexact]; exact hdvd)
        · intro e he
          cases he
          exact ⟨_, rfl⟩
  · have hrefused : minorUnits source (some raw) =
        .error (.abort (.amountNotPlain source (strip raw))) := by
      unfold minorUnits
      exact if_pos (by simpa using hplain)
    refine iff_of_true ⟨fun n => ?_, fun e he => ?_⟩ fun h => absurd h hplain
    · rw [hrefused]
      exact iff_of_false nofun fun h => hplain h.1
    · rw [hrefused] at he
      cases he
      exact ⟨_, rfl⟩

/-- Twenty-eight decimals make a product of 31 digits. -/
def subCent : Text := "1.0000000000000000000000000001".toList

/-- The last digit is dropped before the check, and a dollar is read. -/
theorem sub_cent_read : ¬ ∀ (source : Source) (raw : Text), Exact source raw := by
  intro h
  have hread : minorUnits (.payment 1) (some subCent) = .ok 100 := by decide +kernel
  have hvalue := plainValue_iff.mp (((h (.payment 1) subCent).1 100).mp hread).2
  have hint : plainCoeff (strip subCent) * 100 =
      100 * 10 ^ (decimalPlaces (strip subCent)).length := by exact_mod_cast hvalue
  exact absurd hint (by decide +kernel)

end Meridian.Reconciliation
