import Meridian.Python.Nearest
import Meridian.Python.Reading

/-!
# A float's text is the float

The text of a float lies in its rounding interval (`Near`), and a number there rounds to the float
(`ofParts_of_near`): within a binade the places are the float's own, and below a power of two they
are half as wide. So `float(repr(f))` is `f` (`ofRat_decimal`). From `2 ^ 1024` on a number is read as an
infinity (`ofRat_of_large`).
-/

namespace Meridian.Python.F64

open Numeric

variable {f : F64}

/-! ## The place of the last digit -/

theorem lastPlace_eq {x : ℚ} {e : ℤ} (hlo : 2 ^ (e + 52) ≤ |x|) (hhi : |x| < 2 ^ (e + 53))
    (he : -1074 ≤ e) : lastPlace x = e := by
  have hpos : (0 : ℚ) < |x| := lt_of_lt_of_le (by positivity) hlo
  have hlog : Int.log 2 |x| = e + 52 := by
    refine le_antisymm ?_ ((Int.zpow_le_iff_le_log (by norm_num) hpos).mp (by exact_mod_cast hlo))
    have := (Int.lt_zpow_iff_log_lt (b := 2) (by norm_num) hpos).mp (by exact_mod_cast hhi)
    omega
  rw [lastPlace, hlog]
  omega

theorem lastPlace_small {x : ℚ} (hx : 0 < |x|) (hhi : |x| < 2 ^ (-1021 : ℤ)) :
    lastPlace x = -1074 := by
  have := (Int.lt_zpow_iff_log_lt (b := 2) (by norm_num) hx).mp (by exact_mod_cast hhi)
  rw [lastPlace]
  omega

/-! ## The rounding interval -/

/-- A number in the rounding interval; its ends are the numbers of an even mantissa only. -/
structure Near (f : F64) (x : ℚ) : Prop where
  lower : (f.lower : ℚ) * f.quarter ≤ x
  upper : x ≤ f.upper * f.quarter
  even : f.lower * f.quarter = x ∨ x = f.upper * f.quarter → f.mant % 2 = 0

theorem near_of_readsBack {c : ℕ} {s : ℤ} (h : f.readsBack c s = true) :
    f.Near (c * 10 ^ s) := by
  refine ⟨(le_of_readsBack h).1, (le_of_readsBack h).2, fun hend => ?_⟩
  by_contra hodd
  have hd : (0 : ℚ) < f.den := by exact_mod_cast f.den_pos
  have hpos : (0 : ℚ) < 4 * f.den * 10 ^ (-s).toNat := by positivity
  rw [readsBack, if_neg hodd] at h
  simp only [Bool.and_eq_true, decide_eq_true_eq] at h
  have hlo : ((f.lower * 2 ^ f.exp.toNat * 10 ^ (-s).toNat : ℕ) : ℚ) <
      ((c * 10 ^ s.toNat * (4 * f.den) : ℕ) : ℚ) := by exact_mod_cast h.1
  have hhi : ((c * 10 ^ s.toNat * (4 * f.den) : ℕ) : ℚ) <
      ((f.upper * 2 ^ f.exp.toNat * 10 ^ (-s).toNat : ℕ) : ℚ) := by exact_mod_cast h.2
  push_cast at hlo hhi
  rw [quarters_eq, decimal_eq] at hlo hhi
  rcases hend with hend | hend
  · exact absurd hend (lt_of_mul_lt_mul_right hlo hpos.le).ne
  · exact absurd hend (lt_of_mul_lt_mul_right hhi hpos.le).ne

/-- The last place, of which a mantissa counts. -/
theorem four_quarters (f : F64) : 4 * f.quarter = 2 ^ f.exp := by
  rw [quarter, zpow_sub₀ (by norm_num)]
  norm_num
  ring

/-- Above the powers of two the interval is one last place wide. -/
theorem halfEven_of_near {x : ℚ} (h : f.Near x) (hmant : f.mant ≠ 0)
    (hlow : ¬(f.mant = 2 ^ 52 ∧ -1074 < f.exp) ∨ f.mant * 2 ^ f.exp ≤ x) :
    halfEven (x / 2 ^ f.exp) = f.mant := by
  have hq := f.quarter_pos
  have hupper : (f.upper : ℚ) = 4 * f.mant + 2 := by
    rw [upper]
    push_cast
    rfl
  have hlower : (4 * f.mant - 2) * f.quarter ≤ x ∧
      ((4 * f.mant - 2) * f.quarter = x → f.mant % 2 = 0) := by
    rcases hlow with hlow | hlow
    · have hlo : (f.lower : ℚ) = 4 * f.mant - 2 := by
        rw [lower, if_neg hlow, Nat.cast_sub (by omega)]
        push_cast
        rfl
      exact ⟨hlo ▸ h.lower, fun he => h.even (.inl (by rw [hlo, he]))⟩
    · rw [← four_quarters] at hlow
      have hlt : (4 * (f.mant : ℚ) - 2) * f.quarter < x := by linarith
      exact ⟨hlt.le, fun he => absurd he hlt.ne⟩
  have hhi := h.upper
  rw [hupper] at hhi
  have hsub : x / 2 ^ f.exp - ((f.mant : ℤ) : ℚ) = (x - 4 * f.mant * f.quarter) / (4 * f.quarter) := by
    rw [← four_quarters, Int.cast_natCast]
    field_simp
  have hfour : (0 : ℚ) < 4 * f.quarter := by linarith
  apply halfEven_eq
  · rw [hsub, abs_le, le_div_iff₀ hfour, div_le_iff₀ hfour]
    constructor
    · linarith [hlower.1]
    · linarith
  · intro htie
    rw [hsub] at htie
    have heven : f.mant % 2 = 0 := by
      rcases (abs_eq (by norm_num)).mp htie with ht | ht
      · rw [div_eq_iff hfour.ne'] at ht
        exact h.even (.inr (by rw [hupper]; linarith))
      · rw [div_eq_iff hfour.ne'] at ht
        exact hlower.2 (by linarith)
    omega

/-- **The nearest float of a number in the rounding interval.** -/
theorem ofParts_of_near {x : ℚ} (h : f.Near x) (hmant : f.mant ≠ 0) (hx : 0 < x) (neg : Bool) :
    Double.ofParts neg (halfEven (x / 2 ^ lastPlace x)).toNat (lastPlace x) =
      .finite { f with neg := neg } := by
  have hq := f.quarter_pos
  have habs : |x| = x := abs_of_pos hx
  have hmantlt : f.mant < 2 ^ 53 := by rcases f.canonical with h | h <;> omega
  have hupper : x < 2 ^ (f.exp + 53) := by
    have hm : (f.mant : ℚ) ≤ 2 ^ 53 - 1 := by
      have : f.mant + 1 ≤ 2 ^ 53 := hmantlt
      have : ((f.mant + 1 : ℕ) : ℚ) ≤ 2 ^ 53 := by exact_mod_cast this
      push_cast at this
      linarith
    have hle := h.upper
    rw [upper] at hle
    push_cast at hle
    rw [zpow_add₀ (by norm_num), ← four_quarters]
    have := mul_le_mul_of_nonneg_right hm hq.le
    norm_num at this ⊢
    linarith
  by_cases hnormal : f.exp = -1074 ∨ 2 ^ (f.exp + 52) ≤ x
  · have hplace : lastPlace x = f.exp := by
      rcases hnormal with he | hlo
      · rw [he] at hupper
        rw [he]
        exact lastPlace_small (by rwa [habs]) (by rw [habs]; exact hupper)
      · refine lastPlace_eq (by rwa [habs]) (by rwa [habs]) ?_
        rcases f.canonical with h | h <;> omega
    have hround : halfEven (x / 2 ^ f.exp) = f.mant := by
      refine halfEven_of_near h hmant ?_
      by_cases hpow : f.mant = 2 ^ 52 ∧ -1074 < f.exp
      · refine .inr ?_
        have hlo := hnormal.resolve_left (by omega)
        rw [zpow_add₀ (by norm_num)] at hlo
        rw [hpow.1]
        norm_num at hlo ⊢
        linarith
      · exact .inl hpow
    rw [hplace, hround, Int.toNat_natCast, Double.ofParts]
    exact dif_pos f.canonical
  · obtain ⟨hexp, hlo⟩ := not_or.mp hnormal
    have hlo := not_le.mp hlo
    obtain ⟨hbig, -, hexp', -⟩ := f.canonical.resolve_left fun h => hexp h.2
    -- below a power of two the places are half as wide
    rw [zpow_add₀ (by norm_num), ← four_quarters] at hlo
    norm_num at hlo
    have hpow : f.mant = 2 ^ 52 := by
      by_contra hne
      have hle := h.lower
      have hm : ((2 ^ 52 + 1 : ℕ) : ℚ) ≤ f.mant := by exact_mod_cast (by omega)
      rw [lower, if_neg (by omega), Nat.cast_sub (by omega)] at hle
      have := mul_le_mul_of_nonneg_right hm hq.le
      norm_num at this hle
      linarith
    have hle := h.lower
    rw [lower, if_pos ⟨hpow, by omega⟩, hpow] at hle
    norm_num at hle
    have htwo : (2 : ℚ) ^ (f.exp - 1) = 2 * f.quarter := by
      rw [zpow_sub₀ (by norm_num), ← four_quarters]
      norm_num
      ring
    have hplace : lastPlace x = f.exp - 1 := by
      refine lastPlace_eq ?_ ?_ (by omega)
      · rw [habs, zpow_add₀ (by norm_num), htwo]
        norm_num
        linarith
      · rw [habs, zpow_add₀ (by norm_num), htwo]
        norm_num
        linarith
    have hround : halfEven (x / 2 ^ (f.exp - 1)) = (2 ^ 53 : ℕ) := by
      have hsub : x / (2 * f.quarter) - ((2 ^ 53 : ℕ) : ℤ) =
          (x - 2 ^ 54 * f.quarter) / (2 * f.quarter) := by
        push_cast
        field_simp
        ring
      rw [htwo]
      refine halfEven_eq ?_ fun _ => by norm_num
      rw [hsub, abs_le, le_div_iff₀ (by linarith), div_le_iff₀ (by linarith)]
      constructor
      · linarith
      · linarith
    rw [hplace, hround, Int.toNat_natCast, Double.ofParts, dif_neg (by unfold Canonical; omega)]
    have hcanonical : Canonical (2 ^ 53 / 2) (f.exp - 1 + 1) := by
      have := f.canonical
      rw [hpow] at this
      rw [sub_add_cancel]
      exact this
    rw [dif_pos hcanonical]
    congr 1
    ext
    · rfl
    · exact hpow.symm
    · exact sub_add_cancel _ _

/-- **`float` reads the text of a number back as that number.** -/
theorem ofRat_decimal (hmant : f.mant ≠ 0) :
    Double.ofRat (if f.neg then -f.decimal else f.decimal) = .finite f := by
  obtain ⟨c, s, hread, hc⟩ := decimal_readsBack hmant
  have hpos := decimal_pos hmant
  have hnear : f.Near f.decimal := hc ▸ near_of_readsBack hread
  have hparts := ofParts_of_near hnear hmant hpos f.neg
  have hne : (if f.neg then -f.decimal else f.decimal) ≠ 0 := by
    split_ifs
    · exact neg_ne_zero.mpr hpos.ne'
    · exact hpos.ne'
  have habs : |if f.neg then -f.decimal else f.decimal| = f.decimal := by
    split_ifs
    · rw [abs_neg, abs_of_pos hpos]
    · exact abs_of_pos hpos
  have hplace : lastPlace (if f.neg then -f.decimal else f.decimal) = lastPlace f.decimal := by
    rw [lastPlace, habs, lastPlace, abs_of_pos hpos]
  have hsign : decide ((if f.neg then -f.decimal else f.decimal) < 0) = f.neg := by
    by_cases hneg : f.neg = true
    · rw [if_pos hneg, hneg, decide_eq_true (by linarith)]
    · rw [if_neg hneg, Bool.eq_false_iff.mpr hneg, decide_eq_false (by linarith)]
  rw [Double.ofRat, if_neg hne, hsign, hplace, habs]
  exact hparts

/-- A number beyond the largest float is infinite. -/
theorem ofRat_of_large {x : ℚ} (h : 2 ^ (1024 : ℤ) ≤ x) : Double.ofRat x = .infinite false := by
  have hpos : 0 < x := lt_of_lt_of_le (by positivity) h
  have hlog : (1024 : ℤ) ≤ Int.log 2 |x| := by
    rw [abs_of_pos hpos]
    exact (Int.zpow_le_iff_le_log (by norm_num) hpos).mp (by exact_mod_cast h)
  have hplace : 972 ≤ lastPlace x := by
    rw [lastPlace]
    omega
  rw [Double.ofRat, if_neg hpos.ne', decide_eq_false (not_lt.mpr hpos.le), Double.ofParts,
    dif_neg (by unfold Canonical; omega), dif_neg (by unfold Canonical; omega)]

end Meridian.Python.F64
