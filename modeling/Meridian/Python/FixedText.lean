import Meridian.Python.Exact
import Meridian.Python.Format
import Meridian.Python.RoundTrip

/-!
# The fixed text of a decimal that went through a float

The float nearest to a number in the normal range is off by at most `2 ^ -53` of it (`ofRat_near`), and
its own text by no more than twice that again. A decimal of few digits is therefore written back digit
by digit (`fixed_ofRat`), as the text `unitsText` that `Decimal` reads as the number (`ofText_unitsText`).
-/

namespace Meridian.Python

open Numeric

namespace F64

/-! ## The nearest float -/

/-- The place of the last digit is a part of the number. -/
theorem lastPlace_spec {x : ℚ} (hlo : 2 ^ (-1022 : ℤ) ≤ x) (hhi : x < 2 ^ (1023 : ℤ)) :
    -1074 ≤ lastPlace x ∧ lastPlace x ≤ 970 ∧ (2 : ℚ) ^ 52 * 2 ^ lastPlace x ≤ x ∧
      x < 2 ^ 53 * 2 ^ lastPlace x := by
  have hpos : (0 : ℚ) < x := lt_of_lt_of_le (by positivity) hlo
  have hbelow : (-1022 : ℤ) ≤ Int.log 2 x :=
    (Int.zpow_le_iff_le_log (by norm_num) hpos).mp (by exact_mod_cast hlo)
  have habove : Int.log 2 x < 1023 :=
    (Int.lt_zpow_iff_log_lt (by norm_num) hpos).mp (by exact_mod_cast hhi)
  have hplace : lastPlace x = Int.log 2 x - 52 := by
    rw [lastPlace, abs_of_pos hpos]
    omega
  have hle : (2 : ℚ) ^ Int.log 2 x ≤ x := by exact_mod_cast Int.zpow_log_le_self (b := 2) (by norm_num) hpos
  have hlt : x < (2 : ℚ) ^ (Int.log 2 x + 1) := by
    exact_mod_cast Int.lt_zpow_succ_log_self (b := 2) (by norm_num) x
  have htwo : (2 : ℚ) ^ Int.log 2 x = 2 ^ 52 * 2 ^ (Int.log 2 x - 52) := by
    rw [← zpow_natCast, ← zpow_add₀ (by norm_num)]
    congr 1
    omega
  rw [hplace]
  refine ⟨by omega, by omega, htwo ▸ hle, ?_⟩
  rw [zpow_add₀ (by norm_num), htwo] at hlt
  linarith

/-- **The nearest float is near**, and it is none of the subnormal ones. -/
theorem ofRat_near {x : ℚ} (hlo : 2 ^ (-1022 : ℤ) ≤ x) (hhi : x < 2 ^ (1023 : ℤ)) :
    ∃ f, Double.ofRat x = .finite f ∧ f.neg = false ∧ 2 ^ 52 ≤ f.mant ∧
      |f.value - x| ≤ x / 2 ^ 53 := by
  obtain ⟨hmin, hmax, hlow, hhigh⟩ := lastPlace_spec hlo hhi
  have hpos : (0 : ℚ) < x := lt_of_lt_of_le (by positivity) hlo
  set e := lastPlace x with he
  have hplace : (0 : ℚ) < 2 ^ e := by positivity
  have hnear := abs_le.mp (halfEven_near (x / 2 ^ e))
  -- the rounded mantissa has its 53 bits, or is the next power of two
  have hunder : (2 : ℤ) ^ 52 ≤ halfEven (x / 2 ^ e) := by
    have hge : (((2 : ℤ) ^ 52 : ℤ) : ℚ) ≤ x / 2 ^ e := by
      rw [le_div_iff₀ hplace]
      exact_mod_cast hlow
    have hmono := halfEven_mono hge
    rwa [show halfEven (((2 : ℤ) ^ 52 : ℤ) : ℚ) = 2 ^ 52 from
      halfEven_eq (by simp) (by simp)] at hmono
  have hover : halfEven (x / 2 ^ e) ≤ (2 : ℤ) ^ 53 := by
    have hlt : x / 2 ^ e ≤ (((2 : ℤ) ^ 53 : ℤ) : ℚ) := by
      rw [div_le_iff₀ hplace]
      exact_mod_cast hhigh.le
    have hmono := halfEven_mono hlt
    rwa [show halfEven (((2 : ℤ) ^ 53 : ℤ) : ℚ) = 2 ^ 53 from
      halfEven_eq (by simp) (by simp)] at hmono
  obtain ⟨m, hm⟩ := Int.eq_ofNat_of_zero_le (show 0 ≤ halfEven (x / 2 ^ e) by omega)
  rw [hm] at hnear hunder hover
  have hunder : 2 ^ 52 ≤ m := by exact_mod_cast hunder
  have hover : m ≤ 2 ^ 53 := by exact_mod_cast hover
  have herror : |(m : ℚ) * 2 ^ e - x| ≤ x / 2 ^ 53 := by
    have hsplit : (m : ℚ) * 2 ^ e - x = (m - x / 2 ^ e) * 2 ^ e := by
      field_simp
    have hhalf : |(m : ℚ) - x / 2 ^ e| ≤ 1 / 2 := abs_le.mpr (by exact_mod_cast hnear)
    rw [hsplit, abs_mul, abs_of_pos hplace, le_div_iff₀ (by norm_num)]
    calc |(m : ℚ) - x / 2 ^ e| * 2 ^ e * 2 ^ 53 ≤ 1 / 2 * 2 ^ e * 2 ^ 53 := by gcongr
      _ = 2 ^ 52 * 2 ^ e := by ring
      _ ≤ x := hlow
  have hof : Double.ofRat x = Double.ofParts false m e := by
    rw [Double.ofRat, if_neg hpos.ne', decide_eq_false (not_lt.mpr hpos.le), abs_of_pos hpos, ← he,
      hm, Int.toNat_natCast]
  rw [hof, Double.ofParts]
  by_cases hcarry : m = 2 ^ 53
  · have hcanonical : Canonical (m / 2) (e + 1) := by
      unfold Canonical
      omega
    rw [dif_neg (by unfold Canonical; omega), dif_pos hcanonical]
    refine ⟨_, rfl, rfl, by simp only; omega, ?_⟩
    have hhalf : ((m / 2 : ℕ) : ℚ) * 2 ^ (e + 1) = m * 2 ^ e := by
      rw [hcarry, zpow_add₀ (by norm_num)]
      norm_num
      ring
    rw [value_eq_zpow, hhalf]
    exact herror
  · have hcanonical : Canonical m e := by
      unfold Canonical
      omega
    rw [dif_pos hcanonical]
    exact ⟨_, rfl, rfl, hunder, by rw [value_eq_zpow]; exact herror⟩

/-- The text of a normal float lies within a unit of its last place. -/
theorem decimal_near {f : F64} (h : 2 ^ 52 ≤ f.mant) : |f.decimal - f.value| ≤ f.value / 2 ^ 53 := by
  obtain ⟨c, s, hread, hc⟩ := decimal_readsBack (f := f) (by omega)
  obtain ⟨hlo, hhi⟩ := le_of_readsBack hread
  have hquarter := f.quarter_pos
  have hlower : 4 * (f.mant : ℚ) - 2 ≤ f.lower := by
    have hcases : 4 * f.mant ≤ f.lower + 2 := by
      unfold lower
      split_ifs <;> omega
    have hcases : ((4 * f.mant : ℕ) : ℚ) ≤ ((f.lower + 2 : ℕ) : ℚ) := by exact_mod_cast hcases
    push_cast at hcases
    linarith
  have hupper : (f.upper : ℚ) = 4 * f.mant + 2 := by
    rw [upper]
    push_cast
    rfl
  have hmant : (2 : ℚ) ^ 52 ≤ f.mant := by exact_mod_cast h
  rw [hupper] at hhi
  have hlo := le_trans (mul_le_mul_of_nonneg_right hlower hquarter.le) hlo
  have hplace := mul_le_mul_of_nonneg_right hmant hquarter.le
  rw [hc, value_eq, abs_le]
  constructor <;> norm_num at hplace ⊢ <;> linarith

/-! ## A decimal of few digits -/

/-- A whole number of units below `2 ^ 52` comes back from the nearest float. -/
theorem fixed_ofRat (places : ℕ) {k : ℕ} (hplaces : places ≤ 60) (hk : k < 2 ^ 52) :
    (Double.ofRat (k / 10 ^ places)).fixed places = unitsText false places k := by
  rcases Nat.eq_zero_or_pos k with rfl | hpos
  · have hzero : scaledUnits places zero = 0 := by
      rw [scaledUnits, value_zero rfl, zero_mul, halfEven_eq (n := 0) (by simp) (by simp)]
      rfl
    rw [Nat.cast_zero, zero_div, Double.ofRat, if_pos rfl, Double.fixed, fixed, hzero]
    rfl
  · have hten : (0 : ℚ) < 10 ^ places := by positivity
    have hone : (1 : ℚ) ≤ k := by exact_mod_cast hpos
    have hlt : (k : ℚ) < 2 ^ 52 := by exact_mod_cast hk
    have hpow : (10 : ℚ) ^ places ≤ 10 ^ 60 := pow_le_pow_right₀ (by norm_num) hplaces
    have hmin : (2 : ℚ) ^ (-1022 : ℤ) ≤ 2 ^ (-200 : ℤ) := zpow_le_zpow_right₀ (by norm_num) (by norm_num)
    have hmax : (2 : ℚ) ^ (52 : ℤ) ≤ 2 ^ (1023 : ℤ) := zpow_le_zpow_right₀ (by norm_num) (by norm_num)
    obtain ⟨f, hf, hneg, -, hnear⟩ := ofRat_near (x := k / 10 ^ places)
      (by
        rw [le_div_iff₀ hten]
        calc (2 : ℚ) ^ (-1022 : ℤ) * 10 ^ places ≤ 2 ^ (-200 : ℤ) * 10 ^ 60 := by gcongr
          _ ≤ 1 := by norm_num
          _ ≤ k := hone)
      (by
        have hle : (k : ℚ) / 10 ^ places ≤ k := div_le_self (by linarith) (one_le_pow₀ (by norm_num))
        exact lt_of_le_of_lt hle (lt_of_lt_of_le (by exact_mod_cast hlt) hmax))
    have hunits : f.scaledUnits places = k := by
      have hscaled : |f.value * 10 ^ places - ((k : ℤ) : ℚ)| ≤ k / 2 ^ 53 := by
        have hsplit : f.value * 10 ^ places - ((k : ℤ) : ℚ) =
            (f.value - k / 10 ^ places) * 10 ^ places := by
          rw [Int.cast_natCast]
          field_simp
        rw [hsplit, abs_mul, abs_of_pos hten]
        calc |f.value - k / 10 ^ places| * 10 ^ places ≤ k / 10 ^ places / 2 ^ 53 * 10 ^ places := by
              gcongr
          _ = k / 2 ^ 53 := by field_simp
      have hhalf : (k : ℚ) / 2 ^ 53 < 1 / 2 := by
        rw [div_lt_iff₀ (by norm_num)]
        linarith
      rw [scaledUnits, halfEven_eq (n := k) (hscaled.trans hhalf.le) fun htie => by linarith,
        Int.toNat_natCast]
    rw [hf, Double.fixed, fixed, hneg, hunits]

/-- The fixed text of a number below zero has its sign. -/
theorem fixed_ofRat_neg (places : ℕ) {x : ℚ} (h : x < 0) :
    ∃ t, (Double.ofRat x).fixed places = '-' :: t := by
  rw [Double.ofRat, if_neg h.ne, decide_eq_true h, Double.ofParts]
  split_ifs
  · exact ⟨_, rfl⟩
  · exact ⟨_, rfl⟩
  · exact ⟨_, rfl⟩

/-! ## Reading it -/

/-- The digits of the last places, by splitting the last of them off. -/
theorem ofDigits_places (places n : ℕ) :
    ofDigits ((List.range places).map fun i => n / 10 ^ (places - 1 - i) % 10) = n % 10 ^ places := by
  induction places generalizing n with
  | zero => simp [Nat.mod_one]
  | succ p ih =>
    have hinit : ((List.range p).map fun i => n / 10 ^ (p + 1 - 1 - i) % 10) =
        (List.range p).map fun i => n / 10 / 10 ^ (p - 1 - i) % 10 := by
      refine List.map_congr_left fun i hi => ?_
      have hi := List.mem_range.mp hi
      rw [Nat.div_div_eq_div_mul, ← pow_succ', show p + 1 - 1 - i = p - 1 - i + 1 by omega]
    rw [List.range_succ, List.map_append, ofDigits_append, hinit, ih]
    simp only [List.map_cons, List.map_nil, List.length_singleton, pow_one, Nat.add_sub_cancel,
      Nat.sub_self, pow_zero, Nat.div_one]
    rw [show ofDigits [n % 10] = n % 10 by simp [ofDigits], pow_succ', Nat.mod_mul]
    ring

section Units

variable (places n : ℕ)

theorem unitsText_parts : ∃ ip fp : List ℕ, unitsText false places n = fixedText false ip fp ∧
    (∀ d ∈ ip, d < 10) ∧ (∀ d ∈ fp, d < 10) ∧ ip ≠ [] ∧ fp.length = places ∧
    ofDigits (ip ++ fp) = n := by
  refine ⟨_, _, rfl, ?_, ?_, ?_, by simp, ?_⟩
  · split_ifs
    · simp
    · exact fun d hd => Nat.digits_lt_base (by norm_num) (List.mem_reverse.mp hd)
  · simp only [List.mem_map]
    rintro d ⟨i, -, rfl⟩
    exact Nat.mod_lt _ (by norm_num)
  · split_ifs with h
    · simp
    · rw [ne_eq, List.reverse_eq_nil_iff, Nat.digits_eq_nil_iff_eq_zero]
      exact h
  · have hwhole : ofDigits (if n / 10 ^ places = 0 then [0] else
        (Nat.digits 10 (n / 10 ^ places)).reverse) = n / 10 ^ places := by
      split_ifs with h
      · rw [h]
        rfl
      · exact ofDigits_digits _
    rw [ofDigits_append, hwhole, ofDigits_places, List.length_map, List.length_range]
    exact Nat.div_add_mod' _ _

/-- `Decimal` reads the units back. -/
theorem ofText_unitsText :
    Decimal.ofText (unitsText false places n) = .ok ⟨false, n, -places⟩ := by
  obtain ⟨ip, fp, htext, hi, hf, hne, hlen, hvalue⟩ := unitsText_parts places n
  rw [htext, ofText_fixedText false hi hf hne, hvalue, hlen]

theorem strip_unitsText : strip (unitsText false places n) = unitsText false places n := by
  obtain ⟨ip, fp, htext, hi, hf, -⟩ := unitsText_parts places n
  rw [htext]
  exact strip_eq fun c hc => (mem_fixedText hi hf c hc).1

end Units

end F64

end Meridian.Python
