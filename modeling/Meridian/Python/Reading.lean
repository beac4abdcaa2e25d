import Meridian.Python.Context
import Meridian.Python.Float

/-!
# What `Decimal` reads of a float's text

`Decimal(str(x))` is exact: the digits of the text at its decimal point, `F64.decimal`, with the
sign of `x` (`ofText_repr`). The text reads back as `x`, so it is no further from `x` than half of
its last place, which is little of a normal number and at most half of any (`decimal_le`).
`Decimal.toText` is `str` of a decimal, and `Decimal` reads that exactly too (`ofText_toText`).
-/

namespace Meridian.Python.F64

/-- The number the text spells, its sign aside. -/
def decimal (f : F64) : ℚ := ofDigits f.digits.1 * 10 ^ (f.digits.2 - f.digits.1.length)

variable {f : F64}

/-! ## The two notations -/

theorem ofDigits_digits (n : Nat) : ofDigits (Nat.digits 10 n).reverse = n := by
  rw [ofDigits, List.reverse_reverse, Nat.ofDigits_digits]

theorem ofDigits_exponentDigits (e : Int) : ofDigits (exponentDigits e) = e.natAbs := by
  rw [exponentDigits, ofDigits_append, ofDigits_digits]
  unfold zeros
  rw [ofDigits_replicate_zero, Nat.zero_mul, Nat.zero_add]

theorem exponentDigits_ne_nil (e : Int) : exponentDigits e ≠ [] := by
  intro h
  have hlen := congrArg List.length h
  unfold exponentDigits zeros at hlen
  rw [List.length_append, List.length_replicate, List.length_nil] at hlen
  omega

/-- The sign of an exponent and its digits. -/
theorem exponent?_signed {c : Char} (hc : c = 'e' ∨ c = 'E') (e : Int) {ds : List Nat}
    (hds : ∀ d ∈ ds, d < 10) (hne : ds ≠ []) (hvalue : ofDigits ds = e.natAbs) :
    Decimal.exponent? (c :: (if e < 0 then '-' else '+') :: digitText ds) = some e := by
  have htake : takeDigits (digitText ds) = (ds, []) := by
    simpa [digitText] using takeDigits_map_digitChar (t := []) hds (by simp)
  have hsign : takeSign ((if e < 0 then '-' else '+') :: digitText ds) =
      (decide (e < 0), digitText ds) := by
    by_cases h : e < 0
    · rw [if_pos h, decide_eq_true h]
      rfl
    · rw [if_neg h, decide_eq_false h]
      rfl
  simp only [Decimal.exponent?, if_pos hc, hsign, htake, hne, ne_eq, not_true_eq_false, or_self,
    if_false, hvalue, signed, decide_eq_true_eq]
  congr 1
  split_ifs <;> omega

/-- A point and digits, when there are any. -/
def pointText (fp : List Nat) : Text := if fp = [] then [] else '.' :: digitText fp

/-- **A literal** of digits, a point with more digits and an exponent is read exactly. -/
theorem unsigned?_literal (neg : Bool) {ip fp : List Nat} {ex : Text} {e : Int}
    (hi : ∀ d ∈ ip, d < 10) (hf : ∀ d ∈ fp, d < 10) (hne : ip ≠ [])
    (hex : Decimal.exponent? ex = some e) (hhead : ∀ c ∈ ex.head?, digit? c = none ∧ c ≠ '.') :
    Decimal.unsigned? neg (digitText ip ++ (pointText fp ++ ex)) =
      some ⟨neg, ofDigits (ip ++ fp), e - fp.length⟩ := by
  unfold Decimal.unsigned? pointText
  by_cases hnil : fp = []
  · subst hnil
    have htake : takeDigits (digitText ip ++ ([] ++ ex)) = (ip, ex) :=
      takeDigits_map_digitChar hi fun c hc => (hhead c hc).1
    have hfrac : Decimal.takeFraction ex = ([], ex) := by
      unfold Decimal.takeFraction
      split
      · exact absurd rfl (hhead '.' rfl).2
      · rfl
    simp only [if_true, htake, hfrac, hex, hne, false_and, if_false, Option.map_some]
  · have htake : takeDigits (digitText ip ++ ('.' :: digitText fp ++ ex)) =
        (ip, '.' :: (digitText fp ++ ex)) := takeDigits_map_digitChar hi (by simp; decide)
    have hfrac : Decimal.takeFraction ('.' :: (digitText fp ++ ex)) = (fp, ex) :=
      takeDigits_map_digitChar hf fun c hc => (hhead c hc).1
    simp only [if_neg hnil, htake, hfrac, hex, hne, false_and, if_false, Option.map_some]

/-- `Decimal` reads exponent notation exactly. -/
theorem unsigned?_scientificText (neg : Bool) {ds : List Nat} (h : Digits ds) (k : Int) :
    Decimal.unsigned? neg (scientificText ds k) = some ⟨neg, ofDigits ds, k - ds.length⟩ := by
  obtain ⟨d, es, rfl, htext⟩ := scientificText_cases h k
  have hread : Decimal.unsigned? neg (digitText [d] ++ (pointText es ++
      'e' :: exponentText (k - 1))) = some ⟨neg, ofDigits ([d] ++ es), k - 1 - es.length⟩ :=
    unsigned?_literal neg (fun e he => h.lt e (by simpa using .inl (List.mem_singleton.mp he)))
      (fun e he => h.lt e (List.mem_cons_of_mem d he)) (List.cons_ne_nil d [])
      (exponent?_signed (.inl rfl) _ (exponentDigits_lt _) (exponentDigits_ne_nil _)
        (ofDigits_exponentDigits _)) (by simp; decide)
  have hlen : k - 1 - (es.length : Int) = k - ((d :: es).length : Int) := by
    rw [List.length_cons]
    push_cast
    omega
  rw [htext, ← hlen]
  exact hread

/-- Fixed notation spells the same number. -/
theorem fixedParts_value {ds : List Nat} {k : Int} :
    ((ofDigits ((fixedParts ds k).1 ++ (fixedParts ds k).2) : ℕ) : ℚ) *
      10 ^ (-((fixedParts ds k).2.length : Int)) = ofDigits ds * 10 ^ (k - ds.length) := by
  unfold fixedParts zeros
  split_ifs with h0 hlen
  · have hzero : ofDigits [0] = 0 := rfl
    rw [← List.append_assoc, ofDigits_append, ofDigits_append, hzero, ofDigits_replicate_zero]
    simp only [Nat.zero_mul, Nat.zero_add, List.length_append, List.length_replicate]
    congr 2
    omega
  · rw [List.take_append_drop]
    simp only [List.length_drop]
    congr 2
    omega
  · have hten : (10 : ℚ) ≠ 0 := by norm_num
    have hzero : ofDigits [0] = 0 := rfl
    rw [ofDigits_append, ofDigits_append, ofDigits_replicate_zero, hzero]
    simp only [List.length_replicate, List.length_singleton, Nat.add_zero, Nat.cast_mul,
      Nat.cast_pow, Nat.cast_ofNat]
    rw [mul_assoc, mul_assoc, pow_one, zpow_neg, Nat.cast_one, zpow_one, mul_inv_cancel₀ hten,
      mul_one, ← zpow_natCast]
    congr 2
    omega

/-- What `Decimal` reads of a float's text is exact, and of few digits. -/
theorem ofText_repr_lt (f : F64) : ∃ d, Decimal.ofText f.repr = .ok d ∧ d.neg = f.neg ∧
    (d.coeff : ℚ) * 10 ^ d.exp = f.decimal ∧ d.coeff < 10 ^ 28 := by
  by_cases hk : Fixed f.digits.2
  · have hparts := parts_spec hk
    rw [repr_fixed hk, ofText_fixedText f.neg hparts.int_lt hparts.frac_lt hparts.int_ne_nil]
    refine ⟨_, rfl, rfl, fixedParts_value, ?_⟩
    have hlt := ofDigits_lt fun d hd =>
      (List.mem_append.mp hd).elim (hparts.int_lt d) (hparts.frac_lt d)
    refine hlt.trans_le (Nat.pow_le_pow_right (by decide) ?_)
    rw [List.length_append]
    exact hparts.length_le.trans (by decide)
  · have hstrip : strip f.repr = f.repr := strip_eq fun c hc => (mem_repr c hc).1
    have hfilter : f.repr.filter (· ≠ '_') = f.repr :=
      List.filter_eq_self.mpr fun c hc => by simpa using (mem_repr c hc).2
    have hrepr : f.repr = signText f.neg ++ scientificText f.digits.1 f.digits.2 := by
      rw [repr, if_neg hk]
    have hsign : takeSign f.repr = (f.neg, scientificText f.digits.1 f.digits.2) := by
      rw [hrepr]
      cases f.neg with
      | true => rfl
      | false =>
        obtain ⟨d, es, hds, htext⟩ := scientificText_cases (digits_spec f) f.digits.2
        have hd : d < 10 := (digits_spec f).lt d (by rw [hds]; exact List.mem_cons_self)
        rw [htext]
        exact @takeSign_digitText d [] hd _
    refine ⟨⟨f.neg, ofDigits f.digits.1, f.digits.2 - f.digits.1.length⟩, ?_, rfl, rfl, ?_⟩
    · unfold Decimal.ofText
      rw [hstrip, hfilter]
      simp only [hsign, unsigned?_scientificText f.neg (digits_spec f) f.digits.2]
    · have hlen := (digits_spec f).length_le
      exact (ofDigits_lt (digits_spec f).lt).trans_le
        (Nat.pow_le_pow_right (by decide) (hlen.trans (by decide)))

/-- **`Decimal` reads a float's text exactly.** -/
theorem ofText_repr (f : F64) : ∃ d, Decimal.ofText f.repr = .ok d ∧ d.neg = f.neg ∧
    (d.coeff : ℚ) * 10 ^ d.exp = f.decimal := by
  obtain ⟨d, hd, hneg, hvalue, -⟩ := ofText_repr_lt f
  exact ⟨d, hd, hneg, hvalue⟩

/-! ## How far the text is from the number -/

/-- Trailing zeros only move the point. -/
theorem ofDigits_trimmed (c : Nat) :
    ofDigits (trimmed c) * 10 ^ ((Nat.digits 10 c).length - (trimmed c).length) = c := by
  have hsplit := List.takeWhile_append_dropWhile (p := fun x : Nat => decide (x = 0))
    (l := Nat.digits 10 c)
  have hlen : (Nat.digits 10 c).length - (trimmed c).length =
      ((Nat.digits 10 c).takeWhile (· = 0)).length := by
    have := congrArg List.length hsplit
    rw [List.length_append] at this
    rw [trimmed, List.length_reverse]
    omega
  have hzeros : Nat.ofDigits 10 ((Nat.digits 10 c).takeWhile (· = 0)) = 0 := by
    have hreplicate : (Nat.digits 10 c).takeWhile (· = 0) =
        zeros ((Nat.digits 10 c).takeWhile (· = 0)).length :=
      List.eq_replicate_iff.mpr ⟨rfl, fun d hd => by simpa using List.mem_takeWhile_imp hd⟩
    rw [hreplicate]
    exact Nat.ofDigits_replicate_zero
  have hvalue := Nat.ofDigits_digits 10 c
  rw [← hsplit, Nat.ofDigits_append, hzeros, Nat.zero_add, Nat.mul_comm, ← hlen] at hvalue
  rw [ofDigits, trimmed, List.reverse_reverse]
  exact hvalue

/-- The text of a number that is not zero lies in its rounding interval. -/
theorem decimal_readsBack (h : f.mant ≠ 0) : ∃ c : Nat, ∃ s : Int, f.readsBack c s = true ∧
    f.decimal = c * 10 ^ s := by
  obtain ⟨c, n, h1, hn, hc, hread, hx⟩ := shortest_spec h
  refine ⟨c, f.decpt - n, hread, ?_⟩
  have hdigits : f.digits = (trimmed c, (Nat.digits 10 c).length + f.decpt - n) := by
    rw [digits, if_neg h, hx]
  have hlen : (trimmed c).length ≤ (Nat.digits 10 c).length := by
    rw [trimmed, List.length_reverse]
    exact (List.dropWhile_sublist _).length_le
  have hten : (10 : ℚ) ≠ 0 := by norm_num
  rw [decimal, hdigits]
  conv_rhs => rw [← ofDigits_trimmed c]
  push_cast
  rw [mul_assoc, ← zpow_natCast, ← zpow_add₀ hten]
  congr 2
  omega

theorem le_of_readsBack {c : Nat} {s : Int} (h : f.readsBack c s = true) :
    (f.lower : ℚ) * f.quarter ≤ c * 10 ^ s ∧ (c : ℚ) * 10 ^ s ≤ f.upper * f.quarter := by
  have hd : (0 : ℚ) < f.den := by exact_mod_cast f.den_pos
  have hpos : (0 : ℚ) < 4 * f.den * 10 ^ (-s).toNat := by positivity
  have hnat : f.lower * 2 ^ f.exp.toNat * 10 ^ (-s).toNat ≤ c * 10 ^ s.toNat * (4 * f.den) ∧
      c * 10 ^ s.toNat * (4 * f.den) ≤ f.upper * 2 ^ f.exp.toNat * 10 ^ (-s).toNat := by
    unfold readsBack at h
    split at h
    · simpa using h
    · simp only [Bool.and_eq_true, decide_eq_true_eq] at h
      exact ⟨h.1.le, h.2.le⟩
  constructor
  · refine le_of_mul_le_mul_right ?_ hpos
    rw [← quarters_eq, ← decimal_eq]
    exact_mod_cast hnat.1
  · refine le_of_mul_le_mul_right ?_ hpos
    rw [← quarters_eq, ← decimal_eq]
    exact_mod_cast hnat.2

theorem value_zero (h : f.mant = 0) : f.value = 0 := by
  rw [value_eq, h, Nat.cast_zero, mul_zero, zero_mul]

theorem value_pos (h : f.mant ≠ 0) : 0 < f.value := by
  have hquarter := f.quarter_pos
  have hmant : (0 : ℚ) < f.mant := by exact_mod_cast Nat.pos_of_ne_zero h
  rw [value_eq]
  positivity

/-- Zero is spelled as zero. -/
theorem decimal_zero (h : f.mant = 0) : f.decimal = 0 := by
  have hzero : ofDigits [0] = 0 := rfl
  rw [decimal, digits, if_pos h, hzero, Nat.cast_zero, zero_mul]

theorem decimal_pos (h : f.mant ≠ 0) : 0 < f.decimal := by
  obtain ⟨c, s, hread, hc⟩ := decimal_readsBack h
  have hpos : (0 : ℚ) < c := by exact_mod_cast pos_of_readsBack h hread
  rw [hc]
  positivity

/-- The text of a number that is not zero is not below half of its last place. -/
theorem le_decimal (h : f.mant ≠ 0) : 2 * f.quarter ≤ f.decimal := by
  obtain ⟨c, s, hread, hc⟩ := decimal_readsBack h
  have hlower : 2 ≤ f.lower := by
    unfold lower
    split_ifs <;> omega
  have hlower : (2 : ℚ) ≤ f.lower := by exact_mod_cast hlower
  rw [hc]
  exact (mul_le_mul_of_nonneg_right hlower f.quarter_pos.le).trans (le_of_readsBack hread).1

/-- The text is above a number by at most half of it. -/
theorem decimal_le (f : F64) : f.decimal ≤ 3 / 2 * f.value := by
  by_cases h : f.mant = 0
  · rw [decimal_zero h, value_zero h, mul_zero]
  · obtain ⟨c, s, hread, hc⟩ := decimal_readsBack h
    have hone : (1 : ℚ) ≤ f.mant := by exact_mod_cast Nat.one_le_iff_ne_zero.mpr h
    have hle := (le_of_readsBack hread).2
    have hupper : (f.upper : ℚ) = 4 * f.mant + 2 := by
      rw [upper]
      push_cast
      rfl
    have hquarter := f.quarter_pos
    rw [hc, value_eq]
    calc (c : ℚ) * 10 ^ s ≤ f.upper * f.quarter := hle
      _ ≤ 6 * f.mant * f.quarter := mul_le_mul_of_nonneg_right (by linarith) hquarter.le
      _ = 3 / 2 * (4 * f.mant * f.quarter) := by ring

end Meridian.Python.F64

namespace Meridian.Python.Decimal

open F64

/-! ## The text of a decimal -/

/-- The digits of a coefficient; zero has one. -/
def digits (d : Decimal) : List Nat := if d.coeff = 0 then [0] else (Nat.digits 10 d.coeff).reverse

/-- `%+d` of an exponent. -/
def exponentText (e : Int) : Text :=
  (if e < 0 then '-' else '+') ::
    digitText (if e = 0 then [0] else (Nat.digits 10 e.natAbs).reverse)

/-- `str(d)`: in fixed notation when the exponent is not above zero and the leading digit is at most
six places after the point, and with an exponent otherwise. -/
def toText (d : Decimal) : Text :=
  let ds := d.digits
  let left := d.exp + ds.length
  signText d.neg ++
    if d.exp ≤ 0 ∧ -6 < left then
      if left ≤ 0 then '0' :: '.' :: digitText (zeros (-left).toNat ++ ds)
      else if left < ds.length then
        digitText (ds.take left.toNat) ++ '.' :: digitText (ds.drop left.toNat)
      else digitText ds
    else
      match ds with
      | [] => []
      | [x] => digitChar x :: 'E' :: exponentText (left - 1)
      | x :: xs => digitChar x :: '.' :: (digitText xs ++ 'E' :: exponentText (left - 1))

variable {d : Decimal}

theorem digits_lt (d : Decimal) : ∀ x ∈ d.digits, x < 10 := by
  intro x hx
  unfold digits at hx
  split at hx
  · rw [List.mem_singleton.mp hx]
    decide
  · exact Nat.digits_lt_base (by decide) (List.mem_reverse.mp hx)

theorem digits_ne_nil (d : Decimal) : d.digits ≠ [] := by
  unfold digits
  split_ifs with h
  · exact List.cons_ne_nil 0 []
  · exact List.reverse_ne_nil_iff.mpr (Nat.digits_ne_nil_iff_ne_zero.mpr h)

theorem ofDigits_digits (d : Decimal) : ofDigits d.digits = d.coeff := by
  unfold digits
  split_ifs with h
  · exact h.symm
  · exact F64.ofDigits_digits d.coeff

/-- A text of digits, points, signs and exponents has neither white space nor underscores. -/
theorem ofText_unsigned {t : Text} {e : Decimal} (ht : ∀ c ∈ t, isSpace c = false ∧ c ≠ '_')
    (hhead : ∀ c ∈ t.head?, c ≠ '-' ∧ c ≠ '+') (neg : Bool)
    (hread : unsigned? neg t = some e) : ofText (signText neg ++ t) = .ok e := by
  have hmem : ∀ c ∈ signText neg ++ t, isSpace c = false ∧ c ≠ '_' := by
    intro c hc
    rcases List.mem_append.mp hc with hc | hc
    · exact mem_signText neg c hc
    · exact ht c hc
  have hstrip : strip (signText neg ++ t) = signText neg ++ t :=
    strip_eq fun c hc => (hmem c hc).1
  have hfilter : (signText neg ++ t).filter (· ≠ '_') = signText neg ++ t :=
    List.filter_eq_self.mpr fun c hc => by simpa using (hmem c hc).2
  have hsign : takeSign (signText neg ++ t) = (neg, t) := by
    cases neg with
    | true => rfl
    | false =>
      rw [signText, if_neg (by decide), List.nil_append]
      unfold takeSign
      split
      · exact absurd rfl (hhead '-' rfl).1
      · exact absurd rfl (hhead '+' rfl).2
      · rfl
  unfold ofText
  rw [hstrip, hfilter]
  simp only [hsign, hread]

/-- The forms of a decimal's text: digits, a point with more digits, and an exponent. -/
theorem toText_form (d : Decimal) : ∃ ip fp : List Nat, ∃ ex : Text, ∃ e : Int,
    d.toText = signText d.neg ++ (digitText ip ++ (pointText fp ++ ex)) ∧
    (∀ x ∈ ip, x < 10) ∧ (∀ x ∈ fp, x < 10) ∧ ip ≠ [] ∧ exponent? ex = some e ∧
    (ex = [] ∨ ∃ n : Int, ex = 'E' :: exponentText n) ∧ ofDigits (ip ++ fp) = d.coeff ∧
    e - fp.length = d.exp := by
  have hlt := digits_lt d
  have hvalue := ofDigits_digits d
  have hlen : 0 < d.digits.length := List.length_pos_iff.mpr (digits_ne_nil d)
  by_cases hfixed : d.exp ≤ 0 ∧ -6 < d.exp + d.digits.length
  · by_cases hleft : d.exp + d.digits.length ≤ 0
    · refine ⟨[0], zeros (-(d.exp + d.digits.length)).toNat ++ d.digits, [], 0, ?_, by simp, ?_,
        by simp, rfl, .inl rfl, ?_, ?_⟩
      · have hne : zeros (-(d.exp + d.digits.length)).toNat ++ d.digits ≠ [] := by
          simp [digits_ne_nil d]
        unfold toText pointText
        simp only [if_pos hfixed, if_pos hleft, if_neg hne, List.append_nil]
        rfl
      · intro x hx
        rcases List.mem_append.mp hx with hx | hx
        · exact mem_zeros hx
        · exact hlt x hx
      · have hzero : ofDigits [0] = 0 := rfl
        unfold zeros
        rw [ofDigits_append, ofDigits_append, hzero, ofDigits_replicate_zero, hvalue]
        omega
      · unfold zeros
        rw [List.length_append, List.length_replicate]
        omega
    · by_cases hmid : d.exp + d.digits.length < d.digits.length
      · refine ⟨d.digits.take (d.exp + d.digits.length).toNat,
          d.digits.drop (d.exp + d.digits.length).toNat, [], 0, ?_,
          fun x hx => hlt x (List.mem_of_mem_take hx), fun x hx => hlt x (List.mem_of_mem_drop hx),
          ?_, rfl, .inl rfl, by rw [List.take_append_drop, hvalue], ?_⟩
        · have hne : d.digits.drop (d.exp + d.digits.length).toNat ≠ [] := by
            rw [ne_eq, List.drop_eq_nil_iff]
            omega
          unfold toText pointText
          simp only [if_pos hfixed, if_neg hleft, if_pos hmid, if_neg hne, List.append_nil]
        · rw [ne_eq, List.take_eq_nil_iff]
          exact fun h => h.elim (by omega) (digits_ne_nil d)
        · rw [List.length_drop]
          omega
      · refine ⟨d.digits, [], [], 0, ?_, hlt, by simp, digits_ne_nil d, rfl, .inl rfl,
          by rw [List.append_nil, hvalue], ?_⟩
        · unfold toText pointText
          simp only [if_pos hfixed, if_neg hleft, if_neg hmid, if_true, List.append_nil]
        · rw [List.length_nil]
          omega
  · obtain ⟨x, xs, hds⟩ := List.exists_cons_of_ne_nil (digits_ne_nil d)
    have hexp : ∀ n : Int, exponent? ('E' :: exponentText n) = some n := by
      intro n
      unfold exponentText
      by_cases hn : n = 0
      · rw [hn]
        rfl
      · rw [if_neg hn]
        have hne : n.natAbs ≠ 0 := Int.natAbs_ne_zero.mpr hn
        refine exponent?_signed (.inr rfl) n (fun y hy => ?_)
          (List.reverse_ne_nil_iff.mpr (Nat.digits_ne_nil_iff_ne_zero.mpr hne))
          (F64.ofDigits_digits _)
        exact Nat.digits_lt_base (by decide) (List.mem_reverse.mp hy)
    refine ⟨[x], xs, 'E' :: exponentText (d.exp + d.digits.length - 1), _, ?_,
      fun y hy => hlt y (by rw [hds]; simpa using .inl (List.mem_singleton.mp hy)),
      fun y hy => hlt y (by rw [hds]; exact List.mem_cons_of_mem x hy), List.cons_ne_nil x [],
      hexp _, .inr ⟨_, rfl⟩, by rw [← hvalue, hds]; rfl, ?_⟩
    · rw [hds] at hfixed ⊢
      unfold toText pointText
      simp only [hds, if_neg hfixed]
      cases xs <;> rfl
    · rw [hds, List.length_cons]
      push_cast
      omega

/-- **`Decimal(str(d))` is `d`.** -/
theorem ofText_toText (d : Decimal) : ofText d.toText = .ok d := by
  obtain ⟨ip, fp, ex, e, htext, hi, hf, hne, hex, hform, hcoeff, hexp⟩ := toText_form d
  have hplain : ∀ c ∈ ex, isSpace c = false ∧ c ≠ '_' := by
    rcases hform with rfl | ⟨n, rfl⟩
    · exact fun c hc => absurd hc List.not_mem_nil
    · intro c hc
      rcases List.mem_cons.mp hc with rfl | hc
      · decide
      · rcases List.mem_cons.mp hc with rfl | hc
        · split <;> decide
        · refine ⟨(mem_digitText (fun y hy => ?_) hc).1, (mem_digitText (fun y hy => ?_) hc).2.1⟩
          all_goals
            split at hy
            · rw [List.mem_singleton.mp hy]
              decide
            · exact Nat.digits_lt_base (by decide) (List.mem_reverse.mp hy)
  have hhead : ∀ c ∈ ex.head?, digit? c = none ∧ c ≠ '.' := by
    rcases hform with rfl | ⟨n, rfl⟩
    · simp
    · simp
      decide
  have hread := unsigned?_literal d.neg hi hf hne hex hhead
  rw [hcoeff, hexp] at hread
  obtain ⟨x, xs, hip⟩ := List.exists_cons_of_ne_nil hne
  rw [htext]
  refine ofText_unsigned (fun c hc => ?_) (fun c hc => ?_) d.neg hread
  · rcases List.mem_append.mp hc with hc | hc
    · exact ⟨(mem_digitText hi hc).1, (mem_digitText hi hc).2.1⟩
    · rcases List.mem_append.mp hc with hc | hc
      · unfold pointText at hc
        split at hc
        · cases hc
        · rcases List.mem_cons.mp hc with rfl | hc
          · decide
          · exact ⟨(mem_digitText hf hc).1, (mem_digitText hf hc).2.1⟩
      · exact hplain c hc
  · have hx : x < 10 := hi x (by rw [hip]; exact List.mem_cons_self)
    rw [hip] at hc
    cases hc
    interval_cases x <;> decide

end Meridian.Python.Decimal
