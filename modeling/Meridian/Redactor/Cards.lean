import Mathlib.Algebra.Order.BigOperators.Group.List
import Meridian.Redactor.Rules
import Meridian.Regex.Scattered

/-!
# A card number in a token

`_mask_pan_in_value` masks each run of 13 to 19 digits that passes the checksum, at most eight
characters standing between two of them, and leaves its last four: `countP_maskPanInValue` counts
what is left. `_mask_pan_token` scans the decoded copy of a token first and the token itself only
when that shows nothing, so a token that is a card number keeps more than four digits exactly when
its decoded copy is none but has such a run in it (`digits_left_iff`).
-/

namespace Meridian.Redactor

open Python Regex Grouping

/-- The runs of digits a value is scanned for. -/
def cardRuns (v : Text) : List Text := runs maxSeparatorRun 13 19 0 (gaps decimal v)

/-- The elements of the class in a value are one card number: 13 to 19 of them, at most eight
characters apart, with a checksum. -/
structure Card (p : Char → Bool) (v : Text) : Prop where
  least : 13 ≤ (v.filter p).length
  most : (v.filter p).length ≤ 19
  checksum : luhnValid (v.filter p) = true
  near : ∀ x ∈ (gaps p v).tail, x.1 ≤ maxSeparatorRun

instance (p : Char → Bool) (v : Text) : Decidable (Card p v) :=
  decidable_of_iff (13 ≤ (v.filter p).length ∧ (v.filter p).length ≤ 19 ∧
      luhnValid (v.filter p) = true ∧ ∀ x ∈ (gaps p v).tail, x.1 ≤ maxSeparatorRun)
    ⟨fun ⟨hleast, hmost, hchecksum, hnear⟩ => ⟨hleast, hmost, hchecksum, hnear⟩,
      fun ⟨hleast, hmost, hchecksum, hnear⟩ => ⟨hleast, hmost, hchecksum, hnear⟩⟩

/-! ## One value -/

theorem bullet_not_decimal : decimal bullet = false := by decide

theorem countP_bullets (n : ℕ) : (bullets n).countP decimal = 0 := by
  rw [bullets, List.countP_replicate, bullet_not_decimal]
  rfl

theorem countP_maskWithLast4 {t : Text} (ht : ∀ c ∈ t, decimal c = true) (h : 4 < t.length) :
    (maskWithLast4 t).countP decimal = 4 := by
  have hall : (t.drop (t.length - 4)).countP decimal = (t.drop (t.length - 4)).length :=
    List.countP_eq_length.mpr fun c hc => ht c (List.mem_of_mem_drop hc)
  rw [maskWithLast4, if_neg (by omega), List.countP_append, countP_bullets, hall, List.length_drop]
  omega

/-- What is left of a run. -/
def digitsLeft (ds : Text) : ℕ :=
  if 13 ≤ ds.length ∧ ds.length ≤ 19 ∧ luhnValid ds = true then 4 else ds.length

theorem countP_redactIfPan (t : Text) :
    (redactIfPan t).countP decimal = digitsLeft (t.filter decimal) := by
  unfold redactIfPan digitsLeft digitsOf
  dsimp only
  split_ifs with h
  · have htag : panTag.countP decimal = 0 := by decide
    rw [List.countP_append, htag, countP_maskWithLast4 _ (by omega)]
    exact fun c hc => (List.mem_filter.mp hc).2
  · rw [List.countP_eq_length_filter]

theorem cardRun_eq : cardRun = scattered decimal maxSeparatorRun 13 19 := rfl

theorem length_cardRuns {v ds : Text} (h : ds ∈ cardRuns v) : 13 ≤ ds.length ∧ ds.length ≤ 19 :=
  length_of_mem_runs (by decide) h

/-- Decimal digits are digits. -/
theorem countP_decimal_le (v : Text) : v.countP decimal ≤ v.countP isDigit :=
  List.countP_mono_left fun c _ hc => by simp only [decimal] at hc; simp [isDigit, hc]

/-- The digits left in a value: the runs that pass the checksum have four each. -/
theorem countP_maskPanInValue (v : Text) :
    (maskPanInValue v).countP decimal + ((cardRuns v).map List.length).sum =
      v.countP decimal + ((cardRuns v).map digitsLeft).sum := by
  unfold maskPanInValue
  split_ifs with hfew
  · have hnone : cardRuns v = [] := by
      by_contra hne
      obtain ⟨ds, hds⟩ := List.exists_mem_of_ne_nil _ hne
      have hle : ds.length ≤ v.countP decimal := by
        rw [← length_gaps]
        exact length_le_of_mem_runs hds
      have := (length_cardRuns hds).1
      have := countP_decimal_le v
      omega
    simp [hnone]
  · rw [cardRun_eq]
    exact countP_sub_scattered (by decide : 1 ≤ 13) (by decide : 13 ≤ 19) countP_redactIfPan v

theorem digitsLeft_le {ds : Text} : digitsLeft ds ≤ ds.length := by
  unfold digitsLeft
  split_ifs <;> omega

theorem digitsLeft_of_valid {ds : Text} (hlength : 13 ≤ ds.length ∧ ds.length ≤ 19)
    (h : luhnValid ds = true) : digitsLeft ds = 4 := if_pos ⟨hlength.1, hlength.2, h⟩

theorem digitsLeft_of_not {ds : Text} (h : luhnValid ds ≠ true) : digitsLeft ds = ds.length :=
  if_neg fun hv => h hv.2.2

theorem redactIfPan_eq_or_lt (t : Text) :
    redactIfPan t = t ∨ (redactIfPan t).countP decimal < t.countP decimal := by
  by_cases h : 13 ≤ (digitsOf t).length ∧ (digitsOf t).length ≤ 19 ∧ luhnValid (digitsOf t) = true
  · have hleft : digitsLeft (t.filter decimal) = 4 := digitsLeft_of_valid ⟨h.1, h.2.1⟩ h.2.2
    refine .inr ?_
    rw [countP_redactIfPan, hleft, List.countP_eq_length_filter]
    exact (by decide : 4 < 13).trans_le h.1
  · exact .inl (if_neg h)

theorem maskPanInValue_eq_or_lt (v : Text) :
    maskPanInValue v = v ∨ (maskPanInValue v).countP decimal < v.countP decimal := by
  unfold maskPanInValue
  split_ifs
  · exact .inl rfl
  · exact sub_eq_or_lt fun m _ => redactIfPan_eq_or_lt m.text

/-- A value is changed exactly when one of its runs passes the checksum. -/
theorem maskPanInValue_ne_iff (v : Text) :
    maskPanInValue v ≠ v ↔ ∃ ds ∈ cardRuns v, luhnValid ds = true := by
  have hcount := countP_maskPanInValue v
  constructor
  · intro hne
    have hlt := (maskPanInValue_eq_or_lt v).resolve_left hne
    by_contra hnone
    have hleft : (cardRuns v).map digitsLeft = (cardRuns v).map List.length :=
      List.map_congr_left fun ds hds => digitsLeft_of_not fun h => hnone ⟨ds, hds, h⟩
    rw [hleft] at hcount
    omega
  · rintro ⟨ds, hds, hvalid⟩ heq
    obtain ⟨cs, es, hruns⟩ := List.append_of_mem hds
    have hle : ∀ l : List Text, (l.map digitsLeft).sum ≤ (l.map List.length).sum :=
      fun l => List.sum_le_sum fun _ _ => digitsLeft_le
    have hlength := length_cardRuns hds
    rw [heq, hruns] at hcount
    simp only [List.map_append, List.map_cons, List.sum_append, List.sum_cons,
      digitsLeft_of_valid hlength hvalid] at hcount
    have := hle cs
    have := hle es
    omega

/-- A card number is its one run. -/
theorem cardRuns_of_card {v : Text} (h : Card decimal v) : cardRuns v = [v.filter decimal] := by
  obtain ⟨hleast, hmost, -, hnear⟩ := h
  have hmap : (gaps decimal v).map Prod.snd = v.filter decimal := map_gapsFrom _ _ _
  have hlength : (gaps decimal v).length = (v.filter decimal).length := by
    rw [← hmap, List.length_map]
  rw [← hmap, cardRuns]
  cases hgaps : gaps decimal v with
  | nil =>
    rw [hgaps, List.length_nil] at hlength
    omega
  | cons x xs =>
    rw [hgaps] at hlength hnear
    exact runs_eq_whole (by omega) (by omega) hnear

/-- **A value keeps at most four digits**, when it has more, exactly when it is one card number. -/
theorem maskPanInValue_le_four {v : Text} (h : 4 < v.countP decimal) :
    (maskPanInValue v).countP decimal ≤ 4 ↔ Card decimal v := by
  have hcount := countP_maskPanInValue v
  constructor
  · intro hfour
    have hsum : ((cardRuns v).map List.length).sum ≤ v.countP decimal := by
      rw [← length_gaps]
      exact sum_runs_le _ _ _ _
    -- two runs would leave eight digits, and so would a run beside another digit
    cases hruns : cardRuns v with
    | nil =>
      simp only [hruns, List.map_nil, List.sum_nil] at hcount
      omega
    | cons ds rest =>
      have hleft : ∀ es ∈ ds :: rest, 4 ≤ digitsLeft es := by
        intro es hes
        have hlength := length_cardRuns (hruns ▸ hes)
        unfold digitsLeft
        split_ifs <;> omega
      rw [hruns] at hcount hsum
      simp only [List.map_cons, List.sum_cons] at hcount hsum
      have hds := hleft ds List.mem_cons_self
      have hmem : ds ∈ cardRuns v := by
        rw [hruns]
        exact List.mem_cons_self
      have hlength := length_cardRuns hmem
      cases rest with
      | cons es rest =>
        have hes := hleft es (by simp)
        simp only [List.map_cons, List.sum_cons] at hcount hsum
        omega
      | nil =>
        simp only [List.map_nil, List.sum_nil, Nat.add_zero] at hcount hsum
        have hvalid : luhnValid ds = true := by
          by_contra hnot
          rw [digitsLeft_of_not hnot] at hcount
          omega
        rw [digitsLeft_of_valid hlength hvalid] at hcount
        obtain ⟨hwhole, -, hnear⟩ := whole_of_runs_eq (c := ds) hruns (by rw [length_gaps]; omega)
        have hfilter : ds = v.filter decimal := hwhole.trans (map_gapsFrom _ _ _)
        rw [hfilter] at hlength hvalid
        exact ⟨hlength.1, hlength.2, hvalid, hnear⟩
  · intro hcard
    rw [cardRuns_of_card hcard] at hcount
    have hlength : (v.filter decimal).length = v.countP decimal :=
      (List.countP_eq_length_filter ..).symm
    simp only [List.map_cons, List.map_nil, List.sum_cons, List.sum_nil,
      digitsLeft_of_valid ⟨hcard.least, hcard.most⟩ hcard.checksum] at hcount
    omega

/-! ## One token -/

/-- The two digits of an escape. -/
theorem of_mem_percentEscape {t : Text} {m : Hit Char} (h : .hit m ∈ scan percentEscape t) :
    ∃ a b, m.text = ['%', a, b] ∧ m.get 1 = [a, b] := by
  obtain ⟨s, e, -, he, hw, -, hg⟩ := of_mem_scan h
  simp only [percentEscape, seq, List.foldr, mem_cat, mem_empty] at he
  obtain ⟨u, hu, v, hv, rfl⟩ := he
  obtain ⟨c, rest, hs, hc, rfl⟩ := mem_one.mp hu
  obtain ⟨x, w, hx, hxw, hvw, hget, -⟩ := of_mem_group hv
  obtain ⟨w', hw', -, -, hleast, hmost⟩ := mem_rep_one hx
  have hlength := hmost 2 rfl
  have hc : c = '%' := by simpa using hc
  have hfirst : Leads s ⟨some c, rest, s.groups⟩ [c] := ⟨hs, by simp⟩
  have htext : m.text = [c] ++ w := by rw [← hw.since, (hfirst.trans hvw).since]
  have hsame : w' = w := by rw [← hw'.since, hxw.since]
  rw [hsame] at hleast hlength
  obtain ⟨a, b, rfl⟩ := List.length_eq_two.mp (le_antisymm hlength hleast)
  refine ⟨a, b, by rw [htext, hc]; rfl, ?_⟩
  have hgroup : m.groups.lookup 1 = some [a, b] := by
    rw [hg]
    exact hget
  rw [Hit.get, hgroup]
  rfl

/-- The decimal digits below 256 are the ASCII ones. -/
theorem decimal_of_lt {c : Char} (hc : c.toNat < 256) (h : decimal c = true) :
    0x30 ≤ c.toNat ∧ c.toNat ≤ 0x39 := by
  simp only [decimal, digit?, Option.isSome_map, List.find?_isSome] at h
  obtain ⟨z, hz, hin⟩ := h
  have hzero : z = 0x30 ∨ 256 ≤ z :=
    (by decide : ∀ z ∈ decimalZeros, z = 0x30 ∨ 256 ≤ z) z hz
  simp only [Bool.and_eq_true, decide_eq_true_eq] at hin
  omega

/-- A hexadecimal digit is below sixteen, and one below ten is the decimal digit. -/
theorem of_hexDigit {c : Char} {n : ℕ} (h : hexDigit? c = some n) :
    n < 16 ∧ (n < 10 → c.toNat = 0x30 + n) := by
  simp only [hexDigit?, asciiDigit, Bool.and_eq_true, decide_eq_true_eq, Char.le_def,
    UInt32.le_iff_toNat_le] at h
  have htoNat : c.toNat = c.val.toNat := rfl
  by_cases hdigit : '0'.val.toNat ≤ c.val.toNat ∧ c.val.toNat ≤ '9'.val.toNat
  · rw [if_pos hdigit] at h
    cases h
    simp at hdigit
    omega
  rw [if_neg hdigit] at h
  by_cases hupper : 'A'.val.toNat ≤ c.val.toNat ∧ c.val.toNat ≤ 'F'.val.toNat
  · rw [if_pos hupper] at h
    cases h
    simp at hupper
    omega
  rw [if_neg hupper] at h
  by_cases hlower : 'a'.val.toNat ≤ c.val.toNat ∧ c.val.toNat ≤ 'f'.val.toNat
  · rw [if_pos hlower] at h
    cases h
    simp at hlower
    omega
  · rw [if_neg hlower] at h
    cases h

theorem getD_hexDigit_lt (c : Char) : (hexDigit? c).getD 0 < 16 := by
  cases h : hexDigit? c with
  | none => simp
  | some n => exact (of_hexDigit h).1

/-- An escape spells a digit only when it is written with one. -/
theorem decimal_of_escaped {a b : Char} (h : decimal (escaped [a, b]) = true) :
    decimal a = true := by
  have ha := getD_hexDigit_lt a
  have hb := getD_hexDigit_lt b
  have hcode : (escaped [a, b]).toNat = 16 * (hexDigit? a).getD 0 + (hexDigit? b).getD 0 := by
    simp only [escaped, List.foldl_cons, List.foldl_nil, Nat.mul_zero, Nat.zero_add]
    rw [Char.ofNat, dif_pos (.inl (by omega))]
    rfl
  have hascii := decimal_of_lt (by omega) h
  have hthree : (hexDigit? a).getD 0 = 3 := by omega
  cases hdigit : hexDigit? a with
  | none => simp [hdigit] at hthree
  | some n =>
    rw [hdigit, Option.getD_some] at hthree
    have hchar : a = digitChar 3 := by
      have := (of_hexDigit hdigit).2 (by omega)
      exact Char.ext (UInt32.toNat_inj.mp (this.trans (by rw [hthree]; rfl)))
    rw [hchar]
    rfl

/-- An escape spells no more digits than it is written with. -/
theorem countP_percentDecode_le (t : Text) :
    (percentDecode t).countP decimal ≤ t.countP decimal := by
  refine countP_sub_le fun m hm => ?_
  obtain ⟨a, b, htext, hgroup⟩ := of_mem_percentEscape hm
  rw [htext, hgroup]
  by_cases hd : decimal (escaped [a, b]) = true
  · simp [hd, decimal_of_escaped hd]
  · rw [List.countP_singleton, if_neg hd]
    exact Nat.zero_le _

theorem Card.lt_countP {v : Text} (h : Card asciiDigit v) : 4 < v.countP decimal := by
  have hle : v.countP asciiDigit ≤ v.countP decimal :=
    List.countP_mono_left fun _ _ => decimal_of_asciiDigit
  have := h.least
  rw [← List.countP_eq_length_filter] at this
  omega

theorem maskPanInValue_of_few {v : Text} (h : v.countP decimal < 13) : maskPanInValue v = v := by
  by_contra hne
  obtain ⟨ds, hds, -⟩ := (maskPanInValue_ne_iff v).mp hne
  have hle : ds.length ≤ v.countP decimal := by
    rw [← length_gaps]
    exact length_le_of_mem_runs hds
  have := (length_cardRuns hds).1
  omega

/-- **What a token keeps.** A card number, read raw or decoded, keeps at most four digits exactly
when its decoded copy is one card number to the scan, or when the token is and no run of the decoded
copy passes the checksum. A token with few digits is left as it is. -/
theorem digits_left_iff (token : Text) :
    (Card asciiDigit token ∨ Card asciiDigit (percentDecode token) →
      ((maskPanToken token).countP decimal ≤ 4 ↔
        Card decimal (percentDecode token) ∨
          Card decimal token ∧ ∀ ds ∈ cardRuns (percentDecode token), luhnValid ds = false)) ∧
    (token.countP decimal < 13 → (percentDecode token).countP decimal < 13 →
      maskPanToken token = token) := by
  refine ⟨fun hcard => ?_, fun hraw hdecoded => ?_⟩
  · have hdecode := countP_percentDecode_le token
    have hmany : 4 < token.countP decimal := by
      rcases hcard with hcard | hcard
      · exact hcard.lt_countP
      · have := hcard.lt_countP
        omega
    by_cases hvalid : ∃ ds ∈ cardRuns (percentDecode token), luhnValid ds = true
    · have hruns : ¬∀ ds ∈ cardRuns (percentDecode token), luhnValid ds = false := by
        obtain ⟨ds, hds, hds'⟩ := hvalid
        exact fun h => Bool.false_ne_true ((h ds hds).symm.trans hds')
      have hmasked := (maskPanInValue_ne_iff _).mpr hvalid
      -- decoded or not, it is the decoded copy that is masked
      have htoken : maskPanToken token = maskPanInValue (percentDecode token) := by
        unfold maskPanToken
        by_cases hsame : percentDecode token = token
        · simp [hsame]
        · exact if_pos ⟨hsame, hmasked⟩
      obtain ⟨ds, hds, -⟩ := hvalid
      have hle : ds.length ≤ (percentDecode token).countP decimal := by
        rw [← length_gaps]
        exact length_le_of_mem_runs hds
      have hlength := (length_cardRuns hds).1
      rw [htoken, maskPanInValue_le_four (by omega)]
      exact ⟨.inl, fun h => h.resolve_right fun h => hruns h.2⟩
    · have hruns : ∀ ds ∈ cardRuns (percentDecode token), luhnValid ds = false := by
        intro ds hds
        by_contra hds'
        exact hvalid ⟨ds, hds, Bool.not_eq_false _ ▸ hds'⟩
      have hnot : ¬Card decimal (percentDecode token) := by
        intro h
        refine hvalid ⟨_, ?_, h.checksum⟩
        rw [cardRuns_of_card h]
        exact List.mem_singleton_self _
      have htoken : maskPanToken token = maskPanInValue token :=
        if_neg fun h => hvalid ((maskPanInValue_ne_iff _).mp h.2)
      rw [htoken, maskPanInValue_le_four hmany]
      exact ⟨fun h => .inr ⟨h, hruns⟩, fun h => (h.resolve_left hnot).1⟩
  · unfold maskPanToken
    dsimp only
    rw [maskPanInValue_of_few hdecoded, maskPanInValue_of_few hraw]
    simp

/-- A test card number. -/
theorem test_card_keeps_four :
    (maskPanToken "4111111111111111".toList).countP decimal ≤ 4 ∧
      maskPanToken "no".toList = "no".toList :=
  ⟨((digits_left_iff "4111111111111111".toList).1 (.inl (by decide +kernel))).mpr
      (.inl (by decide +kernel)),
    (digits_left_iff "no".toList).2 (by decide +kernel) (by decide +kernel)⟩

/-- **A valid run by chance.** Raw, this token is one card number of 19 digits. Decoded, its first
13 digits pass the checksum by themselves and the blank sets the last four apart, so that the
decoded copy is masked and eight digits are left. -/
theorem eight_digits_left :
    ∃ token, (∀ c ∈ token, tokenDelimiter c = false) ∧ Card asciiDigit token ∧
      (maskPanToken token).countP decimal = 8 :=
  ⟨"4222222222222xxxx%20xxxx0006".toList, forall_of_all (by decide +kernel), by decide +kernel,
    by decide +kernel⟩

end Meridian.Redactor
