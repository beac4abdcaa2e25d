import Meridian.Python.JsonTokens
import Meridian.Python.RoundTrip

/-!
# The tokens `json.dumps` writes

Each is read back by the scanner of its kind, whatever stops it: a string (`scanString_quoted`), an
integer (`scanNumber_intText`) and a finite float (`scanNumber_repr`).
-/

namespace Meridian.Python.Json

open F64

/-- A text that ends a token: it is over, or goes on with a delimiter. -/
def Stops (t : Text) : Prop := ∀ c ∈ t.head?, isDelimiter c = true

theorem stops_nil : Stops [] := fun _ h => nomatch h

theorem stops_cons {c : Char} (h : isDelimiter c = true) (t : Text) : Stops (c :: t) :=
  fun _ hd => Option.some.inj hd ▸ h

/-! ## Strings -/

theorem hex?_hexDigit {n : ℕ} (h : n < 16) : hex? (Item.hexDigit n) = some n := by
  interval_cases n <;> rfl

theorem unit?_hexDigits {n : ℕ} (h : n < 0x10000) :
    unit? (Item.hexDigit (n / 4096 % 16)) (Item.hexDigit (n / 256 % 16))
      (Item.hexDigit (n / 16 % 16)) (Item.hexDigit (n % 16)) = some n := by
  have hvalue : 0x1000 * (n / 4096 % 16) + 0x100 * (n / 256 % 16) + 0x10 * (n / 16 % 16) +
      n % 16 = n := by omega
  have hmod : ∀ m : ℕ, m % 16 < 16 := fun m => Nat.mod_lt m (by decide)
  simp [unit?, hex?_hexDigit (hmod _), hvalue]

/-- What a character of a string literal is: an escape of its own, a control character's escaped
unit, or the character. -/
theorem escapeRaw_cases (c : Char) :
    (∃ e, e ≠ 'u' ∧ escaped? e = some c ∧ escapeRaw c = ['\\', e]) ∨
      (c.toNat < 0x20 ∧ escapeRaw c = Item.unit c.toNat) ∨
      (c ≠ '"' ∧ c ≠ '\\' ∧ ¬c.toNat < 0x20 ∧ escapeRaw c = [c]) := by
  by_cases hplain : c = '"' ∨ c = '\\' ∨ c.toNat < 0x20
  · rw [escapeRaw, if_pos hplain, Item.escape]
    by_cases hq : c = '"'
    · exact .inl ⟨'"', by decide, by rw [hq]; rfl, if_pos hq⟩
    by_cases hb : c = '\\'
    · exact .inl ⟨'\\', by decide, by rw [hb]; rfl, by rw [if_neg hq, if_pos hb]⟩
    have hc := (hplain.resolve_left hq).resolve_left hb
    have heq : ∀ n, c.toNat = n → c = Char.ofNat n := fun n hn => hn ▸ (Char.ofNat_toNat c).symm
    rw [if_neg hq, if_neg hb]
    by_cases hn : c = '\n'
    · exact .inl ⟨'n', by decide, by rw [hn]; rfl, if_pos hn⟩
    by_cases hr : c = '\r'
    · exact .inl ⟨'r', by decide, by rw [hr]; rfl, by rw [if_neg hn, if_pos hr]⟩
    by_cases ht : c = '\t'
    · exact .inl ⟨'t', by decide, by rw [ht]; rfl, by rw [if_neg hn, if_neg hr, if_pos ht]⟩
    rw [if_neg hn, if_neg hr, if_neg ht]
    by_cases h8 : c.toNat = 0x8
    · exact .inl ⟨'b', by decide, by rw [heq _ h8]; rfl, if_pos h8⟩
    by_cases hf : c.toNat = 0xc
    · exact .inl ⟨'f', by decide, by rw [heq _ hf]; rfl, by rw [if_neg h8, if_pos hf]⟩
    refine .inr (.inl ⟨hc, ?_⟩)
    rw [if_neg h8, if_neg hf, if_neg (by omega), if_pos (by omega)]
  · obtain ⟨hq, hrest⟩ := not_or.mp hplain
    obtain ⟨hb, hc⟩ := not_or.mp hrest
    exact .inr (.inr ⟨hq, hb, hc, if_neg hplain⟩)

/-- The piece a character comes back as: itself, or its unit. -/
def PieceOf (p : Piece) (c : Char) : Prop := p = .char c ∨ (p = .unit c.toNat ∧ c.toNat < 0x20)

theorem scanPieces_escapeRaw (c d : Char) (t : Text) : ∃ p, PieceOf p c ∧
    scanPieces (escapeRaw c ++ d :: t) = (scanPieces (d :: t)).map fun r => (p :: r.1, r.2) := by
  rcases escapeRaw_cases c with ⟨e, he, hc, h⟩ | ⟨hc, h⟩ | ⟨hq, hb, hc, h⟩
  · exact ⟨.char c, .inl rfl, by rw [h]; exact scanPieces_escaped he hc _⟩
  · refine ⟨.unit c.toNat, .inr ⟨rfl, hc⟩, ?_⟩
    rw [h]
    exact scanPieces_unit (unit?_hexDigits (by omega)) t
  · exact ⟨.char c, .inl rfl, by rw [h]; exact scanPieces_char hq hb hc _⟩

theorem scanPieces_quoted (t s : Text) :
    ∃ ps, List.Forall₂ PieceOf ps t ∧ scanPieces (t.flatMap escapeRaw ++ '"' :: s) = .ok (ps, s) := by
  induction t with
  | nil => exact ⟨[], .nil, scanPieces_quote s⟩
  | cons c t ih =>
    obtain ⟨ps, hps, hscan⟩ := ih
    obtain ⟨d, u, hdu⟩ : ∃ d u, t.flatMap escapeRaw ++ '"' :: s = d :: u := by
      cases t.flatMap escapeRaw with
      | nil => exact ⟨_, _, rfl⟩
      | cons d u => exact ⟨_, _, rfl⟩
    obtain ⟨p, hp, hpiece⟩ := scanPieces_escapeRaw c d u
    refine ⟨p :: ps, .cons hp hps, ?_⟩
    rw [List.flatMap_cons, List.append_assoc, hdu, hpiece, ← hdu, hscan]
    rfl

theorem joinPieces_of_forall₂ {ps : List Piece} {t : Text} (h : List.Forall₂ PieceOf ps t) :
    joinPieces ps = t := by
  induction h with
  | nil => rfl
  | @cons p c ps t hp hrest ih =>
    rcases hp with rfl | ⟨rfl, hc⟩
    · rw [joinPieces, ih]
    · have hhigh : isHigh c.toNat = false := by
        rw [isHigh, Bool.and_eq_false_imp]
        exact fun h => decide_eq_false (by have := of_decide_eq_true h; omega)
      have hlow : isLow c.toNat = false := by
        rw [isLow, Bool.and_eq_false_imp]
        exact fun h => decide_eq_false (by have := of_decide_eq_true h; omega)
      have hlone : loneUnit c.toNat = c := by
        rw [loneUnit, hhigh, hlow]
        exact Char.ofNat_toNat c
      cases ps with
      | nil => rw [joinPieces, hlone, ih]; exact fun _ _ h => nomatch h
      | cons q ps =>
        cases q with
        | char d => rw [joinPieces, hlone, ih]; exact fun _ _ h => nomatch h
        | unit n => rw [joinPieces, hhigh, hlone, ih]; rfl

/-- **A string is read back.** -/
theorem scanString_quoted (t s : Text) :
    scanString (t.flatMap escapeRaw ++ '"' :: s) = .ok (t, s) := by
  obtain ⟨ps, hps, hscan⟩ := scanPieces_quoted t s
  rw [scanString, hscan, ← joinPieces_of_forall₂ hps]
  rfl

/-! ## The parts of a number -/

theorem isAsciiDigit_digitChar {d : ℕ} (h : d < 10) : isAsciiDigit (digitChar d) = true := by
  interval_cases d <;> rfl

theorem toNat_digitChar {d : ℕ} (h : d < 10) : (digitChar d).toNat - 0x30 = d := by
  interval_cases d <;> rfl

/-- The text does not go on with a digit. -/
def NoDigit (t : Text) : Prop := ∀ c ∈ t.head?, isAsciiDigit c = false

theorem digitRun_digitText {ds : List ℕ} (hds : ∀ d ∈ ds, d < 10) {t : Text} (ht : NoDigit t) :
    digitRun (digitText ds ++ t) = (ds, t) := by
  induction ds with
  | nil =>
    cases t with
    | nil => rfl
    | cons c t => simp [digitRun, digitText, ht c rfl]
  | cons d ds ih =>
    have hd := hds d List.mem_cons_self
    have hrest := Prod.ext_iff.mp (ih fun e he => hds e (List.mem_cons_of_mem d he))
    simp only [digitRun, digitText] at hrest ⊢
    simp [isAsciiDigit_digitChar hd, toNat_digitChar hd, hrest]

/-- Digits as JSON has them before a point: a zero stands alone. -/
def Leading (ds : List ℕ) : Prop := ds = [0] ∨ ∃ d es, ds = d :: es ∧ d ≠ 0

theorem digitChar_ne_zero {d : ℕ} (h : d < 10) (h0 : d ≠ 0) : digitChar d ≠ '0' := by
  interval_cases d
  · exact absurd rfl h0
  all_goals decide

theorem wholePart_digitText {ip : List ℕ} (hip : ∀ d ∈ ip, d < 10) (hlead : Leading ip) {t : Text}
    (ht : NoDigit t) : wholePart (digitText ip ++ t) = some (ip, t) := by
  rcases hlead with rfl | ⟨d, es, rfl, h0⟩
  · rfl
  · have hd := hip d List.mem_cons_self
    have hrun := digitRun_digitText hip ht
    simp only [digitText, List.map_cons, List.cons_append] at hrun ⊢
    rw [wholePart, if_neg (digitChar_ne_zero hd h0), if_pos (isAsciiDigit_digitChar hd), hrun]

theorem minus_digitText (neg : Bool) {ip : List ℕ} (hip : ∀ d ∈ ip, d < 10) (hne : ip ≠ [])
    (t : Text) : minus (signText neg ++ (digitText ip ++ t)) = (neg, digitText ip ++ t) := by
  cases neg with
  | true => rfl
  | false =>
    cases ip with
    | nil => exact absurd rfl hne
    | cons d es =>
      have hd := hip d List.mem_cons_self
      have hminus : digitChar d ≠ '-' := by interval_cases d <;> decide
      simp [signText, minus, digitText, hminus]

theorem fraction_pointText {fp : List ℕ} (hfp : ∀ d ∈ fp, d < 10) {t : Text} (ht : NoDigit t)
    (hpoint : ∀ c ∈ t.head?, c ≠ '.') :
    fraction (pointText fp ++ t) = (if fp = [] then none else some fp, t) := by
  cases fp with
  | nil =>
    rw [pointText, if_pos rfl, if_pos rfl, List.nil_append]
    unfold fraction
    split
    · exact absurd rfl (hpoint '.' rfl)
    · rfl
  | cons d es =>
    have hd := hfp d List.mem_cons_self
    have hrun := digitRun_digitText hfp ht
    simp only [digitText, List.map_cons, List.cons_append] at hrun
    simp [pointText, digitText, fraction, isAsciiDigit_digitChar hd, hrun]

theorem exponent_none {t : Text} (h : ∀ c ∈ t.head?, c ≠ 'e' ∧ c ≠ 'E') :
    exponent t = (none, t) := by
  cases t with
  | nil => rfl
  | cons c t => rw [exponent, if_neg fun hc => hc.elim (h c rfl).1 (h c rfl).2]

theorem exponent_exponentText (e : ℤ) {t : Text} (ht : NoDigit t) :
    exponent ('e' :: (exponentText e ++ t)) = (some e, t) := by
  have hrun := digitRun_digitText (exponentDigits_lt e) ht
  have hsigned : signed (decide (e < 0)) (ofDigits (F64.exponentDigits e)) = e := by
    rw [ofDigits_exponentDigits, signed]
    by_cases he : e < 0
    · rw [decide_eq_true he, if_pos rfl]
      omega
    · rw [decide_eq_false he, if_neg Bool.false_ne_true]
      omega
  have hsign : takeSign (exponentText e ++ t) =
      (decide (e < 0), digitText (F64.exponentDigits e) ++ t) := by
    by_cases he : e < 0
    · rw [decide_eq_true he, exponentText, if_pos he]
      rfl
    · rw [decide_eq_false he, exponentText, if_neg he]
      rfl
  have hdigits : exponentDigits (exponentText e ++ t) = some (e, t) := by
    rw [exponentDigits, hsign]
    dsimp only
    rw [hrun]
    cases hds : F64.exponentDigits e with
    | nil => exact absurd hds (exponentDigits_ne_nil e)
    | cons d es =>
      rw [hds] at hsigned
      exact congrArg (fun n => some (n, t)) hsigned
  rw [exponent, if_pos (.inl rfl), hdigits]

/-! ## Numbers -/

theorem Stops.noDigit {t : Text} (h : Stops t) : NoDigit t := by
  intro c hc
  by_contra hdigit
  have hdigit : isAsciiDigit c = true := by simpa using hdigit
  have hstop := h c hc
  simp only [isAsciiDigit, Bool.and_eq_true, decide_eq_true_eq] at hdigit
  simp only [isDelimiter, isBlank, Bool.or_eq_true, decide_eq_true_eq] at hstop
  rcases hstop with (((((rfl | rfl) | rfl) | rfl) | rfl) | rfl) | rfl <;>
    exact absurd hdigit (by decide)

theorem Stops.ne {t : Text} (h : Stops t) {d : Char} (hd : isDelimiter d = false) :
    ∀ c ∈ t.head?, c ≠ d := by
  rintro c hc rfl
  rw [h c hc] at hd
  exact Bool.noConfusion hd

/-- An integer is read back up to the limit on its digits. -/
theorem scanNumber_digits (neg : Bool) {ip : List ℕ} (hip : ∀ d ∈ ip, d < 10) (hlead : Leading ip)
    (hlen : ip.length ≤ maxStrDigits) {t : Text} (ht : Stops t) :
    scanNumber (signText neg ++ (digitText ip ++ t)) = .ok (.int (signed neg (ofDigits ip)), t) := by
  have hne : ip ≠ [] := by
    rcases hlead with rfl | ⟨d, es, rfl, -⟩ <;> exact List.cons_ne_nil _ _
  have hfraction : fraction t = (none, t) :=
    @fraction_pointText [] (fun _ h => nomatch h) _ ht.noDigit (ht.ne (by decide))
  have hexponent : exponent t = (none, t) :=
    exponent_none fun c hc => ⟨ht.ne (by decide) c hc, ht.ne (by decide) c hc⟩
  simp [scanNumber, minus_digitText neg hip hne, wholePart_digitText hip hlead ht.noDigit,
    hfraction, hexponent, hlen]

theorem leading_digits {n : ℕ} (hn : n ≠ 0) : Leading (Nat.digits 10 n).reverse := by
  have hne : Nat.digits 10 n ≠ [] := Nat.digits_ne_nil_iff_ne_zero.mpr hn
  refine .inr ⟨(Nat.digits 10 n).getLast hne, (Nat.digits 10 n).dropLast.reverse, ?_,
    Nat.getLast_digit_ne_zero 10 hn⟩
  conv_lhs => rw [← List.dropLast_concat_getLast hne]
  rw [List.reverse_concat]

/-- **`int`** -/
theorem scanNumber_intText {n : ℤ} (hn : (Nat.digits 10 n.natAbs).length ≤ maxStrDigits) {t : Text}
    (ht : Stops t) : scanNumber (Item.intText n ++ t) = .ok (.int n, t) := by
  by_cases h0 : n = 0
  · subst h0
    exact @scanNumber_digits false [0] (by simp) (.inl rfl) (by decide) _ ht
  · have hneg : (if n < 0 then ['-'] else []) = signText (decide (n < 0)) := by
      unfold signText
      by_cases h : n < 0
      · rw [if_pos h, decide_eq_true h, if_pos rfl]
      · rw [if_neg h, decide_eq_false h, if_neg Bool.false_ne_true]
    have hsigned : signed (decide (n < 0)) n.natAbs = n := by
      unfold signed
      by_cases h : n < 0
      · rw [decide_eq_true h, if_pos rfl]
        omega
      · rw [decide_eq_false h, if_neg Bool.false_ne_true]
        omega
    rw [Item.intText, if_neg h0, hneg, List.append_assoc]
    conv_rhs => rw [← hsigned, ← ofDigits_digits n.natAbs]
    exact scanNumber_digits _
      (fun d hd => Nat.digits_lt_base (by decide) (List.mem_reverse.mp hd))
      (leading_digits (by omega)) (by rwa [List.length_reverse]) ht

/-- A number with a point or an exponent is a float. -/
theorem scanNumber_float (neg : Bool) {ip fp : List ℕ} {ex : Text} {e : Option ℤ}
    (hip : ∀ d ∈ ip, d < 10) (hlead : Leading ip) (hfp : ∀ d ∈ fp, d < 10) {t : Text}
    (hex : exponent (ex ++ t) = (e, t)) (hhead : NoDigit (ex ++ t))
    (hpoint : ∀ c ∈ (ex ++ t).head?, c ≠ '.') (hfloat : fp ≠ [] ∨ e ≠ none) :
    scanNumber (signText neg ++ (digitText ip ++ (pointText fp ++ (ex ++ t)))) =
      .ok (.float (toFloat neg ((ofDigits (ip ++ fp) : ℕ) * 10 ^ (e.getD 0 - fp.length))), t) := by
  have hne : ip ≠ [] := by
    rcases hlead with rfl | ⟨d, es, rfl, -⟩ <;> exact List.cons_ne_nil _ _
  have hnodigit : NoDigit (pointText fp ++ (ex ++ t)) := by
    unfold pointText
    split
    · exact hhead
    · exact fun c hc => by obtain rfl := Option.some.inj hc; decide
  have hfrac : (if fp = [] then (none : Option (List ℕ)) else some fp).getD [] = fp := by
    split
    · rename_i h
      exact h.symm
    · rfl
  have hkind : ((if fp = [] then (none : Option (List ℕ)) else some fp).isNone && e.isNone) =
      false := by
    rcases hfloat with h | h
    · simp [h]
    · cases e with
      | none => exact absurd rfl h
      | some e => simp
  simp only [scanNumber, minus_digitText neg hip hne, wholePart_digitText hip hlead hnodigit,
    fraction_pointText hfp hhead hpoint, hex, hfrac, hkind]
  rfl

/-! ## Floats -/

theorem leading_trimmed {c : ℕ} (hc : 0 < c) : Leading (trimmed c) := by
  obtain ⟨es, d, hd, -⟩ := trimmed_last hc
  have hne : (Nat.digits 10 c).dropWhile (· = 0) ≠ [] := by
    intro hnil
    rw [trimmed, hnil] at hd
    exact absurd hd (by simp)
  have hlast : ((Nat.digits 10 c).dropWhile (· = 0)).getLast hne ≠ 0 := by
    rw [(List.dropWhile_suffix _).getLast hne]
    exact Nat.getLast_digit_ne_zero 10 hc.ne'
  refine .inr ⟨_, ((Nat.digits 10 c).dropWhile (· = 0)).dropLast.reverse, ?_, hlast⟩
  conv_lhs => rw [trimmed, ← List.dropLast_concat_getLast hne]
  rw [List.reverse_concat]

theorem leading_append {ds : List ℕ} (h : ds ≠ [0]) (hds : Leading ds) (es : List ℕ) :
    Leading (ds ++ es) := by
  obtain ⟨d, ds, rfl, hd⟩ := hds.resolve_left h
  exact .inr ⟨d, ds ++ es, rfl, hd⟩

variable {f : F64}

/-- The digits of a float have no leading zero, but for the float zero. -/
theorem leading_floatDigits (f : F64) :
    (f.mant = 0 ∧ f.digits = ([0], 1)) ∨ (f.digits.1 ≠ [0] ∧ Leading f.digits.1) := by
  by_cases h : f.mant = 0
  · exact .inl ⟨h, by rw [F64.digits, if_pos h]⟩
  · obtain ⟨c, n, h1, hn, hc, hread, hx⟩ := shortest_spec h
    have hpos := pos_of_readsBack h hread
    rw [F64.digits, if_neg h, hx]
    refine .inr ⟨fun hzero => ?_, leading_trimmed hpos⟩
    have hvalue := ofDigits_trimmed c
    have hofzero : ofDigits [0] = 0 := rfl
    dsimp only at hzero
    rw [hzero, hofzero, Nat.zero_mul] at hvalue
    omega

theorem leading_fixedParts (f : F64) :
    Leading (fixedParts f.digits.1 f.digits.2).1 := by
  rcases leading_floatDigits f with ⟨-, hdigits⟩ | ⟨hne, hlead⟩
  · rw [hdigits]
    exact .inl rfl
  · unfold fixedParts
    split_ifs with h0 hlen
    · exact .inl rfl
    · obtain ⟨d, es, hds, hd⟩ := hlead.resolve_left hne
      obtain ⟨k, hk⟩ : ∃ k, f.digits.2.toNat = k + 1 := ⟨f.digits.2.toNat - 1, by omega⟩
      exact .inr ⟨d, es.take k, by rw [hds, hk, List.take_succ_cons], hd⟩
    · exact leading_append hne hlead _

theorem toFloat_decimal (f : F64) : toFloat f.neg f.decimal = .finite f := by
  unfold toFloat
  by_cases h : f.mant = 0
  · rw [if_pos (decimal_zero h)]
    congr 1
    ext
    · rfl
    · exact h.symm
    · have hexp : f.exp = -1074 := (f.canonical.resolve_right fun hc => by omega).2
      exact hexp.symm
  · rw [if_neg (decimal_pos h).ne', ofRat_decimal h]

/-- **A finite float is read back.** -/
theorem scanNumber_repr (f : F64) {t : Text} (ht : Stops t) :
    scanNumber (f.repr ++ t) = .ok (.float (.finite f), t) := by
  by_cases hk : Fixed f.digits.2
  · have hparts := parts_spec hk
    have hexponent : exponent ([] ++ t) = (none, t) :=
      exponent_none fun c hc => ⟨ht.ne (by decide) c hc, ht.ne (by decide) c hc⟩
    have hread := scanNumber_float f.neg hparts.int_lt (leading_fixedParts f) hparts.frac_lt
      hexponent ht.noDigit (ht.ne (by decide)) (.inl hparts.frac_ne_nil)
    rw [pointText, if_neg hparts.frac_ne_nil, List.nil_append] at hread
    rw [repr_fixed hk, fixedText, List.append_assoc, List.append_assoc]
    refine hread.trans ?_
    rw [← toFloat_decimal f, F64.decimal, ← fixedParts_value, Option.getD_none, zero_sub]
  · obtain ⟨d, es, hds, htext⟩ := scientificText_cases (digits_spec f) f.digits.2
    have hlt := (digits_spec f).lt
    rw [hds] at hlt
    have hd : d < 10 := hlt d List.mem_cons_self
    have hlead : Leading [d] := by
      rcases leading_floatDigits f with ⟨-, hzero⟩ | ⟨hne, hlead⟩
      · have hzero : d :: es = [0] := hds.symm.trans (congrArg Prod.fst hzero)
        exact .inl (by rw [(List.cons.inj hzero).1])
      · obtain ⟨d', es', hds', hd'⟩ := hlead.resolve_left hne
        rw [hds] at hds'
        exact .inr ⟨d, [], rfl, (List.cons.inj hds').1 ▸ hd'⟩
    have hread := @scanNumber_float f.neg [d] es ('e' :: exponentText (f.digits.2 - 1)) _
      (fun e he => by rw [List.mem_singleton.mp he]; exact hd) hlead
      (fun e he => hlt e (List.mem_cons_of_mem d he)) _
      (exponent_exponentText (f.digits.2 - 1) ht.noDigit)
      (fun c hc => by obtain rfl := Option.some.inj hc; decide)
      (fun c hc => by obtain rfl := Option.some.inj hc; decide) (.inr (Option.some_ne_none _))
    have hlen : (some (f.digits.2 - 1)).getD 0 - (es.length : ℤ) =
        f.digits.2 - ((d :: es).length : ℤ) := by
      rw [Option.getD_some, List.length_cons]
      push_cast
      ring
    rw [F64.repr, if_neg hk, htext]
    simp only [digitText, pointText, List.map_cons, List.map_nil, List.cons_append,
      List.nil_append, List.append_assoc] at hread ⊢
    refine hread.trans ?_
    rw [hlen, ← hds, ← toFloat_decimal f, F64.decimal]

end Meridian.Python.Json
