import Meridian.Python.JsonText

/-!
# Strings, numbers and literals of a JSON text

A scanner that succeeds leaves a proper suffix (`Shrinks`), and what follows a value changes
nothing but that suffix (`Local`), as long as the value was delimited: a number goes on as far as
its characters do, and a string and a literal end by themselves.
-/

namespace Meridian.Python.Json

/-! ## Suffixes -/

theorem skipBlanks_append {t : Text} (h : skipBlanks t ≠ []) (s : Text) :
    skipBlanks (t ++ s) = skipBlanks t ++ s := by
  unfold skipBlanks at *
  induction t with
  | nil => simp at h
  | cons c t ih =>
    by_cases hc : isBlank c = true
    · simp only [List.cons_append, List.dropWhile_cons, hc, if_true] at h ⊢
      exact ih h
    · simp [hc]

theorem skipBlanks_length (t : Text) : (skipBlanks t).length ≤ t.length :=
  (List.dropWhile_suffix _).length_le

/-- A character that ends a number. -/
def isDelimiter (c : Char) : Bool := isBlank c || c = ',' || c = '}' || c = ']'

/-- The text starts with a character that ends a number. -/
def Delimited (t : Text) : Prop := ∃ c u, t = c :: u ∧ isDelimiter c = true

/-- What follows a delimited value is left as it is. -/
def Local {α : Type} (scan : Scan α) : Prop :=
  ∀ t a r, scan t = .ok (a, r) → Delimited r → ∀ s, scan (t ++ s) = .ok (a, r ++ s)

/-- A value has at least one character. -/
def Shrinks {α : Type} (scan : Scan α) : Prop :=
  ∀ t a r, scan t = .ok (a, r) → r.length < t.length

theorem delimited_of_skipBlanks {t : Text} {c : Char} {u : Text} (h : skipBlanks t = c :: u)
    (hc : isDelimiter c = true) : Delimited t := by
  cases t with
  | nil => simp [skipBlanks] at h
  | cons d t =>
    by_cases hd : isBlank d = true
    · exact ⟨d, t, rfl, by simp [isDelimiter, hd]⟩
    · simp only [skipBlanks, List.dropWhile_cons, hd] at h
      obtain ⟨rfl, rfl⟩ := List.cons.inj h
      exact ⟨d, t, rfl, hc⟩

/-! ## Strings -/

theorem scanPieces_quote (t : Text) : scanPieces ('"' :: t) = .ok ([], t) := by
  rw [scanPieces.eq_def]
  rfl

theorem scanPieces_unit {a b c d f : Char} {n : ℕ} (h : unit? a b c d = some n) (t : Text) :
    scanPieces ('\\' :: 'u' :: a :: b :: c :: d :: f :: t) =
      (scanPieces (f :: t)).map fun r => (.unit n :: r.1, r.2) := by
  rw [scanPieces.eq_def]
  simp [h]

theorem scanPieces_escaped {e x : Char} (he : e ≠ 'u') (h : escaped? e = some x) (t : Text) :
    scanPieces ('\\' :: e :: t) = (scanPieces t).map fun r => (.char x :: r.1, r.2) := by
  rw [scanPieces.eq_def]
  simp [he, h]

theorem scanPieces_char {c : Char} (hq : c ≠ '"') (hb : c ≠ '\\') (hc : ¬c.toNat < 0x20)
    (t : Text) : scanPieces (c :: t) = (scanPieces t).map fun r => (.char c :: r.1, r.2) := by
  rw [scanPieces.eq_def]
  simp [hq, hb, hc]

theorem scanPieces_append {t : Text} {ps : List Piece} {r : Text}
    (h : scanPieces t = .ok (ps, r)) (s : Text) : scanPieces (t ++ s) = .ok (ps, r ++ s) := by
  fun_induction scanPieces t generalizing ps r with
  | case2 t =>
    obtain ⟨rfl, rfl⟩ : [] = ps ∧ t = r := by simpa using h
    exact scanPieces_quote _
  | case4 a b c d f u n hunit hne ih =>
    obtain ⟨⟨ps', r'⟩, hrest, hr⟩ := of_map_ok h
    cases hr
    have hrest := ih hrest
    rw [List.cons_append] at hrest
    simp only [List.cons_append, scanPieces_unit hunit, hrest, Except.map]
  | case7 e u hu x hx hne ih =>
    obtain ⟨⟨ps', r'⟩, hrest, hr⟩ := of_map_ok h
    cases hr
    simp only [List.cons_append, scanPieces_escaped hu hx, ih hrest, Except.map]
  | case10 c t hq hb hc ih =>
    obtain ⟨⟨ps', r'⟩, hrest, hr⟩ := of_map_ok h
    cases hr
    simp only [List.cons_append, scanPieces_char hq hb hc, ih hrest, Except.map]
  | _ => exact nomatch h

theorem scanPieces_length {t : Text} {ps : List Piece} {r : Text}
    (h : scanPieces t = .ok (ps, r)) : r.length < t.length := by
  fun_induction scanPieces t generalizing ps r with
  | case2 t =>
    obtain ⟨rfl, rfl⟩ : [] = ps ∧ t = r := by simpa using h
    simp
  | case4 a b c d f u n hunit hne ih =>
    obtain ⟨⟨ps', r'⟩, hrest, hr⟩ := of_map_ok h
    cases hr
    have := ih hrest
    simp only [List.length_cons] at this ⊢
    omega
  | case7 e u hu x hx hne ih =>
    obtain ⟨⟨ps', r'⟩, hrest, hr⟩ := of_map_ok h
    cases hr
    have := ih hrest
    simp only [List.length_cons]
    omega
  | case10 c t hq hb hc ih =>
    obtain ⟨⟨ps', r'⟩, hrest, hr⟩ := of_map_ok h
    cases hr
    exact (ih hrest).trans (Nat.lt_succ_self _)
  | _ => exact nomatch h

theorem scanString_append {t u r : Text} (h : scanString t = .ok (u, r)) (s : Text) :
    scanString (t ++ s) = .ok (u, r ++ s) := by
  obtain ⟨⟨ps, r'⟩, hps, hr⟩ := of_map_ok h
  cases hr
  rw [scanString, scanPieces_append hps]
  rfl

theorem scanString_length : Shrinks scanString := by
  intro t u r h
  obtain ⟨⟨ps, r'⟩, hps, hr⟩ := of_map_ok h
  cases hr
  exact scanPieces_length hps

/-! ## Numbers -/

theorem digitRun_append {t : Text} (h : (digitRun t).2 ≠ []) (s : Text) :
    digitRun (t ++ s) = ((digitRun t).1, (digitRun t).2 ++ s) := by
  unfold digitRun at *
  induction t with
  | nil => simp at h
  | cons c t ih =>
    by_cases hc : isAsciiDigit c = true
    · simp only [List.dropWhile_cons, hc, if_true] at h
      have hrest := Prod.ext_iff.mp (ih h)
      simpa [hc] using hrest
    · simp [hc]

theorem digitRun_length (t : Text) : (digitRun t).2.length ≤ t.length :=
  (List.dropWhile_suffix _).length_le

theorem minus_append {t : Text} (h : t ≠ []) (s : Text) :
    minus (t ++ s) = ((minus t).1, (minus t).2 ++ s) := by
  cases t with
  | nil => exact absurd rfl h
  | cons c t =>
    by_cases hc : c = '-'
    · subst hc
      rfl
    · simp [minus, hc]

theorem minus_length (t : Text) : (minus t).2.length ≤ t.length := by
  unfold minus
  split <;> simp

theorem takeSign_append {t : Text} (h : t ≠ []) (s : Text) :
    takeSign (t ++ s) = ((takeSign t).1, (takeSign t).2 ++ s) := by
  cases t with
  | nil => exact absurd rfl h
  | cons c t =>
    by_cases hm : c = '-'
    · subst hm
      rfl
    · by_cases hp : c = '+'
      · subst hp
        rfl
      · simp [takeSign, hm, hp]

theorem takeSign_length (t : Text) : (takeSign t).2.length ≤ t.length := by
  unfold takeSign
  split <;> simp

theorem wholePart_append {t r : Text} {ds : List ℕ} (h : wholePart t = some (ds, r)) (hr : r ≠ [])
    (s : Text) : wholePart (t ++ s) = some (ds, r ++ s) := by
  cases t with
  | nil => simp [wholePart] at h
  | cons c t =>
    by_cases hz : c = '0'
    · simp only [wholePart, hz, if_true, Option.some.injEq, Prod.mk.injEq, List.cons_append] at h ⊢
      exact ⟨h.1, by rw [h.2]⟩
    · by_cases hd : isAsciiDigit c = true
      · simp only [wholePart, hz, hd, if_false, if_true, Option.some.injEq] at h
        have hrun : (digitRun (c :: t)).2 ≠ [] := by rwa [h]
        have happ := digitRun_append hrun s
        rw [h, List.cons_append] at happ
        simp [wholePart, hz, hd, happ]
      · simp [wholePart, hz, hd] at h

theorem wholePart_length {t r : Text} {ds : List ℕ} (h : wholePart t = some (ds, r)) :
    r.length < t.length := by
  cases t with
  | nil => simp [wholePart] at h
  | cons c t =>
    by_cases hz : c = '0'
    · simp only [wholePart, hz, if_true, Option.some.injEq, Prod.mk.injEq] at h
      simp [← h.2]
    · by_cases hd : isAsciiDigit c = true
      · simp only [wholePart, hz, hd, if_false, if_true, Option.some.injEq] at h
        have hrun : (digitRun (c :: t)).2 = t.dropWhile isAsciiDigit := by simp [digitRun, hd]
        rw [h] at hrun
        rw [show r = t.dropWhile isAsciiDigit from hrun]
        exact Nat.lt_succ_of_le (List.dropWhile_suffix _).length_le
      · simp [wholePart, hz, hd] at h

theorem fraction_append {t : Text} {c : Char} {u : Text} (h : (fraction t).2 = c :: u)
    (hc : c ≠ '.') (s : Text) : fraction (t ++ s) = ((fraction t).1, (fraction t).2 ++ s) := by
  cases t with
  | nil => simp [fraction] at h
  | cons a t =>
    by_cases ha : a = '.'
    · subst ha
      cases t with
      | nil =>
        simp only [fraction, List.cons.injEq] at h
        exact absurd h.1.symm hc
      | cons d t =>
        by_cases hd : isAsciiDigit d = true
        · simp only [fraction, hd, if_true] at h
          have happ := digitRun_append (t := d :: t) (by rw [h]; simp) s
          simp only [List.cons_append] at happ
          simp [fraction, hd, happ]
        · simp only [fraction, hd] at h
          exact absurd (List.cons.inj h).1.symm hc
    · simp [fraction, ha]

theorem fraction_length (t : Text) : (fraction t).2.length ≤ t.length := by
  unfold fraction
  split
  · split
    · exact (digitRun_length _).trans (by simp)
    · exact le_rfl
  · exact le_rfl

theorem exponentDigits_append {t r : Text} {e : ℤ} (h : exponentDigits t = some (e, r))
    (hr : r ≠ []) (s : Text) : exponentDigits (t ++ s) = some (e, r ++ s) := by
  have ht : t ≠ [] := by
    rintro rfl
    simp [exponentDigits, takeSign, digitRun] at h
  unfold exponentDigits at h ⊢
  rw [takeSign_append ht]
  dsimp only at h ⊢
  have hrun : (digitRun (takeSign t).2).2 ≠ [] := by
    split at h
    · simp at h
    · rename_i hds
      rw [hds]
      simp only [Option.some.injEq, Prod.mk.injEq] at h
      rwa [h.2]
  rw [digitRun_append hrun]
  split at h
  · simp at h
  · rename_i ds rest hne hds
    rw [hds]
    simp only [Option.some.injEq, Prod.mk.injEq] at h
    obtain ⟨rfl, rfl⟩ := h
    cases ds with
    | nil => exact (hne rfl).elim
    | cons d ds => rfl

theorem exponent_append {t : Text} (h : Delimited (exponent t).2) (s : Text) :
    exponent (t ++ s) = ((exponent t).1, (exponent t).2 ++ s) := by
  obtain ⟨d, v, hd, hdelim⟩ := h
  cases t with
  | nil => simp [exponent] at hd
  | cons c t =>
    by_cases hc : c = 'e' ∨ c = 'E'
    · cases he : exponentDigits t with
      | none =>
        simp only [exponent, hc, if_true, he, List.cons.injEq] at hd
        rw [← hd.1] at hdelim
        rcases hc with rfl | rfl <;> exact absurd hdelim (by decide)
      | some r =>
        simp only [exponent, hc, if_true, he] at hd
        have happ := exponentDigits_append (r := r.2) he (by rw [hd]; simp) s
        simp [exponent, hc, he, happ]
    · simp [exponent, hc]

theorem exponent_length (t : Text) : (exponent t).2.length ≤ t.length := by
  cases t with
  | nil => simp [exponent]
  | cons c t =>
    by_cases hc : c = 'e' ∨ c = 'E'
    · cases he : exponentDigits t with
      | none => simp [exponent, hc, he]
      | some r =>
        simp only [exponent, hc, if_true, he]
        unfold exponentDigits at he
        dsimp only at he
        split at he
        · simp at he
        · rename_i hds
          cases he
          have hrun := digitRun_length (takeSign t).2
          rw [hds] at hrun
          have := takeSign_length t
          simp only [List.length_cons] at hrun ⊢
          omega
    · simp [exponent, hc]

theorem not_delimited_dot (t : Text) : ¬Delimited ('.' :: t) := by
  rintro ⟨c, u, hcu, hc⟩
  obtain ⟨rfl, -⟩ := List.cons.inj hcu
  exact absurd hc (by decide)

/-- A number that was read, by its parts. -/
theorem scanNumber_ok {t r : Text} {v : Value} (h : scanNumber t = .ok (v, r)) :
    ∃ ds rest, wholePart (minus t).2 = some (ds, rest) ∧ r = (exponent (fraction rest).2).2 := by
  unfold scanNumber at h
  split at h
  · exact nomatch h
  · rename_i ds rest hwhole
    refine ⟨ds, rest, hwhole, ?_⟩
    dsimp only at h
    split at h
    · split at h
      · exact nomatch h
      · cases h
        rfl
    · cases h
      rfl

theorem scanNumber_local : Local scanNumber := by
  intro t v r h hr s
  obtain ⟨ds, rest, hwhole, rfl⟩ := scanNumber_ok h
  have hexp := exponent_append hr s
  obtain ⟨c, u, hcu⟩ : ∃ c u, (fraction rest).2 = c :: u := by
    refine List.exists_cons_of_ne_nil fun hnil => ?_
    rw [hnil] at hr
    obtain ⟨c, u, hcu, -⟩ := hr
    exact nomatch hcu
  have hc : c ≠ '.' := by
    rintro rfl
    rw [hcu] at hr
    exact not_delimited_dot u hr
  have hfrac := fraction_append hcu hc s
  have hrest : rest ≠ [] := by
    rintro rfl
    exact nomatch hcu
  have hwhole' := wholePart_append hwhole hrest s
  have ht : t ≠ [] := by
    rintro rfl
    simp [minus, wholePart] at hwhole
  unfold scanNumber at h ⊢
  rw [minus_append ht]
  dsimp only
  rw [hwhole']
  rw [hwhole] at h
  dsimp only at h ⊢
  rw [hfrac]
  dsimp only
  rw [hexp]
  dsimp only
  split_ifs at h ⊢ with hint hlong
  · cases h
    rfl
  · cases h
    rfl

theorem scanNumber_shrinks : Shrinks scanNumber := by
  intro t v r h
  obtain ⟨ds, rest, hwhole, rfl⟩ := scanNumber_ok h
  calc (exponent (fraction rest).2).2.length ≤ rest.length :=
        (exponent_length _).trans (fraction_length _)
    _ < (minus t).2.length := wholePart_length hwhole
    _ ≤ t.length := minus_length t

/-- A number starts with a digit, or with a minus and a digit. -/
theorem scanNumber_head {t r : Text} {v : Value} (h : scanNumber t = .ok (v, r)) :
    ∃ c u, (minus t).2 = c :: u ∧ isAsciiDigit c = true := by
  obtain ⟨ds, rest, hwhole, -⟩ := scanNumber_ok h
  cases ht : (minus t).2 with
  | nil =>
    rw [ht] at hwhole
    exact nomatch hwhole
  | cons c u =>
    refine ⟨c, u, rfl, ?_⟩
    rw [ht] at hwhole
    by_contra hd
    have hz : c ≠ '0' := by
      rintro rfl
      exact hd (by decide)
    simp [wholePart, hz, hd] at hwhole

/-! ## Values -/

theorem isPrefixOf?_iff {l t r : Text} : l.isPrefixOf? t = some r ↔ t = l ++ r := by
  induction l generalizing t with
  | nil => simp [List.isPrefixOf?, eq_comm]
  | cons c l ih =>
    cases t with
    | nil => simp [List.isPrefixOf?]
    | cons d t =>
      by_cases hcd : c = d
      · simp [List.isPrefixOf?, hcd, ih]
      · simp [List.isPrefixOf?, hcd, Ne.symm hcd]

/-- No two literals start alike, so what is read is the one the text starts with. -/
theorem literal_iff {t r : Text} {v : Value} :
    literal? t = some (v, r) ↔ ∃ l ∈ literals, l.2 = v ∧ t = l.1 ++ r := by
  constructor
  · intro h
    obtain ⟨l, hl, hmap⟩ := List.exists_of_findSome?_eq_some h
    obtain ⟨u, hu, huv⟩ := Option.map_eq_some_iff.mp hmap
    cases huv
    exact ⟨l, hl, rfl, isPrefixOf?_iff.mp hu⟩
  · rintro ⟨l, hl, rfl, rfl⟩
    simp only [literals, List.mem_cons, List.not_mem_nil, or_false] at hl
    rcases hl with rfl | rfl | rfl | rfl | rfl | rfl <;> rfl

theorem literal_append {t r : Text} {v : Value} (h : literal? t = some (v, r)) (s : Text) :
    literal? (t ++ s) = some (v, r ++ s) := by
  obtain ⟨l, hl, hv, rfl⟩ := literal_iff.mp h
  exact literal_iff.mpr ⟨l, hl, hv, List.append_assoc _ _ _⟩

theorem literal_length {t r : Text} {v : Value} (h : literal? t = some (v, r)) :
    r.length < t.length := by
  obtain ⟨l, hl, -, rfl⟩ := literal_iff.mp h
  have hpos : ∀ l ∈ literals, 0 < l.1.length := by decide
  have := hpos l hl
  rw [List.length_append]
  omega

theorem literals_head : ∀ l ∈ literals,
    ∃ c u, (minus l.1).2 = c :: u ∧ isAsciiDigit c = false ∧ l.1 ≠ [] := by
  simp only [literals, List.forall_mem_cons]
  exact ⟨⟨'n', _, rfl, rfl, nofun⟩, ⟨'t', _, rfl, rfl, nofun⟩, ⟨'f', _, rfl, rfl, nofun⟩,
    ⟨'N', _, rfl, rfl, nofun⟩, ⟨'I', _, rfl, rfl, nofun⟩, ⟨'I', _, rfl, rfl, nofun⟩, nofun⟩

/-- What is read as a number is no literal, whatever follows it. -/
theorem literal_of_number {t r : Text} {v : Value} (h : scanNumber t = .ok (v, r)) (s : Text) :
    literal? (t ++ s) = none := by
  obtain ⟨c, u, hcu, hc⟩ := scanNumber_head h
  have ht : t ≠ [] := by
    rintro rfl
    exact nomatch hcu
  rw [Option.eq_none_iff_forall_not_mem]
  rintro ⟨w, q⟩ hw
  obtain ⟨l, hl, -, hts⟩ := literal_iff.mp hw
  obtain ⟨d, x, hdx, hd, hne⟩ := literals_head l hl
  have hminus := congrArg (fun t => (minus t).2) hts
  rw [minus_append ht, minus_append hne, hcu, hdx] at hminus
  obtain ⟨rfl, -⟩ := List.cons.inj hminus
  exact absurd hc (by rw [hd]; exact Bool.false_ne_true)

end Meridian.Python.Json
