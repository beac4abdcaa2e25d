import Meridian.Python.JsonTokens

/-!
# A value is read from its own characters

`JsonTokens` lifted to objects and arrays, and from there to whole texts.

* `members_fuel`, `elements_fuel`: fuel beyond the length of the text changes nothing.
* `scanOnce_append`: a text that starts with an object can be followed by any other.
* `loads_padded`, `loads_surrounded`: blanks around a text that is read as an object change nothing,
  and nothing else may stand around one.
-/

namespace Meridian.Python.Json

/-! ## Objects and arrays -/

/-- One member of an object, and what is read after it. -/
theorem members_ok {scan : Scan Value} {fuel : ℕ} {read ms : List (Text × Value)} {t r : Text} :
    members scan (fuel + 1) read t = .ok (ms, r) ↔
      ∃ t₁ key t₂ t₃ v t₄, t = '"' :: t₁ ∧ scanString t₁ = .ok (key, t₂) ∧
        skipBlanks t₂ = ':' :: t₃ ∧ scan (skipBlanks t₃) = .ok (v, t₄) ∧
        ((skipBlanks t₄ = '}' :: r ∧ setItem read key v = ms) ∨
          ∃ t₅, skipBlanks t₄ = ',' :: t₅ ∧
            members scan fuel (setItem read key v) (skipBlanks t₅) = .ok (ms, r)) := by
  constructor
  · intro h
    unfold members at h
    split at h
    · rename_i t₁
      obtain ⟨⟨key, t₂⟩, hkey, h⟩ := of_bind_ok h
      dsimp only at h
      split at h
      · rename_i t₃ hcolon
        obtain ⟨⟨v, t₄⟩, hv, h⟩ := of_bind_ok h
        refine ⟨t₁, key, t₂, t₃, v, t₄, rfl, hkey, hcolon, hv, ?_⟩
        dsimp only at h
        split at h
        · rename_i t₅ hend
          cases h
          exact .inl ⟨hend, rfl⟩
        · rename_i t₅ hcomma
          exact .inr ⟨t₅, hcomma, h⟩
        · exact nomatch h
      · exact nomatch h
    · exact nomatch h
  · rintro ⟨t₁, key, t₂, t₃, v, t₄, rfl, hkey, hcolon, hv, ⟨hend, rfl⟩ | ⟨t₅, hcomma, hrest⟩⟩
    · simp [members, hkey, hcolon, hv, hend, bind, Except.bind, pure, Except.pure]
    · simp [members, hkey, hcolon, hv, hcomma, hrest, bind, Except.bind]

/-- One element of an array, and what is read after it. -/
theorem elements_ok {scan : Scan Value} {fuel : ℕ} {vs : List Value} {t r : Text} :
    elements scan (fuel + 1) t = .ok (vs, r) ↔
      ∃ v t₁, scan t = .ok (v, t₁) ∧
        ((skipBlanks t₁ = ']' :: r ∧ vs = [v]) ∨
          ∃ t₂ rest, skipBlanks t₁ = ',' :: t₂ ∧ vs = v :: rest ∧
            elements scan fuel (skipBlanks t₂) = .ok (rest, r)) := by
  constructor
  · intro h
    unfold elements at h
    obtain ⟨⟨v, t₁⟩, hv, h⟩ := of_bind_ok h
    refine ⟨v, t₁, hv, ?_⟩
    dsimp only at h
    split at h
    · rename_i t₂ hend
      cases h
      exact .inl ⟨hend, rfl⟩
    · rename_i t₂ hcomma
      obtain ⟨⟨rest, t₃⟩, hrest, h⟩ := of_bind_ok h
      cases h
      exact .inr ⟨t₂, rest, hcomma, rfl, hrest⟩
    · exact nomatch h
  · rintro ⟨v, t₁, hv, ⟨hend, rfl⟩ | ⟨t₂, rest, hcomma, rfl, hrest⟩⟩
    · simp [elements, hv, hend, bind, Except.bind, pure, Except.pure]
    · simp [elements, hv, hcomma, hrest, bind, Except.bind, pure, Except.pure]

theorem skipBlanks_append_cons {t u : Text} {c : Char} (h : skipBlanks t = c :: u) (s : Text) :
    skipBlanks (t ++ s) = c :: (u ++ s) := by
  rw [skipBlanks_append (by rw [h]; exact List.cons_ne_nil _ _), h]
  rfl

theorem ne_nil_of_shrinks {α : Type} {scan : Scan α} (hscan : Shrinks scan) {t r : Text} {a : α}
    (h : scan t = .ok (a, r)) : t ≠ [] := by
  rintro rfl
  exact absurd (hscan _ _ _ h) (Nat.not_lt_zero _)

/-- The loop of an object, with more text after it and on more fuel. -/
theorem members_append {scan : Scan Value} (hlocal : Local scan) (hshrinks : Shrinks scan)
    {fuel : ℕ} {read ms : List (Text × Value)} {t r : Text}
    (h : members scan fuel read t = .ok (ms, r)) {more : ℕ} (hmore : fuel ≤ more) (s : Text) :
    members scan more read (t ++ s) = .ok (ms, r ++ s) := by
  induction fuel generalizing read t more with
  | zero => exact nomatch h
  | succ fuel ih =>
    obtain ⟨more, rfl⟩ : ∃ m, more = m + 1 := ⟨more - 1, by omega⟩
    have hmore : fuel ≤ more := by omega
    obtain ⟨t₁, key, t₂, t₃, v, t₄, rfl, hkey, hcolon, hv, hnext⟩ := members_ok.mp h
    have hvalue := skipBlanks_append (ne_nil_of_shrinks hshrinks hv) s
    refine members_ok.mpr ⟨t₁ ++ s, key, t₂ ++ s, t₃ ++ s, v, t₄ ++ s, rfl,
      scanString_append hkey s, skipBlanks_append_cons hcolon s, ?_, ?_⟩
    · rw [hvalue]
      obtain ⟨hend, -⟩ | ⟨t₅, hcomma, -⟩ := hnext
      · exact hlocal _ _ _ hv (delimited_of_skipBlanks hend rfl) s
      · exact hlocal _ _ _ hv (delimited_of_skipBlanks hcomma rfl) s
    · obtain ⟨hend, hms⟩ | ⟨t₅, hcomma, hrest⟩ := hnext
      · exact .inl ⟨skipBlanks_append_cons hend s, hms⟩
      · refine .inr ⟨t₅ ++ s, skipBlanks_append_cons hcomma s, ?_⟩
        have hne : skipBlanks t₅ ≠ [] := by
          intro hnil
          rw [hnil] at hrest
          cases fuel <;> exact nomatch hrest
        rw [skipBlanks_append hne]
        exact ih hrest hmore

/-- The loop of an array, with more text after it and on more fuel. -/
theorem elements_append {scan : Scan Value} (hlocal : Local scan) (hshrinks : Shrinks scan)
    {fuel : ℕ} {vs : List Value} {t r : Text} (h : elements scan fuel t = .ok (vs, r))
    {more : ℕ} (hmore : fuel ≤ more) (s : Text) :
    elements scan more (t ++ s) = .ok (vs, r ++ s) := by
  induction fuel generalizing vs t more with
  | zero => exact nomatch h
  | succ fuel ih =>
    obtain ⟨more, rfl⟩ : ∃ m, more = m + 1 := ⟨more - 1, by omega⟩
    have hmore : fuel ≤ more := by omega
    obtain ⟨v, t₁, hv, hnext⟩ := elements_ok.mp h
    refine elements_ok.mpr ⟨v, t₁ ++ s, ?_, ?_⟩
    · obtain ⟨hend, -⟩ | ⟨t₂, rest, hcomma, -, -⟩ := hnext
      · exact hlocal _ _ _ hv (delimited_of_skipBlanks hend rfl) s
      · exact hlocal _ _ _ hv (delimited_of_skipBlanks hcomma rfl) s
    · obtain ⟨hend, hvs⟩ | ⟨t₂, rest, hcomma, hvs, hrest⟩ := hnext
      · exact .inl ⟨skipBlanks_append_cons hend s, hvs⟩
      · refine .inr ⟨t₂ ++ s, rest, skipBlanks_append_cons hcomma s, hvs, ?_⟩
        have hne : skipBlanks t₂ ≠ [] := by
          intro hnil
          rw [hnil] at hrest
          cases fuel with
          | zero => exact nomatch hrest
          | succ fuel =>
            obtain ⟨w, t₃, hw, -⟩ := elements_ok.mp hrest
            exact ne_nil_of_shrinks hshrinks hw rfl
        rw [skipBlanks_append hne]
        exact ih hrest hmore

theorem members_length {scan : Scan Value} (hshrinks : Shrinks scan) {fuel : ℕ}
    {read ms : List (Text × Value)} {t r : Text} (h : members scan fuel read t = .ok (ms, r)) :
    r.length < t.length := by
  induction fuel generalizing read t with
  | zero => exact nomatch h
  | succ fuel ih =>
    obtain ⟨t₁, key, t₂, t₃, v, t₄, rfl, hkey, hcolon, hv, hnext⟩ := members_ok.mp h
    have h₂ := scanString_length _ _ _ hkey
    have h₃ := skipBlanks_length t₂
    have h₄ := hshrinks _ _ _ hv
    have h₅ := skipBlanks_length t₃
    have h₆ := skipBlanks_length t₄
    rw [hcolon] at h₃
    simp only [List.length_cons] at h₃ ⊢
    obtain ⟨hend, -⟩ | ⟨t₅, hcomma, hrest⟩ := hnext
    · rw [hend, List.length_cons] at h₆
      omega
    · have h₇ := ih hrest
      have h₈ := skipBlanks_length t₅
      rw [hcomma, List.length_cons] at h₆
      omega

theorem elements_length {scan : Scan Value} (hshrinks : Shrinks scan) {fuel : ℕ}
    {vs : List Value} {t r : Text} (h : elements scan fuel t = .ok (vs, r)) :
    r.length < t.length := by
  induction fuel generalizing vs t with
  | zero => exact nomatch h
  | succ fuel ih =>
    obtain ⟨v, t₁, hv, hnext⟩ := elements_ok.mp h
    have h₁ := hshrinks _ _ _ hv
    have h₂ := skipBlanks_length t₁
    obtain ⟨hend, -⟩ | ⟨t₂, rest, hcomma, -, hrest⟩ := hnext
    · rw [hend, List.length_cons] at h₂
      omega
    · have h₃ := ih hrest
      have h₄ := skipBlanks_length t₂
      rw [hcomma, List.length_cons] at h₂
      omega

/-- Fuel beyond the length of the text changes nothing. -/
theorem members_fuel {scan : Scan Value} (hshrinks : Shrinks scan) {n m : ℕ}
    (read : List (Text × Value)) {t : Text} (hn : t.length ≤ n) (hm : t.length ≤ m) :
    members scan n read t = members scan m read t := by
  induction n generalizing read t m with
  | zero =>
    obtain rfl := List.length_eq_zero_iff.mp (Nat.le_zero.mp hn)
    cases m <;> rfl
  | succ n ih =>
    cases m with
    | zero =>
      obtain rfl := List.length_eq_zero_iff.mp (Nat.le_zero.mp hm)
      rfl
    | succ m =>
      unfold members
      split
      · rename_i t₁
        cases hkey : scanString t₁ with
        | error e => rfl
        | ok key =>
          simp only [bind, Except.bind]
          split
          · rename_i t₃ hcolon
            cases hv : scan (skipBlanks t₃) with
            | error e => rfl
            | ok v =>
              dsimp only
              split
              · rfl
              · rename_i t₅ hcomma
                have h₂ := scanString_length _ _ _ hkey
                have h₃ := skipBlanks_length key.2
                have h₄ := hshrinks _ _ _ hv
                have h₅ := skipBlanks_length t₃
                have h₆ := skipBlanks_length v.2
                have h₇ := skipBlanks_length t₅
                rw [hcolon] at h₃
                rw [hcomma] at h₆
                simp only [List.length_cons] at h₃ h₆ hn hm
                exact ih _ (by omega) (by omega)
              · rfl
          · rfl
      · rfl

/-- Fuel beyond the length of the text changes nothing. -/
theorem elements_fuel {scan : Scan Value} (hshrinks : Shrinks scan)
    (hnil : scan [] = .error (.decode .expectingValue)) {n m : ℕ} {t : Text}
    (hn : t.length ≤ n) (hm : t.length ≤ m) : elements scan n t = elements scan m t := by
  have hempty : ∀ k, elements scan k [] = .error (.decode .expectingValue)
    | 0 => rfl
    | k + 1 => by rw [elements, hnil]; rfl
  induction n generalizing t m with
  | zero =>
    obtain rfl := List.length_eq_zero_iff.mp (Nat.le_zero.mp hn)
    rw [hempty, hempty]
  | succ n ih =>
    cases m with
    | zero =>
      obtain rfl := List.length_eq_zero_iff.mp (Nat.le_zero.mp hm)
      rw [hempty, hempty]
    | succ m =>
      unfold elements
      cases hv : scan t with
      | error e => rfl
      | ok v =>
        simp only [bind, Except.bind]
        split
        · rfl
        · rename_i t₂ hcomma
          have h₁ := hshrinks _ _ _ hv
          have h₂ := skipBlanks_length v.2
          have h₃ := skipBlanks_length t₂
          rw [hcomma, List.length_cons] at h₂
          rw [ih (m := m) (by omega) (by omega)]
        · rfl

theorem scanObject_append {scan : Scan Value} (hlocal : Local scan) (hshrinks : Shrinks scan)
    {t r : Text} {v : Value} (h : scanObject scan t = .ok (v, r)) (s : Text) :
    scanObject scan (t ++ s) = .ok (v, r ++ s) := by
  unfold scanObject at h ⊢
  split at h
  · rename_i u hu
    cases h
    rw [skipBlanks_append_cons hu]
    rfl
  · rename_i hne
    obtain ⟨⟨ms, r'⟩, hms, hr⟩ := of_map_ok h
    cases hr
    have hnil : skipBlanks t ≠ [] := by
      intro hnil
      rw [hnil] at hms
      exact nomatch hms
    have hmore : (skipBlanks t).length ≤ (skipBlanks t ++ s).length := by simp
    have happ := members_append hlocal hshrinks hms hmore s
    rw [skipBlanks_append hnil]
    split
    · rename_i u hu
      obtain ⟨c, w, hcw⟩ := List.exists_cons_of_ne_nil hnil
      rw [hcw] at hu
      obtain ⟨rfl, -⟩ := List.cons.inj hu
      exact absurd hcw (hne w)
    · rw [happ]
      rfl

theorem scanArray_append {scan : Scan Value} (hlocal : Local scan) (hshrinks : Shrinks scan)
    {t r : Text} {v : Value} (h : scanArray scan t = .ok (v, r)) (s : Text) :
    scanArray scan (t ++ s) = .ok (v, r ++ s) := by
  unfold scanArray at h ⊢
  split at h
  · rename_i u hu
    cases h
    rw [skipBlanks_append_cons hu]
    rfl
  · rename_i hne
    obtain ⟨⟨vs, r'⟩, hvs, hr⟩ := of_map_ok h
    cases hr
    have hnil : skipBlanks t ≠ [] := by
      intro hnil
      rw [hnil] at hvs
      exact nomatch hvs
    have hmore : (skipBlanks t).length ≤ (skipBlanks t ++ s).length := by simp
    have happ := elements_append hlocal hshrinks hvs hmore s
    rw [skipBlanks_append hnil]
    split
    · rename_i u hu
      obtain ⟨c, w, hcw⟩ := List.exists_cons_of_ne_nil hnil
      rw [hcw] at hu
      obtain ⟨rfl, -⟩ := List.cons.inj hu
      exact absurd hcw (hne w)
    · rw [happ]
      rfl

theorem scanObject_shrinks {scan : Scan Value} (hshrinks : Shrinks scan) :
    Shrinks (scanObject scan) := by
  intro t v r h
  have hle := skipBlanks_length t
  unfold scanObject at h
  split at h
  · rename_i u hu
    cases h
    rw [hu, List.length_cons] at hle
    omega
  · obtain ⟨⟨ms, r'⟩, hms, hr⟩ := of_map_ok h
    cases hr
    exact (members_length hshrinks hms).trans_le hle

theorem scanArray_shrinks {scan : Scan Value} (hshrinks : Shrinks scan) :
    Shrinks (scanArray scan) := by
  intro t v r h
  have hle := skipBlanks_length t
  unfold scanArray at h
  split at h
  · rename_i u hu
    cases h
    rw [hu, List.length_cons] at hle
    omega
  · obtain ⟨⟨vs, r'⟩, hvs, hr⟩ := of_map_ok h
    cases hr
    exact (elements_length hshrinks hvs).trans_le hle

/-! ## Any value -/

/-- A scanner of nested values, where there is one. -/
def Nested (p : Scan Value → Prop) (nested : Option (Scan Value)) : Prop :=
  ∀ scan, nested = some scan → p scan

theorem scanAt_shrinks {nested : Option (Scan Value)} (hshrinks : Nested Shrinks nested) :
    Shrinks (scanAt nested) := by
  intro t v r h
  cases t with
  | nil => exact nomatch h
  | cons c t =>
    simp only [scanAt] at h
    split_ifs at h with hq ho ha
    · obtain ⟨⟨u, r'⟩, hu, hr⟩ := of_map_ok h
      cases hr
      exact (scanString_length _ _ _ hu).trans (Nat.lt_succ_self _)
    · cases hn : nested with
      | none => simp [hn] at h
      | some scan =>
        rw [hn] at h
        exact (scanObject_shrinks (hshrinks _ hn) _ _ _ h).trans (Nat.lt_succ_self _)
    · cases hn : nested with
      | none => simp [hn] at h
      | some scan =>
        rw [hn] at h
        exact (scanArray_shrinks (hshrinks _ hn) _ _ _ h).trans (Nat.lt_succ_self _)
    · cases hl : literal? (c :: t) with
      | some l =>
        rw [hl] at h
        cases h
        exact literal_length hl
      | none =>
        rw [hl] at h
        exact scanNumber_shrinks _ _ _ h

theorem scanAt_local {nested : Option (Scan Value)} (hlocal : Nested Local nested)
    (hshrinks : Nested Shrinks nested) : Local (scanAt nested) := by
  intro t v r h hr s
  cases t with
  | nil => exact nomatch h
  | cons c t =>
    simp only [List.cons_append, scanAt] at h ⊢
    split_ifs at h ⊢ with hq ho ha
    · obtain ⟨⟨u, r'⟩, hu, hr⟩ := of_map_ok h
      cases hr
      rw [scanString_append hu]
      rfl
    · cases hn : nested with
      | none => simp [hn] at h
      | some scan =>
        rw [hn] at h
        exact scanObject_append (hlocal _ hn) (hshrinks _ hn) h s
    · cases hn : nested with
      | none => simp [hn] at h
      | some scan =>
        rw [hn] at h
        exact scanArray_append (hlocal _ hn) (hshrinks _ hn) h s
    · cases hl : literal? (c :: t) with
      | some l =>
        rw [hl] at h
        cases h
        have happ := literal_append hl s
        rw [List.cons_append] at happ
        rw [happ]
      | none =>
        rw [hl] at h
        have hnone := literal_of_number h s
        have happ := scanNumber_local _ _ _ h hr s
        rw [List.cons_append] at hnone happ
        rw [hnone]
        exact happ

theorem scanOnce_shrinks : ∀ depth, Shrinks (scanOnce depth)
  | 0 => scanAt_shrinks nofun
  | depth + 1 => scanAt_shrinks fun scan h => by
      cases h
      exact scanOnce_shrinks depth

theorem scanOnce_local : ∀ depth, Local (scanOnce depth)
  | 0 => scanAt_local nofun nofun
  | depth + 1 => by
    refine scanAt_local ?_ ?_
    · intro scan h
      cases h
      exact scanOnce_local depth
    · intro scan h
      cases h
      exact scanOnce_shrinks depth

/-! ## Whole texts -/

theorem literal_not_dict {t r : Text} {ms : List (Text × Value)} :
    literal? t ≠ some (.dict ms, r) := by
  intro h
  obtain ⟨l, hl, hv, -⟩ := literal_iff.mp h
  simp only [literals, List.mem_cons, List.not_mem_nil, or_false] at hl
  rcases hl with rfl | rfl | rfl | rfl | rfl | rfl <;> cases hv

theorem scanNumber_not_dict {t r : Text} {ms : List (Text × Value)} :
    scanNumber t ≠ .ok (.dict ms, r) := by
  intro h
  unfold scanNumber at h
  split at h
  · exact nomatch h
  · dsimp only at h
    split_ifs at h <;> exact nomatch h

theorem scanArray_not_dict {scan : Scan Value} {t r : Text} {ms : List (Text × Value)} :
    scanArray scan t ≠ .ok (.dict ms, r) := by
  intro h
  unfold scanArray at h
  split at h
  · exact nomatch h
  · obtain ⟨vs, -, hvs⟩ := of_map_ok h
    exact nomatch hvs

/-- An object is read from its opening brace. -/
theorem scanAt_dict {nested : Option (Scan Value)} {t r : Text} {ms : List (Text × Value)}
    (h : scanAt nested t = .ok (.dict ms, r)) :
    ∃ scan u, nested = some scan ∧ t = '{' :: u ∧ scanObject scan u = .ok (.dict ms, r) := by
  cases t with
  | nil => exact nomatch h
  | cons c t =>
    simp only [scanAt] at h
    split_ifs at h with hq ho ha
    · obtain ⟨u, -, hu⟩ := of_map_ok h
      exact nomatch hu
    · subst ho
      cases hn : nested with
      | none => simp [hn] at h
      | some scan =>
        rw [hn] at h
        exact ⟨scan, t, rfl, rfl, h⟩
    · cases hn : nested with
      | none => simp [hn] at h
      | some scan =>
        rw [hn] at h
        exact absurd h scanArray_not_dict
    · cases hl : literal? (c :: t) with
      | some l =>
        rw [hl] at h
        cases h
        exact absurd hl literal_not_dict
      | none =>
        rw [hl] at h
        exact absurd h scanNumber_not_dict

/-- Reading an object does not look past its closing brace. -/
theorem scanOnce_append {depth : ℕ} {t r : Text} {ms : List (Text × Value)}
    (h : scanOnce depth t = .ok (.dict ms, r)) (s : Text) :
    scanOnce depth (t ++ s) = .ok (.dict ms, r ++ s) := by
  cases depth with
  | zero =>
    obtain ⟨scan, u, hn, -⟩ := scanAt_dict h
    exact nomatch hn
  | succ d =>
    obtain ⟨scan, u, hn, rfl, hu⟩ := scanAt_dict h
    cases hn
    exact scanObject_append (scanOnce_local d) (scanOnce_shrinks d) hu s

theorem loads_ok {depth : ℕ} {t : Text} {v : Value} :
    loads depth t = .ok v ↔ t.head? ≠ some (Char.ofNat 0xfeff) ∧
      ∃ r, scanOnce depth (skipBlanks t) = .ok (v, r) ∧ skipBlanks r = [] := by
  unfold loads
  constructor
  · intro h
    split at h
    · exact nomatch h
    · rename_i hbom
      obtain ⟨⟨w, r⟩, hscan, h⟩ := of_bind_ok h
      dsimp only at h
      split at h
      · rename_i hr
        cases h
        exact ⟨hbom, r, hscan, hr⟩
      · exact nomatch h
  · rintro ⟨hbom, r, hscan, hr⟩
    rw [if_neg hbom, bind_of_ok hscan]
    exact if_pos hr

/-- A character a value starts with. -/
def startsValue (c : Char) : Bool :=
  c = '"' || c = '{' || c = '[' || c = '-' || isAsciiDigit c ||
    literals.any fun l => l.1.head? = some c

theorem scanAt_of_startsValue {nested : Option (Scan Value)} {c : Char}
    (h : startsValue c = false) (t : Text) :
    scanAt nested (c :: t) = .error (.decode .expectingValue) := by
  simp only [startsValue, Bool.or_eq_false_iff, decide_eq_false_iff_not, List.any_eq_false,
    decide_eq_true_eq] at h
  obtain ⟨⟨⟨⟨⟨hq, ho⟩, ha⟩, hm⟩, hd⟩, hl⟩ := h
  have hliteral : literal? (c :: t) = none := by
    rw [Option.eq_none_iff_forall_not_mem]
    rintro ⟨w, q⟩ hw
    obtain ⟨l, hmem, -, hct⟩ := literal_iff.mp hw
    obtain ⟨-, -, -, -, hne⟩ := literals_head l hmem
    obtain ⟨d, u, hdu⟩ := List.exists_cons_of_ne_nil hne
    rw [hdu] at hct
    obtain ⟨rfl, -⟩ := List.cons.inj hct
    exact hl l hmem (by rw [hdu]; rfl)
  have hz : c ≠ '0' := by
    rintro rfl
    exact absurd hd (by decide)
  have hnumber : scanNumber (c :: t) = .error (.decode .expectingValue) := by
    simp [scanNumber, minus, hm, wholePart, hz, hd]
  simp [scanAt, hq, ho, ha, hliteral, hnumber]

theorem scanOnce_of_startsValue {c : Char} (h : startsValue c = false) (t : Text) :
    ∀ depth, scanOnce depth (c :: t) = .error (.decode .expectingValue)
  | 0 => scanAt_of_startsValue h t
  | _ + 1 => scanAt_of_startsValue h t

theorem not_isSpace_of_isAsciiDigit {c : Char} (h : isAsciiDigit c = true) : isSpace c = false := by
  simp only [isAsciiDigit, Bool.and_eq_true, decide_eq_true_eq] at h
  have hlo : 48 ≤ c.toNat := h.1
  have hhi : c.toNat ≤ 57 := h.2
  simp only [isSpace, inRuns, spaces, List.any_cons, List.any_nil, Bool.or_false,
    Bool.or_eq_false_iff, Bool.and_eq_false_iff, decide_eq_false_iff_not]
  omega

theorem not_startsValue_of_isSpace {c : Char} (h : isSpace c = true) : startsValue c = false := by
  by_contra hs
  have hs : startsValue c = true := by simpa using hs
  have hnot : ∀ d : Char, isSpace d = false → c ≠ d := by
    rintro d hd rfl
    exact absurd h (by rw [hd]; exact Bool.false_ne_true)
  simp only [startsValue, Bool.or_eq_true, decide_eq_true_eq, List.any_eq_true] at hs
  rcases hs with ((((hq | ho) | ha) | hm) | hd) | ⟨l, hl, hc⟩
  · exact hnot _ (by decide) hq
  · exact hnot _ (by decide) ho
  · exact hnot _ (by decide) ha
  · exact hnot _ (by decide) hm
  · exact absurd h (by rw [not_isSpace_of_isAsciiDigit hd]; exact Bool.false_ne_true)
  · have hhead : ∀ l ∈ literals, ∃ d, l.1.head? = some d ∧ isSpace d = false := by
      simp only [literals, List.forall_mem_cons]
      exact ⟨⟨'n', rfl, rfl⟩, ⟨'t', rfl, rfl⟩, ⟨'f', rfl, rfl⟩, ⟨'N', rfl, rfl⟩, ⟨'I', rfl, rfl⟩,
        ⟨'-', rfl, rfl⟩, List.forall_mem_nil _⟩
    obtain ⟨d, hld, hd⟩ := hhead l hl
    rw [hld] at hc
    exact hnot d hd (Option.some.inj hc).symm

theorem skipBlanks_of_all {l : Text} (hl : ∀ c ∈ l, isBlank c = true) (t : Text) :
    skipBlanks (l ++ t) = skipBlanks t :=
  List.dropWhile_append_of_pos hl

theorem skipBlanks_eq_nil {t : Text} : skipBlanks t = [] ↔ ∀ c ∈ t, isBlank c = true :=
  List.dropWhile_eq_nil_iff

/-- **Blanks around an object change nothing.** -/
theorem loads_padded {depth : ℕ} {t : Text} {ms : List (Text × Value)}
    (h : loads depth t = .ok (.dict ms)) {l r : Text} (hl : ∀ c ∈ l, isBlank c = true)
    (hr : ∀ c ∈ r, isBlank c = true) : loads depth (l ++ (t ++ r)) = .ok (.dict ms) := by
  obtain ⟨hbom, rest, hscan, hrest⟩ := loads_ok.mp h
  have hne := ne_nil_of_shrinks (scanOnce_shrinks depth) hscan
  refine loads_ok.mpr ⟨?_, rest ++ r, ?_, ?_⟩
  · cases l with
    | nil =>
      cases t with
      | nil => exact absurd rfl hne
      | cons c t => exact hbom
    | cons c l =>
      rw [List.cons_append, List.head?_cons, ne_eq, Option.some.injEq]
      rintro rfl
      exact absurd (hl _ List.mem_cons_self) (by decide)
  · rw [skipBlanks_of_all hl, skipBlanks_append hne]
    exact scanOnce_append hscan r
  · rw [skipBlanks_of_all (skipBlanks_eq_nil.mp hrest)]
    exact skipBlanks_eq_nil.mpr hr

/-- A text whose first character starts no value is not read. -/
theorem loads_of_startsValue {depth : ℕ} {t u : Text} {c : Char} (ht : skipBlanks t = c :: u)
    (hc : startsValue c = false) : ∃ e, loads depth t = .error (.decode e) := by
  unfold loads
  split
  · exact ⟨_, rfl⟩
  · rw [ht, scanOnce_of_startsValue hc]
    exact ⟨_, rfl⟩

/-- **Nothing but blanks may stand around an object**: before it white space JSON does not have is
no value, and after it anything else is left over. -/
theorem loads_surrounded {depth : ℕ} {t : Text} {ms : List (Text × Value)}
    (h : loads depth t = .ok (.dict ms)) {l r : Text} (hspace : ∀ c ∈ l, isSpace c = true)
    (hne : ¬∀ c ∈ l ++ r, isBlank c = true) :
    ∃ e, loads depth (l ++ (t ++ r)) = .error (.decode e) := by
  by_cases hl : ∀ c ∈ l, isBlank c = true
  · obtain ⟨-, rest, hscan, hrest⟩ := loads_ok.mp h
    have hr : ¬skipBlanks r = [] := fun hr => hne fun c hc =>
      (List.mem_append.mp hc).elim (hl c) (skipBlanks_eq_nil.mp hr c)
    have hskip := ne_nil_of_shrinks (scanOnce_shrinks depth) hscan
    unfold loads
    split
    · exact ⟨_, rfl⟩
    · rw [skipBlanks_of_all hl, skipBlanks_append hskip, bind_of_ok (scanOnce_append hscan r)]
      dsimp only
      rw [skipBlanks_of_all (skipBlanks_eq_nil.mp hrest), if_neg hr]
      exact ⟨_, rfl⟩
  · have hskip : skipBlanks l ≠ [] := fun hnil => hl (skipBlanks_eq_nil.mp hnil)
    obtain ⟨c, u, hcu⟩ := List.exists_cons_of_ne_nil hskip
    have hmem : c ∈ skipBlanks l := by rw [hcu]; exact List.mem_cons_self
    refine loads_of_startsValue (c := c) (u := u ++ (t ++ r)) ?_
      (not_startsValue_of_isSpace (hspace c ((List.dropWhile_suffix _).subset hmem)))
    rw [skipBlanks_append hskip, hcu]
    rfl

/-! ## What `strip` takes off -/

def leading (t : Text) : Text := t.takeWhile isSpace

def trailing (t : Text) : Text := ((t.dropWhile isSpace).reverse.takeWhile isSpace).reverse

theorem leading_append_strip (t : Text) : leading t ++ (strip t ++ trailing t) = t := by
  rw [strip, trailing, ← List.reverse_append, List.takeWhile_append_dropWhile, List.reverse_reverse,
    leading, List.takeWhile_append_dropWhile]

theorem isSpace_of_mem_leading {t : Text} {c : Char} (h : c ∈ leading t) : isSpace c = true :=
  List.mem_takeWhile_imp h

end Meridian.Python.Json
