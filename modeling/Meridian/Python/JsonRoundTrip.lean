import Meridian.Python.JsonPrefix
import Meridian.Python.JsonWritten

/-!
# What `json.dumps` writes is read back

`loadsWith constants` is `json.loads` with or without `NaN` and the infinities: with them it is
`loads` (`loads_eq`), without them (`strictLoads`) it takes what RFC 8259 calls JSON. A value that a
reader can have made (`Writable`) is read back from what `dumps` writes of it, by the strict reader
where no `NaN` or infinity is in it (`loadsWith_dumpsRaw`). A value that was read is one
(`loads_writable`).
-/

namespace Meridian.Python.Json

open F64
open Value (isJsonList isJsonMembers)

/-! ## The strict reader -/

/-- A name the text starts with, the constants of `json` among them or not. -/
def nameOf (constants : Bool) (t : Text) : Option (Value × Text) :=
  (literal? t).filter fun r => constants || r.1.isJson

/-- `scanAt`, with the constants or without them. -/
def scanAtWith (constants : Bool) (nested : Option (Scan Value)) : Scan Value
  | [] => .error (.decode .expectingValue)
  | c :: t =>
    if c = '"' then (scanString t).map fun r => (.str r.1, r.2)
    else if c = '{' then
      match nested with
      | some scan => scanObject scan t
      | none => .error .recursion
    else if c = '[' then
      match nested with
      | some scan => scanArray scan t
      | none => .error .recursion
    else
      match nameOf constants (c :: t) with
      | some r => .ok r
      | none => scanNumber (c :: t)

def scanOnceWith (constants : Bool) : ℕ → Scan Value
  | 0 => scanAtWith constants none
  | depth + 1 => scanAtWith constants (some (scanOnceWith constants depth))

def loadsWith (constants : Bool) (depth : ℕ) (t : Text) : Except Fault Value :=
  if t.head? = some (Char.ofNat 0xfeff) then .error (.decode .unexpectedBom)
  else do
    let (v, rest) ← scanOnceWith constants depth (skipBlanks t)
    if skipBlanks rest = [] then pure v else .error (.decode .extraData)

/-- The reader of RFC 8259. -/
def strictLoads : ℕ → Text → Except Fault Value := loadsWith false

theorem nameOf_true (t : Text) : nameOf true t = literal? t := by
  cases h : literal? t with
  | none => rw [nameOf, h]; rfl
  | some r => rw [nameOf, h]; rfl

theorem scanAtWith_true (nested : Option (Scan Value)) : scanAtWith true nested = scanAt nested := by
  funext t
  cases t with
  | nil => rfl
  | cons c t =>
    have hname := nameOf_true (c :: t)
    cases h : literal? (c :: t) <;> cases nested <;> simp only [scanAtWith, scanAt, hname, h]

theorem scanOnceWith_true : ∀ depth, scanOnceWith true depth = scanOnce depth
  | 0 => scanAtWith_true none
  | depth + 1 => by rw [scanOnceWith, scanAtWith_true, scanOnceWith_true depth, scanOnce]

theorem loads_eq : loads = loadsWith true := by
  funext depth t
  simp only [loads, loadsWith, scanOnceWith_true]

/-! ## Values that can be written and read -/

mutual

/-- Integers within the digit limit, objects with one member a key, and at most `depth` objects and
arrays inside each other. -/
def Writable : ℕ → Value → Prop
  | _, .int n => (Nat.digits 10 n.natAbs).length ≤ maxStrDigits
  | 0, .list _ | 0, .dict _ => False
  | depth + 1, .list items => WritableItems depth items
  | depth + 1, .dict members => (members.map Prod.fst).Nodup ∧ WritableMembers depth members
  | _, _ => True

def WritableItems (depth : ℕ) : List Value → Prop
  | [] => True
  | v :: items => Writable depth v ∧ WritableItems depth items

def WritableMembers (depth : ℕ) : List (Text × Value) → Prop
  | [] => True
  | (_, v) :: members => Writable depth v ∧ WritableMembers depth members

end

theorem writableItems_iff {depth : ℕ} {items : List Value} :
    WritableItems depth items ↔ ∀ v ∈ items, Writable depth v := by
  induction items with
  | nil => simp [WritableItems]
  | cons v items ih => rw [WritableItems, ih, List.forall_mem_cons]

theorem writableMembers_iff {depth : ℕ} {members : List (Text × Value)} :
    WritableMembers depth members ↔ ∀ m ∈ members, Writable depth m.2 := by
  induction members with
  | nil => simp [WritableMembers]
  | cons m members ih => rw [WritableMembers, ih, List.forall_mem_cons]

theorem isJsonList_iff {items : List Value} :
    isJsonList items = true ↔ ∀ v ∈ items, v.isJson = true := by
  induction items with
  | nil => simp [isJsonList]
  | cons v items ih => rw [isJsonList, Bool.and_eq_true, ih, List.forall_mem_cons]

theorem isJsonMembers_iff {members : List (Text × Value)} :
    isJsonMembers members = true ↔ ∀ m ∈ members, m.2.isJson = true := by
  induction members with
  | nil => simp [isJsonMembers]
  | cons m members ih => rw [isJsonMembers, Bool.and_eq_true, ih, List.forall_mem_cons]

/-! ## Numbers and names -/

section

variable {constants : Bool} {nested : Option (Scan Value)}

/-- No string, object or array begins here. -/
def IsPlain (c : Char) : Prop := c ≠ '"' ∧ c ≠ '\x7b' ∧ c ≠ '['

instance (c : Char) : Decidable (IsPlain c) := inferInstanceAs (Decidable (_ ∧ _ ∧ _))

theorem scanAtWith_name {c : Char} {t : Text} (hc : IsPlain c) {r : Value × Text}
    (h : nameOf constants (c :: t) = some r) : scanAtWith constants nested (c :: t) = .ok r := by
  simp [scanAtWith, hc.1, hc.2.1, hc.2.2, h]

theorem scanAtWith_plain {c : Char} {t : Text} (hc : IsPlain c)
    (h : nameOf constants (c :: t) = none) :
    scanAtWith constants nested (c :: t) = scanNumber (c :: t) := by
  simp [scanAtWith, hc.1, hc.2.1, hc.2.2, h]

/-- A character a value may begin with: no blank, no closing bracket, no byte order mark. -/
def Opens (c : Char) : Prop :=
  isBlank c = false ∧ c ≠ ']' ∧ c ≠ '\x7d' ∧ c ≠ Char.ofNat 0xfeff

instance (c : Char) : Decidable (Opens c) := inferInstanceAs (Decidable (_ ∧ _ ∧ _ ∧ _))

def Begins (t : Text) : Prop := ∃ c u, t = c :: u ∧ Opens c

theorem Begins.skipBlanks {t : Text} (h : Begins t) (s : Text) :
    Json.skipBlanks (t ++ s) = t ++ s := by
  obtain ⟨c, u, rfl, hc⟩ := h
  exact List.dropWhile_cons_of_neg (by simpa using hc.1)

/-- A number begins with a minus or a digit. -/
theorem number_head {t r : Text} {v : Value} (h : scanNumber t = .ok (v, r)) :
    ∃ c u, t = c :: u ∧ (c = '-' ∨ isAsciiDigit c = true) := by
  obtain ⟨d, u, hd, hdigit⟩ := scanNumber_head h
  cases t with
  | nil => exact nomatch hd
  | cons c t =>
    by_cases hc : c = '-'
    · exact ⟨c, t, rfl, .inl hc⟩
    · refine ⟨c, t, rfl, .inr ?_⟩
      have hminus : minus (c :: t) = (false, c :: t) := by simp [minus, hc]
      rw [hminus] at hd
      exact (List.cons.inj hd).1 ▸ hdigit

theorem ne_of_number {c d : Char} (h : c = '-' ∨ isAsciiDigit c = true) (hminus : d ≠ '-')
    (hdigit : isAsciiDigit d = false) : c ≠ d := by
  rintro rfl
  rcases h with h | h
  · exact hminus h
  · rw [hdigit] at h
    exact Bool.noConfusion h

theorem begins_number {t s r : Text} {v : Value} (h : scanNumber (t ++ s) = .ok (v, r))
    (ht : t ≠ []) : Begins t := by
  obtain ⟨c, u, hc, hhead⟩ := number_head h
  obtain ⟨d, t, rfl⟩ := List.exists_cons_of_ne_nil ht
  obtain rfl : d = c := (List.cons.inj hc).1
  refine ⟨d, t, rfl, ?_, ne_of_number hhead (by decide) (by decide),
    ne_of_number hhead (by decide) (by decide), ne_of_number hhead (by decide) (by decide)⟩
  simp only [isBlank, Bool.or_eq_false_iff, decide_eq_false_iff_not]
  exact ⟨⟨⟨ne_of_number hhead (by decide) (by decide), ne_of_number hhead (by decide) (by decide)⟩,
    ne_of_number hhead (by decide) (by decide)⟩, ne_of_number hhead (by decide) (by decide)⟩

theorem scanAtWith_number {t r : Text} {v : Value} (h : scanNumber t = .ok (v, r)) :
    scanAtWith constants nested t = .ok (v, r) := by
  obtain ⟨c, u, rfl, hhead⟩ := number_head h
  have hplain : IsPlain c := ⟨ne_of_number hhead (by decide) (by decide),
    ne_of_number hhead (by decide) (by decide), ne_of_number hhead (by decide) (by decide)⟩
  have hname : nameOf constants (c :: u) = none := by
    have hnone := literal_of_number h []
    rw [List.append_nil] at hnone
    rw [nameOf, hnone]
    rfl
  rw [scanAtWith_plain hplain hname, h]

/-- A reader returns a value from its text where `ok`, and raises otherwise. -/
def Reads (scan : Scan Value) (ok : Bool) (v : Value) : Prop :=
  Begins (dumpsRaw v) ∧ ∀ s, Stops s → scan (dumpsRaw v ++ s) =
    if ok then .ok (v, s) else .error (.decode .expectingValue)

theorem reads_number {v : Value} {ok : Bool} (hok : ok = true) (hne : dumpsRaw v ≠ [])
    (h : ∀ s, Stops s → scanNumber (dumpsRaw v ++ s) = .ok (v, s)) :
    Reads (scanAtWith constants nested) ok v := by
  refine ⟨begins_number (h [] stops_nil) hne, fun s hs => ?_⟩
  rw [hok, if_pos rfl]
  exact scanAtWith_number (h s hs)

/-- A name is read unless it is a constant and the reader takes none. -/
theorem reads_name {v : Value} {c : Char} {u : Text} (hv : (dumpsRaw v, v) ∈ literals)
    (hcu : dumpsRaw v = c :: u) (hc : IsPlain c ∧ Opens c)
    (hnumber : ∀ s, scanNumber (c :: (u ++ s)) = .error (.decode .expectingValue)) :
    Reads (scanAtWith constants nested) (constants || v.isJson) v := by
  refine ⟨⟨c, u, hcu, hc.2⟩, fun s _ => ?_⟩
  have hliteral : literal? (dumpsRaw v ++ s) = some (v, s) := literal_iff.mpr ⟨_, hv, rfl, rfl⟩
  rw [hcu, List.cons_append] at hliteral ⊢
  by_cases hok : (constants || v.isJson) = true
  · rw [if_pos hok]
    refine scanAtWith_name hc.1 ?_
    rw [nameOf, hliteral, Option.filter_some, if_pos hok]
  · rw [if_neg hok, scanAtWith_plain hc.1, hnumber]
    rw [nameOf, hliteral, Option.filter_some, if_neg hok]

/-! ## Strings, arrays and objects -/

theorem begins_quoted (k : Text) : Begins (quoted escapeRaw k) :=
  ⟨'"', _, rfl, by decide⟩

theorem scanString_text (k s : Text) : scanString (k.flatMap escapeRaw ++ ['"'] ++ s) = .ok (k, s) := by
  rw [List.append_assoc]
  exact scanString_quoted k s

theorem reads_str (t : Text) : Reads (scanAtWith constants nested) true (.str t) := by
  refine ⟨begins_quoted t, fun s _ => ?_⟩
  rw [if_pos rfl]
  exact congrArg (Except.map fun r : Text × Text => (Value.str r.1, r.2)) (scanString_text t s)

end

section

variable {scan : Scan Value} {t : Text} {fuel : ℕ}

theorem elements_error {e : Fault} (h : scan t = .error e) :
    elements scan (fuel + 1) t = .error e := by
  rw [elements, h]
  rfl

theorem elements_last {v : Value} {s : Text} (h : scan t = .ok (v, ']' :: s)) :
    elements scan (fuel + 1) t = .ok ([v], s) := by
  rw [elements, bind_of_ok h]
  rfl

theorem elements_next {v : Value} {s : Text} (h : scan t = .ok (v, ',' :: s)) :
    elements scan (fuel + 1) t =
      (elements scan fuel (skipBlanks s)).map fun r => (v :: r.1, r.2) := by
  rw [elements, bind_of_ok h]
  show (do let r ← elements scan fuel (skipBlanks s); pure (v :: r.1, r.2) : Except Fault _) = _
  cases elements scan fuel (skipBlanks s) <;> rfl

variable {read : List (Text × Value)} {k u : Text}

theorem members_error {e : Fault} (hkey : scanString t = .ok (k, ':' :: u))
    (h : scan (skipBlanks u) = .error e) : members scan (fuel + 1) read ('"' :: t) = .error e := by
  rw [members, bind_of_ok hkey]
  show (do
    let r ← scan (skipBlanks u)
    _ : Except Fault _) = _
  rw [h]
  rfl

theorem members_last {v : Value} {s : Text} (hkey : scanString t = .ok (k, ':' :: u))
    (h : scan (skipBlanks u) = .ok (v, '\x7d' :: s)) :
    members scan (fuel + 1) read ('"' :: t) = .ok (setItem read k v, s) :=
  members_ok.mpr ⟨t, k, _, u, v, _, rfl, hkey, rfl, h, .inl ⟨rfl, rfl⟩⟩

theorem members_next {v : Value} {s : Text} (hkey : scanString t = .ok (k, ':' :: u))
    (h : scan (skipBlanks u) = .ok (v, ',' :: s)) :
    members scan (fuel + 1) read ('"' :: t) =
      members scan fuel (setItem read k v) (skipBlanks s) := by
  rw [members, bind_of_ok hkey]
  show (do
    let r ← scan (skipBlanks u)
    _ : Except Fault _) = _
  rw [bind_of_ok h]
  rfl

end

variable {scan : Scan Value} {ok : Value → Bool}

/-- A blank after a comma or a colon is passed over. -/
theorem Begins.skipBlank {t : Text} (h : Begins t) (s : Text) :
    Json.skipBlanks (' ' :: (t ++ s)) = t ++ s := by
  have hskip : Json.skipBlanks (' ' :: (t ++ s)) = Json.skipBlanks (t ++ s) := rfl
  rw [hskip, h.skipBlanks s]

theorem dumpsItems_cons (v : Value) (items : List Value) :
    ∃ rest, dumpsItems escapeRaw (v :: items) = dumpsRaw v ++ rest := by
  cases items with
  | nil => exact ⟨[], (List.append_nil _).symm⟩
  | cons w items => exact ⟨_, by rw [dumpsItems, List.append_assoc]; rfl⟩

theorem dumpsMembers_cons (m : Text × Value) (ms : List (Text × Value)) :
    ∃ rest, dumpsMembers escapeRaw (m :: ms) = quoted escapeRaw m.1 ++ rest := by
  cases ms with
  | nil => exact ⟨_, by rw [dumpsMembers, List.append_assoc]⟩
  | cons n ms =>
    exact ⟨_, by rw [dumpsMembers, List.append_assoc, List.append_assoc, List.append_assoc]⟩

/-- **The elements of an array.** -/
theorem elements_dumpsItems {v : Value} {items : List Value}
    (h : ∀ w ∈ v :: items, Reads scan (ok w) w) {fuel : ℕ} (hfuel : items.length < fuel) (s : Text) :
    elements scan fuel (dumpsItems escapeRaw (v :: items) ++ ']' :: s) =
      if (v :: items).all ok then .ok (v :: items, s) else .error (.decode .expectingValue) := by
  induction items generalizing v fuel with
  | nil =>
    obtain ⟨fuel, rfl⟩ : ∃ n, fuel = n + 1 := ⟨fuel - 1, by omega⟩
    have hv := (h v List.mem_cons_self).2 (']' :: s) (stops_cons rfl s)
    by_cases hok : ok v = true
    · rw [if_pos hok] at hv
      rw [if_pos (by simpa using hok)]
      exact elements_last hv
    · rw [if_neg hok] at hv
      rw [if_neg (by simpa using hok)]
      exact elements_error hv
  | cons w items ih =>
    obtain ⟨fuel, rfl⟩ : ∃ n, fuel = n + 1 := ⟨fuel - 1, by omega⟩
    have hlt : items.length < fuel := by simpa using hfuel
    have hrest := ih (fun x hx => h x (List.mem_cons_of_mem v hx)) hlt
    have hv := (h v List.mem_cons_self).2
      (',' :: ' ' :: (dumpsItems escapeRaw (w :: items) ++ ']' :: s)) (stops_cons rfl _)
    obtain ⟨rest, hitems⟩ := dumpsItems_cons w items
    have htext : dumpsItems escapeRaw (v :: w :: items) ++ ']' :: s =
        dumpsRaw v ++ ',' :: ' ' :: (dumpsItems escapeRaw (w :: items) ++ ']' :: s) := by
      rw [dumpsItems, List.append_assoc, List.append_assoc]
      rfl
    rw [htext]
    by_cases hok : ok v = true
    · rw [if_pos hok] at hv
      have hskip : skipBlanks (' ' :: (dumpsItems escapeRaw (w :: items) ++ ']' :: s)) =
          dumpsItems escapeRaw (w :: items) ++ ']' :: s := by
        rw [hitems, List.append_assoc]
        exact (h w (by simp)).1.skipBlank _
      rw [elements_next hv, hskip, hrest, List.all_cons (l := w :: items), hok, Bool.true_and]
      split <;> rfl
    · rw [if_neg hok] at hv
      rw [elements_error hv, List.all_cons, Bool.eq_false_iff.mpr hok, Bool.false_and,
        if_neg Bool.false_ne_true]

theorem lookup_eq_none {read : List (Text × Value)} {k : Text} (h : k ∉ read.map Prod.fst) :
    read.lookup k = none := by
  induction read with
  | nil => rfl
  | cons m read ih =>
    rw [List.map_cons, List.mem_cons, not_or] at h
    rw [List.lookup_cons, beq_false_of_ne h.1]
    exact ih h.2

theorem setItem_fresh {read : List (Text × Value)} {k : Text} (h : k ∉ read.map Prod.fst)
    (v : Value) : setItem read k v = read ++ [(k, v)] := by
  rw [setItem, lookup_eq_none h]
  rfl

/-- A key and a value, as a member is written. -/
theorem scan_member {m : Text × Value} (h : Reads scan (ok m.2) m.2) {s : Text} (hs : Stops s) :
    ∃ t u, quoted escapeRaw m.1 ++ ": ".toList ++ dumpsRaw m.2 ++ s = '"' :: t ∧
      scanString t = .ok (m.1, ':' :: u) ∧ scan (skipBlanks u) =
        if ok m.2 then .ok (m.2, s) else .error (.decode .expectingValue) := by
  refine ⟨m.1.flatMap escapeRaw ++ '"' :: ':' :: ' ' :: (dumpsRaw m.2 ++ s),
    ' ' :: (dumpsRaw m.2 ++ s), ?_, scanString_quoted _ _, ?_⟩
  · rw [quoted, List.append_assoc, List.append_assoc, List.cons_append, List.append_assoc]
    rfl
  · rw [h.1.skipBlank s]
    exact h.2 s hs

/-- **The members of an object.** -/
theorem members_dumpsMembers {m : Text × Value} {ms read : List (Text × Value)}
    (h : ∀ x ∈ m :: ms, Reads scan (ok x.2) x.2) (hkeys : ((read ++ m :: ms).map Prod.fst).Nodup)
    {fuel : ℕ} (hfuel : ms.length < fuel) (s : Text) :
    members scan fuel read (dumpsMembers escapeRaw (m :: ms) ++ '\x7d' :: s) =
      if (m :: ms).all fun x => ok x.2 then .ok (read ++ m :: ms, s)
      else .error (.decode .expectingValue) := by
  have hfresh : m.1 ∉ read.map Prod.fst := by
    rw [List.map_append, List.map_cons] at hkeys
    exact fun hmem => (List.disjoint_of_nodup_append hkeys) hmem List.mem_cons_self
  induction ms generalizing m read fuel with
  | nil =>
    obtain ⟨fuel, rfl⟩ : ∃ n, fuel = n + 1 := ⟨fuel - 1, by omega⟩
    obtain ⟨t, u, htext, hkey, hv⟩ :=
      scan_member (h m List.mem_cons_self) (stops_cons (c := '\x7d') rfl s)
    have htext : dumpsMembers escapeRaw [m] ++ '\x7d' :: s = '"' :: t := htext
    rw [htext]
    by_cases hok : ok m.2 = true
    · rw [if_pos hok] at hv
      rw [if_pos (by simpa using hok), members_last hkey hv, setItem_fresh hfresh]
    · rw [if_neg hok] at hv
      rw [if_neg (by simpa using hok), members_error hkey hv]
  | cons n ms ih =>
    obtain ⟨fuel, rfl⟩ : ∃ n, fuel = n + 1 := ⟨fuel - 1, by omega⟩
    obtain ⟨t, u, htext, hkey, hv⟩ := scan_member (h m List.mem_cons_self)
      (stops_cons (c := ',') rfl (' ' :: (dumpsMembers escapeRaw (n :: ms) ++ '\x7d' :: s)))
    have htext : dumpsMembers escapeRaw (m :: n :: ms) ++ '\x7d' :: s = '"' :: t := by
      rw [← htext, dumpsMembers, List.append_assoc, List.append_assoc]
      rfl
    rw [htext]
    by_cases hok : ok m.2 = true
    · rw [if_pos hok] at hv
      obtain ⟨rest, hmembers⟩ := dumpsMembers_cons n ms
      have hskip : skipBlanks (' ' :: (dumpsMembers escapeRaw (n :: ms) ++ '\x7d' :: s)) =
          dumpsMembers escapeRaw (n :: ms) ++ '\x7d' :: s := by
        rw [hmembers, List.append_assoc]
        exact (begins_quoted n.1).skipBlank _
      have hkeys' : (((read ++ [m]) ++ n :: ms).map Prod.fst).Nodup := by
        rwa [List.append_assoc, List.singleton_append]
      have hlt : ms.length < fuel := by simpa using hfuel
      have hrest := ih (fun x hx => h x (List.mem_cons_of_mem m hx)) hkeys' hlt (by
          rw [List.map_append, List.map_cons] at hkeys'
          exact fun hmem => (List.disjoint_of_nodup_append hkeys') hmem List.mem_cons_self)
      rw [members_next hkey hv, hskip, setItem_fresh hfresh, hrest, List.all_cons (l := n :: ms),
        hok, Bool.true_and, List.append_assoc, List.singleton_append]
    · rw [if_neg hok] at hv
      rw [members_error hkey hv, List.all_cons, Bool.eq_false_iff.mpr hok, Bool.false_and,
        if_neg Bool.false_ne_true]

theorem length_le_dumpsItems (items : List Value) :
    items.length ≤ (dumpsItems escapeRaw items).length + 1 := by
  induction items with
  | nil => exact Nat.zero_le _
  | cons v items ih =>
    cases items with
    | nil => simp
    | cons w items =>
      rw [dumpsItems, List.length_append, List.length_append]
      have hcomma : ", ".toList.length = 2 := rfl
      simp only [List.length_cons] at ih ⊢
      omega

theorem length_le_dumpsMembers (ms : List (Text × Value)) :
    ms.length ≤ (dumpsMembers escapeRaw ms).length + 1 := by
  induction ms with
  | nil => exact Nat.zero_le _
  | cons m ms ih =>
    cases ms with
    | nil => simp
    | cons n ms =>
      rw [dumpsMembers, List.length_append, List.length_append]
      have hcomma : ", ".toList.length = 2 := rfl
      simp only [List.length_cons] at ih ⊢
      omega

/-- **An array.** -/
theorem scanArray_dumps {items : List Value} (h : ∀ v ∈ items, Reads scan (ok v) v) (s : Text) :
    scanArray scan (dumpsItems escapeRaw items ++ ']' :: s) =
      if items.all ok then .ok (.list items, s) else .error (.decode .expectingValue) := by
  cases items with
  | nil => rfl
  | cons v items =>
    have hlen := length_le_dumpsItems (v :: items)
    have hread := @elements_dumpsItems scan ok v items h
      (dumpsItems escapeRaw (v :: items) ++ ']' :: s).length (by rw [List.length_append]; simp only [List.length_cons] at hlen ⊢; omega) s
    obtain ⟨rest, hitems⟩ := dumpsItems_cons v items
    obtain ⟨hbegins, -⟩ := h v List.mem_cons_self
    have hskip : skipBlanks (dumpsItems escapeRaw (v :: items) ++ ']' :: s) =
        dumpsItems escapeRaw (v :: items) ++ ']' :: s := by
      rw [hitems, List.append_assoc]
      exact hbegins.skipBlanks _
    obtain ⟨c, u, hcu, -, hc, -⟩ := hbegins
    rw [scanArray, hskip]
    rw [hitems, hcu, List.append_assoc, List.cons_append] at hread ⊢
    split
    · rename_i hnil
      exact absurd (List.cons.inj hnil).1 hc
    · rw [hread]
      split <;> rfl

/-- **An object.** -/
theorem scanObject_dumps {ms : List (Text × Value)} (h : ∀ m ∈ ms, Reads scan (ok m.2) m.2)
    (hkeys : (ms.map Prod.fst).Nodup) (s : Text) :
    scanObject scan (dumpsMembers escapeRaw ms ++ '\x7d' :: s) =
      if ms.all fun m => ok m.2 then .ok (.dict ms, s) else .error (.decode .expectingValue) := by
  cases ms with
  | nil => rfl
  | cons m ms =>
    have hlen := length_le_dumpsMembers (m :: ms)
    have hread := @members_dumpsMembers scan ok m ms [] h (by rwa [List.nil_append])
      (dumpsMembers escapeRaw (m :: ms) ++ '\x7d' :: s).length
      (by rw [List.length_append]; simp only [List.length_cons] at hlen ⊢; omega) s
    obtain ⟨rest, hmembers⟩ := dumpsMembers_cons m ms
    have hskip : skipBlanks (dumpsMembers escapeRaw (m :: ms) ++ '\x7d' :: s) =
        dumpsMembers escapeRaw (m :: ms) ++ '\x7d' :: s := by
      rw [hmembers, List.append_assoc]
      exact (begins_quoted m.1).skipBlanks _
    rw [scanObject, hskip]
    rw [hmembers, quoted, List.append_assoc, List.cons_append] at hread ⊢
    split
    · rename_i hnil
      exact absurd (List.cons.inj hnil).1 (by decide)
    · rw [hread, List.nil_append]
      split <;> rfl

/-! ## Any value -/

theorem intText_ne_nil (n : ℤ) : Item.intText n ≠ [] := by
  by_cases h0 : n = 0
  · simp [Item.intText, h0]
  · simp [Item.intText, h0]

variable {constants : Bool}

theorem reads_int {nested : Option (Scan Value)} {n : ℤ}
    (h : (Nat.digits 10 n.natAbs).length ≤ maxStrDigits) :
    Reads (scanAtWith constants nested) true (.int n) :=
  reads_number rfl (intText_ne_nil n) fun _ hs => scanNumber_intText h hs

theorem repr_ne_nil (f : F64) : f.repr ≠ [] := by
  intro h
  have hread := scanNumber_repr f stops_nil
  rw [h] at hread
  exact nomatch hread

/-- Neither a minus nor a digit: no number. -/
theorem scanNumber_error {c : Char} (hminus : c ≠ '-') (hzero : c ≠ '0')
    (hdigit : isAsciiDigit c = false) (t : Text) :
    scanNumber (c :: t) = .error (.decode .expectingValue) ∧
      scanNumber ('-' :: c :: t) = .error (.decode .expectingValue) := by
  constructor
  · simp [scanNumber, minus, hminus, wholePart, hzero, hdigit]
  · simp [scanNumber, minus, wholePart, hzero, hdigit]

theorem reads_float {nested : Option (Scan Value)} (x : Double) :
    Reads (scanAtWith constants nested) (constants || (Value.float x).isJson) (.float x) := by
  cases x with
  | finite f =>
    exact reads_number (Bool.or_true constants) (repr_ne_nil f) fun _ hs => scanNumber_repr f hs
  | infinite neg =>
    cases neg with
    | false =>
      exact reads_name (c := 'I') (u := "nfinity".toList) (by simp [literals]; rfl) rfl
        (by decide) fun s =>
          (scanNumber_error (by decide) (by decide) (by decide) _).1
    | true =>
      exact reads_name (c := '-') (u := "Infinity".toList) (by simp [literals]; rfl) rfl
        (by decide) fun s =>
          (scanNumber_error (by decide) (by decide) (by decide) _).2
  | nan =>
    exact reads_name (c := 'N') (u := "aN".toList) (by simp [literals]; rfl) rfl
      (by decide) fun s =>
        (scanNumber_error (by decide) (by decide) (by decide) _).1

theorem reads_constant {nested : Option (Scan Value)} {v : Value}
    (hv : v = .none ∨ v = .bool true ∨ v = .bool false) :
    Reads (scanAtWith constants nested) (constants || v.isJson) v := by
  rcases hv with rfl | rfl | rfl
  · exact reads_name (c := 'n') (u := "ull".toList) (by simp [literals]; rfl) rfl
      (by decide) fun s =>
        (scanNumber_error (by decide) (by decide) (by decide) _).1
  · exact reads_name (c := 't') (u := "rue".toList) (by simp [literals]; rfl) rfl
      (by decide) fun s =>
        (scanNumber_error (by decide) (by decide) (by decide) _).1
  · exact reads_name (c := 'f') (u := "alse".toList) (by simp [literals]; rfl) rfl
      (by decide) fun s =>
        (scanNumber_error (by decide) (by decide) (by decide) _).1

theorem reads_list {depth : ℕ} {items : List Value}
    (h : ∀ v ∈ items, Reads (scanOnceWith constants depth) (constants || v.isJson) v) :
    Reads (scanOnceWith constants (depth + 1)) (constants || (Value.list items).isJson)
      (.list items) := by
  refine ⟨⟨'[', _, rfl, by decide⟩, fun s _ => ?_⟩
  have hread := @scanArray_dumps _ (fun v => constants || v.isJson) _ h s
  have hall : (items.all fun v => constants || v.isJson) =
      (constants || (Value.list items).isJson) := by
    cases constants with
    | true => simp
    | false => rw [Bool.eq_iff_iff]; simpa [Value.isJson] using isJsonList_iff.symm
  have htext : dumpsRaw (.list items) ++ s = '[' :: (dumpsItems escapeRaw items ++ ']' :: s) := by
    rw [dumpsRaw, dumpsWith, List.cons_append, List.append_assoc]
    rfl
  rw [← hall, ← hread, htext]
  rfl

theorem reads_dict {depth : ℕ} {ms : List (Text × Value)} (hkeys : (ms.map Prod.fst).Nodup)
    (h : ∀ m ∈ ms, Reads (scanOnceWith constants depth) (constants || m.2.isJson) m.2) :
    Reads (scanOnceWith constants (depth + 1)) (constants || (Value.dict ms).isJson)
      (.dict ms) := by
  refine ⟨⟨'\x7b', _, rfl, by decide⟩, fun s _ => ?_⟩
  have hread := @scanObject_dumps _ (fun v => constants || v.isJson) _ h hkeys s
  have hall : (ms.all fun m => constants || m.2.isJson) =
      (constants || (Value.dict ms).isJson) := by
    cases constants with
    | true => simp
    | false => rw [Bool.eq_iff_iff]; simpa [Value.isJson] using isJsonMembers_iff.symm
  have htext : dumpsRaw (.dict ms) ++ s =
      '\x7b' :: (dumpsMembers escapeRaw ms ++ '\x7d' :: s) := by
    rw [dumpsRaw, dumpsWith, List.cons_append, List.append_assoc]
    rfl
  rw [← hall, ← hread, htext]
  rfl

theorem scanOnceWith_eq (constants : Bool) (depth : ℕ) :
    ∃ nested, scanOnceWith constants depth = scanAtWith constants nested := by
  cases depth with
  | zero => exact ⟨_, rfl⟩
  | succ depth => exact ⟨_, rfl⟩

mutual

/-- **Every value is read back**, by induction on it. -/
theorem reads_dumpsRaw : ∀ (v : Value) {depth : ℕ}, Writable depth v →
    Reads (scanOnceWith constants depth) (constants || v.isJson) v
  | .none, depth, _ => by
    obtain ⟨nested, h⟩ := scanOnceWith_eq constants depth
    exact h ▸ reads_constant (.inl rfl)
  | .bool b, depth, _ => by
    obtain ⟨nested, h⟩ := scanOnceWith_eq constants depth
    refine h ▸ reads_constant (.inr ?_)
    cases b with
    | true => exact .inl rfl
    | false => exact .inr rfl
  | .int n, depth, hv => by
    obtain ⟨nested, h⟩ := scanOnceWith_eq constants depth
    have hok : (constants || (Value.int n).isJson) = true := Bool.or_true constants
    rw [h, hok]
    refine reads_int ?_
    cases depth <;> exact hv
  | .float x, depth, _ => by
    obtain ⟨nested, h⟩ := scanOnceWith_eq constants depth
    exact h ▸ reads_float x
  | .str t, depth, _ => by
    obtain ⟨nested, h⟩ := scanOnceWith_eq constants depth
    have hok : (constants || (Value.str t).isJson) = true := Bool.or_true constants
    rw [h, hok]
    exact reads_str t
  | .list items, 0, hv => hv.elim
  | .dict members, 0, hv => hv.elim
  | .list items, _ + 1, hv => reads_list (reads_items items hv)
  | .dict members, _ + 1, hv => reads_dict hv.1 (reads_members members hv.2)

theorem reads_items : ∀ (items : List Value) {depth : ℕ}, WritableItems depth items →
    ∀ v ∈ items, Reads (scanOnceWith constants depth) (constants || v.isJson) v
  | [], _, _, _, hmem => nomatch hmem
  | v :: items, _, h, w, hmem => by
    rcases List.mem_cons.mp hmem with heq | hmem
    · rw [heq]
      exact reads_dumpsRaw v h.1
    · exact reads_items items h.2 w hmem

theorem reads_members : ∀ (ms : List (Text × Value)) {depth : ℕ}, WritableMembers depth ms →
    ∀ m ∈ ms, Reads (scanOnceWith constants depth) (constants || m.2.isJson) m.2
  | [], _, _, _, hmem => nomatch hmem
  | (k, v) :: ms, _, h, m, hmem => by
    rcases List.mem_cons.mp hmem with heq | hmem
    · rw [heq]
      exact reads_dumpsRaw v h.1
    · exact reads_members ms h.2 m hmem

end

/-- **The round trip**, with the constants or without. -/
theorem loadsWith_dumpsRaw {depth : ℕ} {v : Value} (h : Writable depth v) :
    loadsWith constants depth (dumpsRaw v) =
      if constants || v.isJson then .ok v else .error (.decode .expectingValue) := by
  obtain ⟨hbegins, hread⟩ : Reads (scanOnceWith constants depth) (constants || v.isJson) v :=
    reads_dumpsRaw v h
  have hread := hread [] stops_nil
  have hskip := hbegins.skipBlanks []
  rw [List.append_nil] at hread hskip
  have hbom : (dumpsRaw v).head? ≠ some (Char.ofNat 0xfeff) := by
    obtain ⟨c, u, hcu, -, -, -, hc⟩ := hbegins
    rw [hcu]
    exact fun h => hc (Option.some.inj h)
  rw [loadsWith, if_neg hbom, hskip, hread]
  split
  · rfl
  · rfl

theorem loads_dumpsRaw {depth : ℕ} {v : Value} (h : Writable depth v) :
    loads depth (dumpsRaw v) = .ok v := by
  rw [loads_eq, loadsWith_dumpsRaw h, Bool.true_or, if_pos rfl]

theorem loadsWith_of_scan {depth : ℕ} {t : Text} {v : Value} (ht : Begins t)
    (h : scanOnceWith constants depth t = .ok (v, [])) : loadsWith constants depth t = .ok v := by
  obtain ⟨c, u, rfl, hc⟩ := ht
  have hskip : skipBlanks (c :: u) = c :: u :=
    List.dropWhile_cons_of_neg (by simpa using hc.1)
  have hbom : (c :: u).head? ≠ some (Char.ofNat 0xfeff) := fun h => hc.2.2.2 (Option.some.inj h)
  rw [loadsWith, if_neg hbom, hskip, h]
  rfl

/-- An object of one number, as it is written. -/
theorem loadsWith_number {depth : ℕ} {k t : Text} {v : Value} (ht : Begins t)
    (h : scanNumber (t ++ ['\x7d']) = .ok (v, ['\x7d'])) :
    loadsWith constants (depth + 1) ('\x7b' :: (quoted escapeRaw k ++ ": ".toList ++ t ++ ['\x7d'])) =
      .ok (.dict [(k, v)]) := by
  refine loadsWith_of_scan ⟨'\x7b', _, rfl, by decide⟩ ?_
  obtain ⟨nested, hnested⟩ := scanOnceWith_eq constants depth
  have hread : scanOnceWith constants depth (t ++ ['\x7d']) = .ok (v, ['\x7d']) := by
    rw [hnested]
    exact scanAtWith_number h
  have htext : quoted escapeRaw k ++ ": ".toList ++ t ++ ['\x7d'] =
      '"' :: (k.flatMap escapeRaw ++ '"' :: ':' :: ' ' :: (t ++ ['\x7d'])) := by
    rw [quoted, List.append_assoc, List.append_assoc, List.cons_append, List.append_assoc]
    rfl
  have hmembers : ∀ fuel, members (scanOnceWith constants depth) (fuel + 1) []
      ('"' :: (k.flatMap escapeRaw ++ '"' :: ':' :: ' ' :: (t ++ ['\x7d']))) =
        .ok ([(k, v)], []) := by
    intro fuel
    refine members_last (scanString_quoted _ _) ?_
    rw [ht.skipBlank]
    exact hread
  have hobject : scanObject (scanOnceWith constants depth)
      (quoted escapeRaw k ++ ": ".toList ++ t ++ ['\x7d']) = .ok (.dict [(k, v)], []) := by
    have hskip : skipBlanks (quoted escapeRaw k ++ ": ".toList ++ t ++ ['\x7d']) =
        quoted escapeRaw k ++ ": ".toList ++ t ++ ['\x7d'] := by
      rw [List.append_assoc, List.append_assoc]
      exact (begins_quoted k).skipBlanks _
    rw [scanObject, hskip, htext]
    exact congrArg (Except.map fun r : List (Text × Value) × Text => (Value.dict r.1, r.2))
      (hmembers _)
  exact hobject

/-! ## What was read can be written -/

theorem setItem_keys {read : List (Text × Value)} (h : (read.map Prod.fst).Nodup) (k : Text)
    (v : Value) : ((setItem read k v).map Prod.fst).Nodup := by
  by_cases hk : k ∈ read.map Prod.fst
  · have hkeys : (read.map fun m => if m.1 = k then (k, v) else m).map Prod.fst =
        read.map Prod.fst := by
      rw [List.map_map]
      refine List.map_congr_left fun m _ => ?_
      by_cases hm : m.1 = k
      · simp [hm]
      · simp [hm]
    unfold setItem
    split
    · rwa [hkeys]
    · rename_i hnone
      obtain ⟨m, hm, rfl⟩ := List.mem_map.mp hk
      refine absurd ?_ hnone
      rw [List.lookup_isSome_iff]
      exact ⟨m, hm, by simp⟩
  · rw [setItem_fresh hk, List.map_append, List.map_cons, List.map_nil]
    exact h.append (List.nodup_singleton k) (List.disjoint_singleton.mpr hk)

theorem of_mem_setItem {read : List (Text × Value)} {k : Text} {v : Value} {m : Text × Value}
    (h : m ∈ setItem read k v) : m ∈ read ∨ m = (k, v) := by
  unfold setItem at h
  split at h
  · obtain ⟨n, hn, rfl⟩ := List.mem_map.mp h
    split
    · exact .inr rfl
    · exact .inl hn
  · simpa using h

theorem members_writable {scan : Scan Value} {depth : ℕ}
    (hscan : ∀ t v r, scan t = .ok (v, r) → Writable depth v) {fuel : ℕ}
    {read ms : List (Text × Value)} {t r : Text} (h : members scan fuel read t = .ok (ms, r))
    (hkeys : (read.map Prod.fst).Nodup) (hread : ∀ m ∈ read, Writable depth m.2) :
    (ms.map Prod.fst).Nodup ∧ ∀ m ∈ ms, Writable depth m.2 := by
  induction fuel generalizing read t with
  | zero => exact nomatch h
  | succ fuel ih =>
    obtain ⟨t₁, k, t₂, t₃, v, t₄, rfl, -, -, hv, hnext⟩ := members_ok.mp h
    have hkeys := setItem_keys hkeys k v
    have hread : ∀ m ∈ setItem read k v, Writable depth m.2 := by
      intro m hm
      rcases of_mem_setItem hm with hm | rfl
      · exact hread m hm
      · exact hscan _ _ _ hv
    obtain ⟨-, rfl⟩ | ⟨t₅, -, hrest⟩ := hnext
    · exact ⟨hkeys, hread⟩
    · exact ih hrest hkeys hread

theorem elements_writable {scan : Scan Value} {depth : ℕ}
    (hscan : ∀ t v r, scan t = .ok (v, r) → Writable depth v) {fuel : ℕ} {vs : List Value}
    {t r : Text} (h : elements scan fuel t = .ok (vs, r)) : ∀ v ∈ vs, Writable depth v := by
  induction fuel generalizing vs t with
  | zero => exact nomatch h
  | succ fuel ih =>
    obtain ⟨v, t₁, hv, ⟨-, rfl⟩ | ⟨t₂, rest, -, rfl, hrest⟩⟩ := elements_ok.mp h
    · exact List.forall_mem_singleton.mpr (hscan _ _ _ hv)
    · exact List.forall_mem_cons.mpr ⟨hscan _ _ _ hv, ih hrest⟩

theorem scanObject_writable {scan : Scan Value} {depth : ℕ}
    (hscan : ∀ t v r, scan t = .ok (v, r) → Writable depth v) {t r : Text} {v : Value}
    (h : scanObject scan t = .ok (v, r)) : Writable (depth + 1) v := by
  unfold scanObject at h
  split at h
  · cases h
    exact ⟨List.nodup_nil, trivial⟩
  · obtain ⟨⟨ms, r'⟩, hms, hv⟩ := of_map_ok h
    cases hv
    obtain ⟨hkeys, hall⟩ := members_writable hscan hms List.nodup_nil nofun
    exact ⟨hkeys, writableMembers_iff.mpr hall⟩

theorem scanArray_writable {scan : Scan Value} {depth : ℕ}
    (hscan : ∀ t v r, scan t = .ok (v, r) → Writable depth v) {t r : Text} {v : Value}
    (h : scanArray scan t = .ok (v, r)) : Writable (depth + 1) v := by
  unfold scanArray at h
  split at h
  · cases h
    exact trivial
  · obtain ⟨⟨vs, r'⟩, hvs, hv⟩ := of_map_ok h
    cases hv
    exact writableItems_iff.mpr (elements_writable hscan hvs)

theorem digitRun_lt (t : Text) : ∀ d ∈ (digitRun t).1, d < 10 := by
  intro d hd
  obtain ⟨c, hc, rfl⟩ := List.mem_map.mp hd
  have hdigit := List.mem_takeWhile_imp hc
  simp only [isAsciiDigit, Bool.and_eq_true, decide_eq_true_eq] at hdigit
  have hhi : c.toNat ≤ 57 := hdigit.2
  omega

theorem wholePart_lt {t r : Text} {ds : List ℕ} (h : wholePart t = some (ds, r)) :
    ∀ d ∈ ds, d < 10 := by
  unfold wholePart at h
  split at h
  · exact nomatch h
  · rename_i c t
    split_ifs at h with hz hd
    · cases h
      exact List.forall_mem_singleton.mpr (by decide)
    · have hrun := digitRun_lt (c :: t)
      rw [Option.some.inj h] at hrun
      exact hrun

/-- A number that was read is no object and no array, and its digits are within the limit. -/
theorem scanNumber_writable {t r : Text} {v : Value} (h : scanNumber t = .ok (v, r)) (depth : ℕ) :
    Writable depth v := by
  unfold scanNumber at h
  split at h
  · exact nomatch h
  · rename_i ds rest hwhole
    dsimp only at h
    split_ifs at h with hint hlen
    · cases h
      have hds := wholePart_lt hwhole
      have hle := (Nat.digits_length_le_iff (b := 10) (by decide) (ofDigits ds)).mpr (ofDigits_lt hds)
      have habs : (signed (minus t).1 (ofDigits ds)).natAbs = ofDigits ds := by
        unfold signed
        split <;> omega
      have hgoal : (Nat.digits 10 (signed (minus t).1 (ofDigits ds)).natAbs).length ≤
          maxStrDigits := by
        rw [habs]
        omega
      cases depth <;> exact hgoal
    · cases h
      cases depth <;> trivial

theorem literal_writable {t r : Text} {v : Value} (h : literal? t = some (v, r)) (depth : ℕ) :
    Writable depth v := by
  obtain ⟨l, hl, rfl, -⟩ := literal_iff.mp h
  simp only [literals, List.mem_cons, List.not_mem_nil, or_false] at hl
  rcases hl with rfl | rfl | rfl | rfl | rfl | rfl <;> cases depth <;> trivial

theorem scanAt_writable {nested : Option (Scan Value)} {depth : ℕ}
    (hnested : ∀ scan, nested = some scan → ∃ d, depth = d + 1 ∧
      ∀ t v r, scan t = .ok (v, r) → Writable d v)
    {t r : Text} {v : Value} (h : scanAt nested t = .ok (v, r)) : Writable depth v := by
  cases t with
  | nil => exact nomatch h
  | cons c t =>
    simp only [scanAt] at h
    split_ifs at h with hq ho ha
    · obtain ⟨u, -, hu⟩ := of_map_ok h
      cases hu
      cases depth <;> trivial
    · cases hn : nested with
      | none => simp [hn] at h
      | some scan =>
        rw [hn] at h
        obtain ⟨d, rfl, hscan⟩ := hnested scan hn
        exact scanObject_writable hscan h
    · cases hn : nested with
      | none => simp [hn] at h
      | some scan =>
        rw [hn] at h
        obtain ⟨d, rfl, hscan⟩ := hnested scan hn
        exact scanArray_writable hscan h
    · cases hl : literal? (c :: t) with
      | some l =>
        rw [hl] at h
        cases h
        exact literal_writable hl depth
      | none =>
        rw [hl] at h
        exact scanNumber_writable h depth

theorem scanOnce_writable {depth : ℕ} {t r : Text} {v : Value}
    (h : scanOnce depth t = .ok (v, r)) : Writable depth v := by
  induction depth generalizing t r v with
  | zero =>
    refine scanAt_writable ?_ h
    intro scan hscan
    exact nomatch hscan
  | succ depth ih =>
    refine scanAt_writable ?_ h
    intro scan hscan
    cases hscan
    exact ⟨depth, rfl, fun _ _ _ h => ih h⟩

/-- **A value that was read can be written and read back.** -/
theorem loads_writable {depth : ℕ} {t : Text} {v : Value} (h : loads depth t = .ok v) :
    Writable depth v := by
  obtain ⟨-, r, hscan, -⟩ := loads_ok.mp h
  exact scanOnce_writable hscan

end Meridian.Python.Json
