import Meridian.Python.JsonWritten

/-!
# What `json.dumps` writes in ASCII

* `scanString_escaped`: a string with every character outside printable ASCII escaped is read back,
  those beyond the basic plane from their surrogate pairs.
* `dumps_injective`: two flat lists with one text are the same.
-/

namespace Meridian.Python

namespace Json

/-! ## Strings -/

theorem joinPieces_unit {n : ℕ} (h : isHigh n = false) (rest : List Piece) :
    joinPieces (.unit n :: rest) = loneUnit n :: joinPieces rest := by
  cases rest with
  | nil => rfl
  | cons p rest =>
    cases p with
    | char c => rfl
    | unit m => rw [joinPieces, h]; rfl

/-- A scalar value is no surrogate. -/
theorem not_surrogate (c : Char) : isHigh c.toNat = false ∧ isLow c.toNat = false := by
  have hvalid : c.toNat < 0xd800 ∨ 0xdfff < c.toNat ∧ c.toNat < 0x110000 := c.valid
  unfold isHigh isLow
  constructor <;> simp <;> omega

theorem loneUnit_toNat (c : Char) : loneUnit c.toNat = c := by
  obtain ⟨hhigh, hlow⟩ := not_surrogate c
  rw [loneUnit, hhigh, hlow]
  exact Char.ofNat_toNat c

/-- The surrogate pair of a character beyond the basic plane. -/
theorem joinPieces_pair {c : Char} (h : 0x10000 ≤ c.toNat) (rest : List Piece) :
    joinPieces (.unit (0xd800 + (c.toNat - 0x10000) / 1024) ::
      .unit (0xdc00 + (c.toNat - 0x10000) % 1024) :: rest) = c :: joinPieces rest := by
  have hvalid : c.toNat < 0xd800 ∨ 0xdfff < c.toNat ∧ c.toNat < 0x110000 := c.valid
  have hhigh : isHigh (0xd800 + (c.toNat - 0x10000) / 1024) = true := by
    simp [isHigh]
    omega
  have hlow : isLow (0xdc00 + (c.toNat - 0x10000) % 1024) = true := by
    simp [isLow]
    omega
  have hvalue : 0x10000 + 0x400 * (0xd800 + (c.toNat - 0x10000) / 1024 - 0xd800) +
      (0xdc00 + (c.toNat - 0x10000) % 1024 - 0xdc00) = c.toNat := by omega
  rw [joinPieces, hhigh, hlow, hvalue, Char.ofNat_toNat]
  rfl

theorem scanPieces_itemUnit {n : ℕ} (h : n < 0x10000) (d : Char) (t : Text) :
    scanPieces (Item.unit n ++ d :: t) =
      (scanPieces (d :: t)).map fun r => (.unit n :: r.1, r.2) :=
  scanPieces_unit (unit?_hexDigits h) t

/-- What a character of a literal is written as is read as pieces that make it up. -/
structure Escapes (c : Char) (ps : List Piece) : Prop where
  scans : ∀ d t, scanPieces (Item.escape c ++ d :: t) =
    (scanPieces (d :: t)).map fun r => (ps ++ r.1, r.2)
  joins : ∀ rest, joinPieces (ps ++ rest) = c :: joinPieces rest

theorem escape_pieces (c : Char) : ∃ ps, Escapes c ps := by
  by_cases hraw : c = '"' ∨ c = '\\' ∨ c.toNat < 0x20
  · -- the two ways to escape agree
    have hescape : escapeRaw c = Item.escape c := if_pos hraw
    rcases escapeRaw_cases c with ⟨e, he, hc, h⟩ | ⟨hc, h⟩ | ⟨hq, hb, hc, -⟩
    · refine ⟨[.char c], fun d t => ?_, fun _ => rfl⟩
      rw [← hescape, h]
      exact scanPieces_escaped he hc _
    · refine ⟨[.unit c.toNat], fun d t => ?_, fun rest => ?_⟩
      · rw [← hescape, h]
        exact scanPieces_itemUnit (by omega) d t
      · rw [List.singleton_append, joinPieces_unit (not_surrogate c).1, loneUnit_toNat]
    · exact absurd hraw (by simp [hq, hb, hc])
  obtain ⟨hq, hrest⟩ := not_or.mp hraw
  obtain ⟨hb, hc⟩ := not_or.mp hrest
  have heq : ∀ d : Char, d.toNat < 0x20 → c ≠ d := fun d hd h => hc (h ▸ hd)
  have hescape : Item.escape c = if 0x20 ≤ c.toNat ∧ c.toNat ≤ 0x7e then [c]
      else if c.toNat < 0x10000 then Item.unit c.toNat
      else Item.unit (0xd800 + (c.toNat - 0x10000) / 1024) ++
        Item.unit (0xdc00 + (c.toNat - 0x10000) % 1024) := by
    rw [Item.escape, if_neg hq, if_neg hb, if_neg (heq _ (by decide)), if_neg (heq _ (by decide)),
      if_neg (heq _ (by decide)), if_neg (by omega), if_neg (by omega)]
  by_cases hplain : 0x20 ≤ c.toNat ∧ c.toNat ≤ 0x7e
  · refine ⟨[.char c], fun d t => ?_, fun _ => rfl⟩
    rw [hescape, if_pos hplain]
    exact scanPieces_char hq hb hc _
  by_cases hplane : c.toNat < 0x10000
  · refine ⟨[.unit c.toNat], fun d t => ?_, fun rest => ?_⟩
    · rw [hescape, if_neg hplain, if_pos hplane]
      exact scanPieces_itemUnit hplane d t
    · rw [List.singleton_append, joinPieces_unit (not_surrogate c).1, loneUnit_toNat]
  · have hvalid : c.toNat < 0xd800 ∨ 0xdfff < c.toNat ∧ c.toNat < 0x110000 := c.valid
    refine ⟨[.unit _, .unit _], fun d t => ?_, joinPieces_pair (not_lt.mp hplane)⟩
    rw [hescape, if_neg hplain, if_neg hplane, List.append_assoc]
    obtain ⟨e, u, hlow⟩ : ∃ e u,
        Item.unit (0xdc00 + (c.toNat - 0x10000) % 1024) ++ d :: t = e :: u := ⟨_, _, rfl⟩
    rw [hlow, scanPieces_itemUnit (by omega), ← hlow, scanPieces_itemUnit (by omega)]
    cases scanPieces (d :: t) <;> rfl

theorem scanPieces_escapedText (t s : Text) :
    ∃ ps, joinPieces ps = t ∧ scanPieces (t.flatMap Item.escape ++ '"' :: s) = .ok (ps, s) := by
  induction t with
  | nil => exact ⟨[], rfl, scanPieces_quote s⟩
  | cons c t ih =>
    obtain ⟨ps, hps, hscan⟩ := ih
    obtain ⟨d, u, hdu⟩ : ∃ d u, t.flatMap Item.escape ++ '"' :: s = d :: u := by
      cases t.flatMap Item.escape with
      | nil => exact ⟨_, _, rfl⟩
      | cons d u => exact ⟨_, _, rfl⟩
    obtain ⟨qs, hqs⟩ := escape_pieces c
    refine ⟨qs ++ ps, by rw [hqs.joins, hps], ?_⟩
    rw [List.flatMap_cons, List.append_assoc, hdu, hqs.scans, ← hdu, hscan]
    rfl

/-- **A string is read back.** -/
theorem scanString_escaped (t s : Text) :
    scanString (t.flatMap Item.escape ++ '"' :: s) = .ok (t, s) := by
  obtain ⟨ps, hps, hscan⟩ := scanPieces_escapedText t s
  rw [scanString, hscan, ← hps]
  rfl

end Json

/-! ## Flat lists -/

theorem digitChar_inj {d e : ℕ} (hd : d < 10) (he : e < 10) (h : digitChar d = digitChar e) :
    d = e := by
  have hdigit := digit?_digitChar hd
  rw [h, digit?_digitChar he] at hdigit
  exact (Option.some.inj hdigit).symm

theorem map_digitChar_inj {ds es : List ℕ} (hds : ∀ d ∈ ds, d < 10) (hes : ∀ d ∈ es, d < 10)
    (h : ds.map digitChar = es.map digitChar) : ds = es := by
  induction ds generalizing es with
  | nil => exact (List.map_eq_nil_iff.mp h.symm).symm
  | cons d ds ih =>
    cases es with
    | nil => cases h
    | cons e es =>
      obtain ⟨hhead, htail⟩ := List.cons.inj h
      rw [digitChar_inj (hds d List.mem_cons_self) (hes e List.mem_cons_self) hhead,
        ih (fun d hd => hds d (List.mem_cons_of_mem _ hd))
          (fun d hd => hes d (List.mem_cons_of_mem _ hd)) htail]

namespace Item

/-- The digits of an integer, `0` among them. -/
def figures (n : ℤ) : List ℕ := if n = 0 then [0] else (Nat.digits 10 n.natAbs).reverse

theorem figures_lt (n : ℤ) : ∀ d ∈ figures n, d < 10 := by
  unfold figures
  split_ifs with h
  · simp
  · exact fun d hd => Nat.digits_lt_base (by decide) (List.mem_reverse.mp hd)

theorem intText_eq (n : ℤ) :
    intText n = (if n < 0 then ['-'] else []) ++ (figures n).map digitChar := by
  unfold intText figures
  by_cases h : n = 0 <;> simp [h, digitChar]

theorem figures_inj {m n : ℤ} (h : figures m = figures n) (hsign : m < 0 ↔ n < 0) : m = n := by
  have habs : ofDigits (figures m) = m.natAbs ∧ ofDigits (figures n) = n.natAbs := by
    have hvalue : ∀ k : ℤ, ofDigits (figures k) = k.natAbs := by
      intro k
      unfold figures ofDigits
      by_cases hk : k = 0
      · simp [hk]
      · rw [if_neg hk, List.reverse_reverse, Nat.ofDigits_digits]
    exact ⟨hvalue m, hvalue n⟩
  have := habs.1.symm.trans (congrArg ofDigits h |>.trans habs.2)
  omega

theorem intText_inj {m n : ℤ} (h : intText m = intText n) : m = n := by
  have hhead : ∀ k : ℤ, '-' ∉ (figures k).map digitChar := by
    intro k hmem
    obtain ⟨d, hd, hc⟩ := List.mem_map.mp hmem
    have hdigit := digit?_digitChar (figures_lt k d hd)
    rw [hc] at hdigit
    cases hdigit
  rw [intText_eq, intText_eq] at h
  by_cases hm : m < 0 <;> by_cases hn : n < 0
  · rw [if_pos hm, if_pos hn] at h
    exact figures_inj (map_digitChar_inj (figures_lt m) (figures_lt n) (List.append_cancel_left h))
      (iff_of_true hm hn)
  · rw [if_pos hm, if_neg hn] at h
    exact absurd (by rw [List.nil_append] at h; rw [← h]; exact List.mem_cons_self) (hhead n)
  · rw [if_neg hm, if_pos hn] at h
    exact absurd (by rw [List.nil_append] at h; rw [h]; exact List.mem_cons_self) (hhead m)
  · rw [if_neg hm, if_neg hn] at h
    exact figures_inj (map_digitChar_inj (figures_lt m) (figures_lt n) h) (iff_of_false hm hn)

/-- What an integer is written with. -/
def intChar (c : Char) : Bool := c = '-' || (digit? c).isSome

theorem intChar_of_mem {n : ℤ} : ∀ c ∈ intText n, intChar c = true := by
  intro c hc
  rw [intText_eq, List.mem_append] at hc
  rcases hc with hc | hc
  · split_ifs at hc
    · rw [List.mem_singleton.mp hc]
      rfl
    · cases hc
  · obtain ⟨d, hd, rfl⟩ := List.mem_map.mp hc
    simp [intChar, digit?_digitChar (figures_lt n d hd)]

theorem intText_head (n : ℤ) : ∃ c t, intText n = c :: t ∧ intChar c = true := by
  have hne : intText n ≠ [] := by
    rw [intText_eq]
    simp [figures]
    intro _
    split_ifs <;> simp_all
  obtain ⟨c, t, h⟩ := List.exists_cons_of_ne_nil hne
  exact ⟨c, t, h, intChar_of_mem c (by rw [h]; exact List.mem_cons_self)⟩

/-- What stands after an item. -/
def Ended (t : Text) : Prop := ∃ c u, t = c :: u ∧ (c = ',' ∨ c = ']')

theorem Ended.head {t : Text} (h : Ended t) : ∀ c ∈ t.head?, intChar c = false := by
  obtain ⟨c, u, rfl, hc⟩ := h
  intro d hd
  obtain rfl : c = d := Option.some.inj hd
  rcases hc with rfl | rfl <;> decide

/-- **An item ends where it ends**: no text of an item goes on as that of another. -/
theorem dump_append {x y : Item} {s t : Text} (hs : Ended s) (ht : Ended t)
    (h : x.dump ++ s = y.dump ++ t) : x = y ∧ s = t := by
  have hnum : ∀ {n : ℤ} {c : Char} {u v : Text}, intChar c = false →
      intText n ++ u ≠ c :: v := by
    intro n c u v hc h
    obtain ⟨d, w, hd, hint⟩ := intText_head n
    rw [hd] at h
    rw [(List.cons.inj h).1, hc] at hint
    cases hint
  cases x with
  | null =>
    cases y with
    | null => exact ⟨rfl, List.append_cancel_left h⟩
    | int n => exact absurd h.symm (hnum (by decide))
    | text v => cases h
  | int m =>
    cases y with
    | null => exact absurd h (hnum (by decide))
    | int n =>
      obtain ⟨htext, hrest⟩ := run_inj intChar_of_mem intChar_of_mem hs.head ht.head h
      exact ⟨congrArg Item.int (intText_inj htext), hrest⟩
    | text v => exact absurd h (hnum (by decide))
  | text u =>
    cases y with
    | null => cases h
    | int n => exact absurd h.symm (hnum (by decide))
    | text v =>
      have hquoted : u.flatMap escape ++ '"' :: s = v.flatMap escape ++ '"' :: t := by
        simpa [dump] using h
      have hread := Json.scanString_escaped u s
      rw [hquoted, Json.scanString_escaped v t] at hread
      cases hread
      exact ⟨rfl, rfl⟩

end Item

/-- The items and the closing bracket. -/
def dumpRest (items : List Item) : Text := ((items.map Item.dump).intersperse [',']).flatten ++ [']']

theorem dumpRest_cons (x : Item) (items : List Item) : ∃ s, dumpRest (x :: items) = x.dump ++ s ∧
    Item.Ended s ∧ (items = [] ∧ s = [']'] ∨ items ≠ [] ∧ s = ',' :: dumpRest items) := by
  cases items with
  | nil => exact ⟨[']'], by simp [dumpRest], ⟨_, _, rfl, .inr rfl⟩, .inl ⟨rfl, rfl⟩⟩
  | cons y items =>
    exact ⟨',' :: dumpRest (y :: items), by simp [dumpRest], ⟨_, _, rfl, .inl rfl⟩,
      .inr ⟨List.cons_ne_nil _ _, rfl⟩⟩

theorem dumpRest_ne (x : Item) (items : List Item) : dumpRest (x :: items) ≠ [']'] := by
  obtain ⟨s, hs, -, -⟩ := dumpRest_cons x items
  rw [hs]
  cases x with
  | null => simp [Item.dump]
  | int n =>
    obtain ⟨c, t, hc, hint⟩ := Item.intText_head n
    intro h
    rw [Item.dump, hc] at h
    rw [(List.cons.inj h).1] at hint
    cases hint
  | text t => simp [Item.dump]

theorem dumpRest_inj : ∀ {l m : List Item}, dumpRest l = dumpRest m → l = m
  | [], [], _ => rfl
  | [], y :: m, h => absurd h.symm (dumpRest_ne y m)
  | x :: l, [], h => absurd h (dumpRest_ne x l)
  | x :: l, y :: m, h => by
    obtain ⟨s, hs, hended, hl⟩ := dumpRest_cons x l
    obtain ⟨t, ht, hended', hm⟩ := dumpRest_cons y m
    rw [hs, ht] at h
    obtain ⟨rfl, rfl⟩ := Item.dump_append hended hended' h
    rcases hl with ⟨rfl, rfl⟩ | ⟨hne, rfl⟩ <;> rcases hm with ⟨rfl, hm⟩ | ⟨hne', hm⟩
    · rfl
    · cases hm
    · cases hm
    · rw [dumpRest_inj (List.cons.inj hm).2]

/-- **A flat list is told by its text.** -/
theorem dumps_injective : Function.Injective dumps := fun _ _ h =>
  dumpRest_inj (List.cons.inj h).2

end Meridian.Python
