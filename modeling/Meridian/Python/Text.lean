import Mathlib.Data.Nat.Digits.Lemmas

/-!
# Text as Python reads it

A `str` is its list of code points. What the parsers need of Unicode is two tables of the 15.0
database CPython 3.12 ships: the decimal digits (`Nd`, runs of ten), and the characters
`str.isdigit` accepts beyond them (superscripts, circled digits and the like), which `int()`
rejects.

* `digit?` is the value of a decimal digit, `isDigit` is `str.isdigit` on one character.
* `strip` drops the characters `str.isspace` accepts from both ends.
* `takeDigits` is the longest match of `\d*`, with its digits' values.
* `parseInt` is `int(text)`.
-/

namespace Meridian.Python

abbrev Text := List Char

instance : LawfulBEq Text := List.instLawfulBEq

/-- The code points of the decimal zeros; each starts a run of ten digits. -/
def decimalZeros : List Nat :=
  [0x30, 0x660, 0x6f0, 0x7c0, 0x966, 0x9e6, 0xa66, 0xae6, 0xb66, 0xbe6, 0xc66, 0xce6, 0xd66, 0xde6,
   0xe50, 0xed0, 0xf20, 0x1040, 0x1090, 0x17e0, 0x1810, 0x1946, 0x19d0, 0x1a80, 0x1a90, 0x1b50,
   0x1bb0, 0x1c40, 0x1c50, 0xa620, 0xa8d0, 0xa900, 0xa9d0, 0xa9f0, 0xaa50, 0xabf0, 0xff10, 0x104a0,
   0x10d30, 0x11066, 0x110f0, 0x11136, 0x111d0, 0x112f0, 0x11450, 0x114d0, 0x11650, 0x116c0,
   0x11730, 0x118e0, 0x11950, 0x11c50, 0x11d50, 0x11da0, 0x11f50, 0x16a60, 0x16ac0, 0x16b50,
   0x1d7ce, 0x1d7d8, 0x1d7e2, 0x1d7ec, 0x1d7f6, 0x1e140, 0x1e2f0, 0x1e4f0, 0x1e950, 0x1fbf0]

/-- First and last code points of the runs `str.isdigit` accepts though they are no decimal
digits. -/
def otherDigits : List (Nat × Nat) :=
  [(0xb2, 0xb3), (0xb9, 0xb9), (0x1369, 0x1371), (0x19da, 0x19da), (0x2070, 0x2070),
   (0x2074, 0x2079), (0x2080, 0x2089), (0x2460, 0x2468), (0x2474, 0x247c), (0x2488, 0x2490),
   (0x24ea, 0x24ea), (0x24f5, 0x24fd), (0x24ff, 0x24ff), (0x2776, 0x277e), (0x2780, 0x2788),
   (0x278a, 0x2792), (0x10a40, 0x10a43), (0x10e60, 0x10e68), (0x11052, 0x1105a),
   (0x1f100, 0x1f10a)]

/-- First and last code points of the runs of white space. -/
def spaces : List (Nat × Nat) :=
  [(0x9, 0xd), (0x1c, 0x20), (0x85, 0x85), (0xa0, 0xa0), (0x1680, 0x1680), (0x2000, 0x200a),
   (0x2028, 0x2029), (0x202f, 0x202f), (0x205f, 0x205f), (0x3000, 0x3000)]

/-- The value of a decimal digit. -/
def digit? (c : Char) : Option Nat :=
  (decimalZeros.find? fun z => z ≤ c.toNat && c.toNat < z + 10).map (c.toNat - ·)

def inRuns (runs : List (Nat × Nat)) (c : Char) : Bool :=
  runs.any fun r => r.1 ≤ c.toNat && c.toNat ≤ r.2

/-- `c.isdigit()`. -/
def isDigit (c : Char) : Bool := (digit? c).isSome || inRuns otherDigits c

/-- `c.isspace()`. -/
def isSpace (c : Char) : Bool := inRuns spaces c

/-- `text.strip()`. -/
def strip (t : Text) : Text := ((t.dropWhile isSpace).reverse.dropWhile isSpace).reverse

/-- The values of the longest run of decimal digits `t` starts with, and the rest of `t`. -/
def takeDigits : Text → List Nat × Text
  | [] => ([], [])
  | c :: t =>
    match digit? c with
    | some d => (d :: (takeDigits t).1, (takeDigits t).2)
    | none => ([], c :: t)

/-- The number a run of decimal digits spells, most significant first. -/
def ofDigits (ds : List Nat) : Nat := Nat.ofDigits 10 ds.reverse

/-- The digits of `int()`'s literal: single underscores may stand between two digits. -/
def intDigits : Text → Option (List Nat)
  | [] => none
  | [c] => (digit? c).map ([·])
  | c :: '_' :: t =>
    match digit? c, intDigits t with
    | some d, some ds => some (d :: ds)
    | _, _ => none
  | c :: t =>
    match digit? c, intDigits t with
    | some d, some ds => some (d :: ds)
    | _, _ => none

/-- A leading sign: whether it is a minus, and the text after it. -/
def takeSign : Text → Bool × Text
  | '-' :: t => (true, t)
  | '+' :: t => (false, t)
  | t => (false, t)

def signed (neg : Bool) (n : Nat) : Int := if neg then -(n : Int) else n

/-- The digits `int()` converts at most, `sys.int_info.default_max_str_digits`. -/
def maxStrDigits : Nat := 4300

/-- `int(text)`; `none` is the `ValueError`. -/
def parseInt (t : Text) : Option Int :=
  match intDigits (takeSign (strip t)).2 with
  | some ds => if maxStrDigits < ds.length then none
    else some (signed (takeSign (strip t)).1 (ofDigits ds))
  | none => none

/-! ## ASCII digits -/

/-- The character of a digit below ten. -/
def digitChar (d : Nat) : Char := Char.ofNat (0x30 + d)

theorem digit?_digitChar {d : Nat} (h : d < 10) : digit? (digitChar d) = some d := by
  interval_cases d <;> rfl

theorem isSpace_digitChar {d : Nat} (h : d < 10) : isSpace (digitChar d) = false := by
  interval_cases d <;> rfl

theorem isSpace_of_digit {c : Char} {d : Nat} (h : digit? c = some d) : isSpace c = false := by
  have hapart : ∀ z ∈ decimalZeros, ∀ r ∈ spaces, z + 9 < r.1 ∨ r.2 < z := by decide
  obtain ⟨z, hz, -⟩ := Option.map_eq_some_iff.mp h
  have hmem := List.mem_of_find?_eq_some hz
  have hin := List.find?_some hz
  simp only [Bool.and_eq_true, decide_eq_true_eq] at hin
  unfold isSpace inRuns
  rw [List.any_eq_false]
  intro r hr
  have := hapart z hmem r hr
  simp only [Bool.and_eq_true, decide_eq_true_eq]
  omega

theorem strip_eq {t : Text} (h : ∀ c ∈ t, isSpace c = false) : strip t = t := by
  have hdrop : ∀ t : Text, (∀ c ∈ t, isSpace c = false) → t.dropWhile isSpace = t
    | [], _ => rfl
    | c :: t, h => by rw [List.dropWhile_cons, h c List.mem_cons_self]; rfl
  rw [strip, hdrop t h, hdrop _ fun c hc => h c (List.mem_reverse.mp hc), List.reverse_reverse]

/-- What `takeDigits` goes past is digits. -/
theorem mem_takeDigits {t : Text} {c : Char} (h : c ∈ t) :
    (digit? c).isSome ∨ c ∈ (takeDigits t).2 := by
  induction t with
  | nil => cases h
  | cons a t ih =>
    cases ha : digit? a with
    | none =>
      refine .inr ?_
      rw [takeDigits, ha]
      exact h
    | some d =>
      rw [takeDigits, ha]
      rcases List.mem_cons.mp h with rfl | h
      · exact .inl (by rw [ha]; rfl)
      · exact ih h

theorem mem_of_mem_strip {t : Text} {c : Char} (h : c ∈ strip t) : c ∈ t := by
  have hrev := (List.dropWhile_sublist isSpace).subset (List.mem_reverse.mp h)
  exact (List.dropWhile_sublist isSpace).subset (List.mem_reverse.mp hrev)

/-- Runs that end where the class does are the same. -/
theorem run_inj {p : Char → Bool} {v w r r' : Text} (hv : ∀ c ∈ v, p c = true)
    (hw : ∀ c ∈ w, p c = true) (hr : ∀ c ∈ r.head?, p c = false) (hr' : ∀ c ∈ r'.head?, p c = false)
    (h : v ++ r = w ++ r') : v = w ∧ r = r' := by
  have hrun : ∀ {v r : Text}, (∀ c ∈ v, p c = true) → (∀ c ∈ r.head?, p c = false) →
      (v ++ r).takeWhile p = v := by
    intro v r hv hr
    rw [List.takeWhile_append_of_pos hv]
    cases r with
    | nil => simp
    | cons c r => simp [hr c rfl]
  have heq : v = w := by rw [← hrun hv hr, h, hrun hw hr']
  subst heq
  exact ⟨rfl, List.append_cancel_left h⟩

/-- Only a minus makes a sign negative. -/
theorem takeSign_of_not_mem {t : Text} (h : '-' ∉ t) : (takeSign t).1 = false := by
  unfold takeSign
  split
  · exact absurd List.mem_cons_self h
  · rfl
  · rfl

/-- `takeDigits` reads a run of ASCII digits up to the first character that is no digit. -/
theorem takeDigits_map_digitChar {ds : List Nat} (h : ∀ d ∈ ds, d < 10) {t : Text}
    (ht : ∀ c ∈ t.head?, digit? c = none) : takeDigits (ds.map digitChar ++ t) = (ds, t) := by
  induction ds with
  | nil =>
    cases t with
    | nil => rfl
    | cons c t =>
      rw [List.map_nil, List.nil_append, takeDigits, ht c rfl]
  | cons d ds ih =>
    rw [List.map_cons, List.cons_append, takeDigits, digit?_digitChar (h d List.mem_cons_self),
      ih fun d' hd' => h d' (List.mem_cons_of_mem d hd')]

theorem ofDigits_append (ds es : List Nat) :
    ofDigits (ds ++ es) = ofDigits ds * 10 ^ es.length + ofDigits es := by
  simp [ofDigits, Nat.ofDigits_append, add_comm, mul_comm]

@[simp] theorem ofDigits_nil : ofDigits [] = 0 := rfl

theorem ofDigits_replicate_zero (n : Nat) : ofDigits (List.replicate n 0) = 0 := by
  simp [ofDigits, Nat.ofDigits_replicate_zero]

/-- A number spelled by `n` digits is below `10 ^ n`. -/
theorem ofDigits_lt {ds : List Nat} (h : ∀ d ∈ ds, d < 10) : ofDigits ds < 10 ^ ds.length := by
  have := Nat.ofDigits_lt_base_pow_length (b := 10) (l := ds.reverse) (by decide)
    fun d hd => h d (List.mem_reverse.mp hd)
  rwa [List.length_reverse] at this

end Meridian.Python
