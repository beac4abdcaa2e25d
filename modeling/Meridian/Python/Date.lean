import Meridian.Python.Text

/-!
# Dates

A `date` is its proleptic Gregorian ordinal, `date.toordinal()`: 1 is 0001-01-01 and `maxOrdinal`
9999-12-31. A UTC `datetime` counts microseconds on the same scale, so its `.date()` is `dateOf`.
Arithmetic that leaves the calendar is an `OverflowError`.

* `ordinal` is `date(y, m, d)`, `parseDate` is `datetime.strptime(text, "%Y-%m-%d").date()`.
* `addDays` is `d + timedelta(days=n)`.
* `CalendarDate` is a date by its fields.
* `parseDate_isoFormat`, `exists_ordinal`: every date of the calendar reads back from its ISO text.
-/

namespace Meridian.Python

def isLeap (y : Nat) : Bool := y % 4 = 0 && (y % 100 ≠ 0 || y % 400 = 0)

def daysInMonth (y m : Nat) : Nat :=
  if m = 2 then if isLeap y then 29 else 28
  else if m = 4 ∨ m = 6 ∨ m = 9 ∨ m = 11 then 30 else 31

def daysBeforeMonth (y m : Nat) : Nat := ((List.range' 1 (m - 1)).map (daysInMonth y)).sum

def daysBeforeYear (y : Nat) : Nat := (y - 1) * 365 + (y - 1) / 4 - (y - 1) / 100 + (y - 1) / 400

/-- `date(y, m, d)`; `none` is the `ValueError`. -/
def ordinal (y m d : Nat) : Option Int :=
  if 1 ≤ y ∧ y ≤ 9999 ∧ 1 ≤ m ∧ m ≤ 12 ∧ 1 ≤ d ∧ d ≤ daysInMonth y m then
    some (daysBeforeYear y + daysBeforeMonth y m + d : Nat)
  else none

def maxOrdinal : Int := 3652059

/-- The largest number of days in a `timedelta`. -/
def maxDays : Int := 999999999

/-- `d + timedelta(days=n)`; `none` is the `OverflowError`. -/
def addDays (d n : Int) : Option Int :=
  if -maxDays ≤ n ∧ n ≤ maxDays ∧ 1 ≤ d + n ∧ d + n ≤ maxOrdinal then some (d + n) else none

def microsPerDay : Int := 86400000000

/-- `t.date()`. -/
def dateOf (t : Int) : Int := t / microsPerDay

/-! ## `strptime` -/

/-- `[lo-hi]` of ASCII digits. -/
def asciiDigit? (lo hi : Nat) (c : Char) : Option Nat :=
  if 0x30 + lo ≤ c.toNat ∧ c.toNat ≤ 0x30 + hi then some (c.toNat - 0x30) else none

/-- `%Y-`: four decimal digits. -/
def year? : Text → Option (Nat × Text)
  | a :: b :: c :: d :: '-' :: t =>
    match digit? a, digit? b, digit? c, digit? d with
    | some a, some b, some c, some d => some (ofDigits [a, b, c, d], t)
    | _, _, _, _ => none
  | _ => none

/-- `%m-`: `1[0-2]|0[1-9]|[1-9]`. -/
def month? : Text → Option (Nat × Text)
  | '1' :: c :: '-' :: t => (asciiDigit? 0 2 c).map fun d => (10 + d, t)
  | '0' :: c :: '-' :: t => (asciiDigit? 1 9 c).map fun d => (d, t)
  | c :: '-' :: t => (asciiDigit? 1 9 c).map fun d => (d, t)
  | _ => none

/-- `%d` and nothing after it: `3[0-1]|[1-2]\d|0[1-9]|[1-9]| [1-9]`. -/
def day? : Text → Option Nat
  | [c] => asciiDigit? 1 9 c
  | ['3', c] => (asciiDigit? 0 1 c).map (30 + ·)
  | ['1', c] => (digit? c).map (10 + ·)
  | ['2', c] => (digit? c).map (20 + ·)
  | ['0', c] => asciiDigit? 1 9 c
  | [' ', c] => asciiDigit? 1 9 c
  | _ => none

/-- `datetime.strptime(t, "%Y-%m-%d").date()`; `none` is the `ValueError`. -/
def parseDate (t : Text) : Option Int := do
  let (y, t) ← year? t
  let (m, t) ← month? t
  let d ← day? t
  ordinal y m d

example : parseDate ['2', '0', '2', '6', '-', '5', '-', '3', '1'] = some 739767 := by decide

/-! ## ISO text

Every date of the calendar has one, and `strptime` reads it back. -/

def twoDigits (n : Nat) : Text := [digitChar (n / 10), digitChar (n % 10)]

/-- `date(y, m, d).isoformat()`. -/
def isoFormat (y m d : Nat) : Text :=
  twoDigits (y / 100) ++ twoDigits (y % 100) ++ '-' :: (twoDigits m ++ '-' :: twoDigits d)

/-- A date by its fields. -/
structure CalendarDate where
  year : Nat
  month : Nat
  day : Nat
  valid : (ordinal year month day).isSome

/-- `datetime.date(y, m, d)`; `none` is the `ValueError`. -/
def calendarDate (y m d : Nat) : Option CalendarDate :=
  if h : (ordinal y m d).isSome then some ⟨y, m, d, h⟩ else none

/-- `d.isoformat()` -/
def CalendarDate.isoFormat (d : CalendarDate) : Text := Python.isoFormat d.year d.month d.day

/-- A month has its first 28 days. -/
theorem calendarDate_isSome {y m d : Nat} (hy : 1 ≤ y) (hm : 1 ≤ m) (hm' : m ≤ 12) (hd : 1 ≤ d)
    (hd' : d ≤ 28) : (calendarDate y m d).isSome ↔ y ≤ 9999 := by
  have hdays : 28 ≤ daysInMonth y m := by
    unfold daysInMonth
    split_ifs <;> decide
  unfold calendarDate ordinal
  by_cases h : y ≤ 9999
  · simp [h, hy, hm, hm', hd, hd'.trans hdays]
  · simp [h]

/-- `date.fromordinal(n).isoformat()` -/
def isoDate (n : Int) : Text :=
  let y := Nat.findGreatest (fun y => (daysBeforeYear y : Int) < n) 9999
  let m := Nat.findGreatest (fun m => (daysBeforeYear y + daysBeforeMonth y m : Int) < n) 12
  isoFormat y m (n - (daysBeforeYear y + daysBeforeMonth y m)).toNat

example : isoDate 739767 = ['2', '0', '2', '6', '-', '0', '5', '-', '3', '1'] := by decide +kernel

theorem year?_isoFormat {y : Nat} (hy : y ≤ 9999) (t : Text) :
    year? (twoDigits (y / 100) ++ twoDigits (y % 100) ++ '-' :: t) = some (y, t) := by
  have hvalue : ofDigits [y / 100 / 10, y / 100 % 10, y % 100 / 10, y % 100 % 10] = y := by
    simp only [ofDigits, List.reverse_cons, List.reverse_nil, List.nil_append, List.cons_append,
      Nat.ofDigits_cons, Nat.ofDigits_nil]
    push_cast
    omega
  simp only [twoDigits, List.cons_append, List.nil_append, year?]
  rw [digit?_digitChar (by omega), digit?_digitChar (by omega), digit?_digitChar (by omega),
    digit?_digitChar (by omega)]
  simp only [hvalue]

theorem month?_twoDigits {m : Nat} (h : 1 ≤ m) (h' : m ≤ 12) (t : Text) :
    month? (twoDigits m ++ '-' :: t) = some (m, t) := by
  interval_cases m <;> rfl

theorem day?_twoDigits {d : Nat} (h : 1 ≤ d) (h' : d ≤ 31) : day? (twoDigits d) = some d := by
  interval_cases d <;> rfl

theorem daysInMonth_le (y m : Nat) : daysInMonth y m ≤ 31 := by
  unfold daysInMonth
  split_ifs <;> omega

theorem ordinal_range {y m d : Nat} {n : Int} (h : ordinal y m d = some n) :
    y ≤ 9999 ∧ 1 ≤ m ∧ m ≤ 12 ∧ 1 ≤ d ∧ d ≤ 31 := by
  unfold ordinal at h
  split at h
  · rename_i hin
    exact ⟨hin.2.1, hin.2.2.1, hin.2.2.2.1, hin.2.2.2.2.1,
      hin.2.2.2.2.2.trans (daysInMonth_le y m)⟩
  · cases h

theorem parseDate_isoFormat {y m d : Nat} {n : Int} (h : ordinal y m d = some n) :
    parseDate (isoFormat y m d) = some n := by
  obtain ⟨hy, hm, hm', hd, hd'⟩ := ordinal_range h
  rw [isoFormat, parseDate, year?_isoFormat hy]
  simp only [Option.bind_eq_bind, Option.bind_some]
  rw [month?_twoDigits hm hm']
  simp only [Option.bind_some]
  rw [day?_twoDigits hd hd']
  exact h

theorem isSpace_twoDigits {n : Nat} (h : n < 100) : ∀ c ∈ twoDigits n, isSpace c = false := by
  intro c hc
  rcases List.mem_pair.mp hc with rfl | rfl
  · exact isSpace_digitChar (by omega)
  · exact isSpace_digitChar (by omega)

theorem strip_isoFormat {y m d : Nat} {n : Int} (h : ordinal y m d = some n) :
    strip (isoFormat y m d) = isoFormat y m d := by
  obtain ⟨hy, -, hm, -, hd⟩ := ordinal_range h
  refine strip_eq fun c hc => ?_
  simp only [isoFormat, List.mem_append, List.mem_cons] at hc
  rcases hc with (hc | hc) | rfl | hc | rfl | hc
  · exact isSpace_twoDigits (by omega) c hc
  · exact isSpace_twoDigits (by omega) c hc
  · rfl
  · exact isSpace_twoDigits (by omega) c hc
  · rfl
  · exact isSpace_twoDigits (by omega) c hc

/-- A step function passes every value between two of its own. -/
theorem exists_between (f : Nat → Nat) {n lo hi : Nat} (hlo : f lo < n) (hhi : n ≤ f hi)
    (hle : lo ≤ hi) : ∃ k, lo ≤ k ∧ k < hi ∧ f k < n ∧ n ≤ f (k + 1) := by
  induction hi, hle using Nat.le_induction with
  | base => omega
  | succ hi hle ih =>
    by_cases h : n ≤ f hi
    · obtain ⟨k, hk, hk', hf⟩ := ih h
      exact ⟨k, hk, by omega, hf⟩
    · exact ⟨hi, hle, by omega, by omega, hhi⟩

theorem daysBeforeMonth_succ (y : Nat) {m : Nat} (h : 1 ≤ m) :
    daysBeforeMonth y (m + 1) = daysBeforeMonth y m + daysInMonth y m := by
  obtain ⟨k, rfl⟩ : ∃ k, m = k + 1 := ⟨m - 1, by omega⟩
  simp [daysBeforeMonth, List.range'_concat, Nat.add_comm]

theorem daysBeforeMonth_leap (y : Nat) :
    daysBeforeMonth y 13 = 365 + if isLeap y then 1 else 0 := by
  cases hl : isLeap y <;> simp [daysBeforeMonth, List.range', daysInMonth, hl]

theorem isLeap_iff (y : Nat) : isLeap y = true ↔ 4 ∣ y ∧ (¬ 100 ∣ y ∨ 400 ∣ y) := by
  simp [isLeap, Nat.dvd_iff_mod_eq_zero]

theorem daysBeforeYear_succ {y : Nat} (h : 1 ≤ y) :
    daysBeforeYear (y + 1) = daysBeforeYear y + daysBeforeMonth y 13 := by
  obtain ⟨k, rfl⟩ : ∃ k, y = k + 1 := ⟨y - 1, by omega⟩
  have hle : k / 100 ≤ k / 4 := Nat.div_le_div_left (by decide) (by decide)
  have h100 : 100 ∣ k + 1 → 4 ∣ k + 1 := (by decide : 4 ∣ 100).trans
  have h400 : 400 ∣ k + 1 → 100 ∣ k + 1 := (by decide : 100 ∣ 400).trans
  rw [daysBeforeMonth_leap]
  unfold daysBeforeYear
  simp only [Nat.add_sub_cancel, Nat.succ_div, isLeap_iff]
  generalize k / 4 = q₄, k / 100 = q₁₀₀ at *
  by_cases c4 : 4 ∣ k + 1
  · by_cases c100 : 100 ∣ k + 1
    · by_cases c400 : 400 ∣ k + 1
      · simp only [c4, c100, c400, if_true, not_true_eq_false, or_true, and_self]
        omega
      · simp only [c4, c100, c400, if_true, if_false, not_true_eq_false, or_self, and_false]
        omega
    · have c400 : ¬ 400 ∣ k + 1 := fun hc => c100 (h400 hc)
      simp only [c4, c100, c400, if_true, if_false, not_false_eq_true, true_or, and_self]
      omega
  · have c100 : ¬ 100 ∣ k + 1 := fun hc => c4 (h100 hc)
    have c400 : ¬ 400 ∣ k + 1 := fun hc => c100 (h400 hc)
    simp only [c4, c100, c400, if_false, false_and]
    omega

/-- A day of the next month is later. -/
theorem ordinal_lt_next {y m d : Nat} {a b : Int} (ha : ordinal y m d = some a)
    (hb : ordinal (y + m / 12) (m % 12 + 1) d = some b) : a < b := by
  unfold ordinal at ha hb
  split at ha
  · rename_i hfields
    split at hb
    · cases ha
      cases hb
      obtain ⟨hy, -, hm, hm', hd, hd'⟩ := hfields
      have hmonth := daysBeforeMonth_succ y hm
      rcases Nat.lt_or_eq_of_le hm' with hlt | rfl
      · rw [Nat.div_eq_of_lt hlt, Nat.mod_eq_of_lt hlt, Nat.add_zero, hmonth]
        omega
      · have hyear := daysBeforeYear_succ hy
        have hfirst : daysBeforeMonth (y + 1) 1 = 0 := rfl
        rw [show 12 / 12 = 1 from rfl, show 12 % 12 + 1 = 1 from rfl, hyear, hmonth, hfirst]
        omega
    · cases hb
  · cases ha

/-- Every ordinal of the calendar is a date's. -/
theorem exists_ordinal {n : Int} (h : 1 ≤ n) (h' : n ≤ maxOrdinal) :
    ∃ y m d, ordinal y m d = some n := by
  obtain ⟨n, rfl⟩ := Int.eq_ofNat_of_zero_le (by omega : 0 ≤ n)
  have hmax : n ≤ daysBeforeYear 10000 := by
    have : daysBeforeYear 10000 = 3652059 := by decide
    unfold maxOrdinal at h'
    omega
  have hfirst : daysBeforeYear 1 < n := by
    rw [show daysBeforeYear 1 = 0 from rfl]
    omega
  obtain ⟨y, hy, hy', hlo, hhi⟩ := exists_between daysBeforeYear hfirst hmax (by decide)
  rw [daysBeforeYear_succ hy] at hhi
  have hfirst : daysBeforeMonth y 1 < n - daysBeforeYear y := by
    rw [show daysBeforeMonth y 1 = 0 from rfl]
    omega
  have hlast : n - daysBeforeYear y ≤ daysBeforeMonth y 13 := by omega
  obtain ⟨m, hm, hm', hlo', hhi'⟩ := exists_between (daysBeforeMonth y) hfirst hlast (by decide)
  rw [daysBeforeMonth_succ y hm] at hhi'
  refine ⟨y, m, n - daysBeforeYear y - daysBeforeMonth y m, ?_⟩
  rw [ordinal, if_pos ⟨hy, by omega, hm, by omega, by omega, by omega⟩]
  congr 1
  omega

end Meridian.Python
