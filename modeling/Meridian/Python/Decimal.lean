import Meridian.Python.Text

/-!
# Decimal numbers under the default context

A finite `Decimal` is a sign, a coefficient and an exponent. The default context has 28 digits of
precision, rounds half to even and traps `InvalidOperation` and `Overflow`, so an operation either
returns a `Decimal` or raises one of the two. Infinities and NaNs are left out: no caller passes
text that spells one.

* `ofText` is the constructor `Decimal(text)`, which is exact.
* `fix` is the rounding every operation ends with; `fix_eq` says that it keeps a number of at most
  28 digits in the exponent range.
* `mul`, `scaleb`, `quantizeUnit` (`quantize(Decimal("1"), ROUND_HALF_UP)`), `toIntegralValue`,
  `toInt` and `numEq` are the operations the money code uses.
-/

namespace Meridian.Python

/-- What a decimal operation raises. -/
inductive Signal
  | invalidOperation
  | overflow
  deriving DecidableEq

/-- `(-1) ^ neg * coeff * 10 ^ exp`. -/
structure Decimal where
  neg : Bool
  coeff : Nat
  exp : Int
  deriving DecidableEq

namespace Decimal

/-! ## The constructor -/

/-- The fraction of a literal, when there is one. -/
def takeFraction : Text → List Nat × Text
  | '.' :: t => takeDigits t
  | t => ([], t)

/-- The exponent of a literal and nothing after it. -/
def exponent? : Text → Option Int
  | [] => some 0
  | c :: t =>
    if c = 'e' ∨ c = 'E' then
      if (takeDigits (takeSign t).2).1 = [] ∨ (takeDigits (takeSign t).2).2 ≠ [] then none
      else some (signed (takeSign t).1 (ofDigits (takeDigits (takeSign t).2).1))
    else none

/-- The number after the sign. -/
def unsigned? (neg : Bool) (t : Text) : Option Decimal :=
  let i := takeDigits t
  let f := takeFraction i.2
  if i.1 = [] ∧ f.1 = [] then none
  else (exponent? f.2).map fun e => ⟨neg, ofDigits (i.1 ++ f.1), e - f.1.length⟩

/-- `Decimal(text)`. -/
def ofText (t : Text) : Except Signal Decimal :=
  let s := takeSign ((strip t).filter (· ≠ '_'))
  match unsigned? s.1 s.2 with
  | some d => .ok d
  | none => .error .invalidOperation

/-! ## Rounding -/

/-- Number of digits of a coefficient; zero has one. -/
def numDigits (n : Nat) : Nat := max 1 (Nat.digits 10 n).length

/-- Drop `k` digits, rounding half up. -/
def halfUp (n k : Nat) : Nat := n / 10 ^ k + if 10 ^ k ≤ 2 * (n % 10 ^ k) then 1 else 0

/-- Drop `k` digits, rounding half to even. -/
def halfEven (n k : Nat) : Nat :=
  if 2 * (n % 10 ^ k) = 10 ^ k ∧ n / 10 ^ k % 2 = 0 then n / 10 ^ k else halfUp n k

def prec : Int := 28
def eMax : Int := 999999
def eTiny : Int := -1000026
def eTop : Int := 999972

/-- The exponent of the leading digit. -/
def adjusted (d : Decimal) : Int := d.exp + numDigits d.coeff - 1

/-- `_fix`: round to the precision and range of the context. -/
def fix (d : Decimal) : Except Signal Decimal :=
  if d.coeff = 0 then .ok ⟨d.neg, 0, min (max d.exp eTiny) eMax⟩
  else
    let room := numDigits d.coeff + d.exp - prec
    if eTop < room then .error .overflow
    else
      let expMin := max room eTiny
      if d.exp < expMin then
        let q := halfEven d.coeff (expMin - d.exp).toNat
        -- rounding up may carry into one digit too many
        if prec < numDigits q then
          if eTop < expMin + 1 then .error .overflow else .ok ⟨d.neg, q / 10, expMin + 1⟩
        else .ok ⟨d.neg, q, expMin⟩
      else .ok d

/-! ## Operations -/

def mul (a b : Decimal) : Except Signal Decimal :=
  fix ⟨a.neg ^^ b.neg, a.coeff * b.coeff, a.exp + b.exp⟩

/-- `d.scaleb(n)` for an `n` within the context's limits. -/
def scaleb (d : Decimal) (n : Int) : Except Signal Decimal := fix ⟨d.neg, d.coeff, d.exp + n⟩

/-- The coefficient at exponent zero, with `round` for the digits dropped. -/
def rescaled (round : Nat → Nat → Nat) (d : Decimal) : Nat :=
  if 0 ≤ d.exp then d.coeff * 10 ^ d.exp.toNat else round d.coeff (-d.exp).toNat

/-- `d.quantize(Decimal("1"), rounding=ROUND_HALF_UP)`. -/
def quantizeUnit (d : Decimal) : Except Signal Decimal :=
  if d.coeff = 0 then fix ⟨d.neg, 0, 0⟩
  else if eMax < d.adjusted then .error .invalidOperation
  else if prec < d.adjusted + 1 then .error .invalidOperation
  else if prec < numDigits (d.rescaled halfUp) then .error .invalidOperation
  else fix ⟨d.neg, d.rescaled halfUp, 0⟩

/-- `d.to_integral_value()`. -/
def toIntegralValue (d : Decimal) : Decimal :=
  if 0 ≤ d.exp then d else ⟨d.neg, d.rescaled halfEven, 0⟩

/-- `int(d)`: towards zero. -/
def toInt (d : Decimal) : Int := signed d.neg (d.rescaled fun n k => n / 10 ^ k)

/-- The signed coefficient at an exponent not above `d`'s own. -/
def scaledTo (d : Decimal) (e : Int) : Int := signed d.neg (d.coeff * 10 ^ (d.exp - e).toNat)

/-- `a == b`: one numeric value. -/
def numEq (a b : Decimal) : Bool :=
  a.scaledTo (min a.exp b.exp) == b.scaledTo (min a.exp b.exp)

/-! ## Numbers that fit -/

theorem numDigits_le {n k : Nat} (hk : 1 ≤ k) (h : n < 10 ^ k) : numDigits n ≤ k := by
  have := (Nat.digits_length_le_iff (b := 10) (k := k) (by decide) n).mpr h
  unfold numDigits
  omega

/-- A number of at most 28 digits, not too far below or above the unit, is its own `fix`. -/
theorem fix_eq {d : Decimal} (hc : d.coeff < 10 ^ 28) (hl : -1000 ≤ d.exp) (hu : d.exp ≤ 1000) :
    fix d = .ok d := by
  have hn := numDigits_le (by decide) hc
  have h1 : 1 ≤ numDigits d.coeff := le_max_left _ _
  unfold fix
  by_cases h0 : d.coeff = 0
  · rw [if_pos h0]
    have : min (max d.exp eTiny) eMax = d.exp := by unfold eTiny eMax; omega
    rw [this, ← h0]
  · rw [if_neg h0]
    have hroom : ¬ eTop < numDigits d.coeff + d.exp - prec := by unfold eTop prec; omega
    have hexp : ¬ d.exp < max (numDigits d.coeff + d.exp - prec) eTiny := by
      unfold eTiny prec; omega
    simp only [if_neg hroom, if_neg hexp]

theorem fix_neg {d e : Decimal} (h : fix d = .ok e) : e.neg = d.neg := by
  unfold fix at h
  dsimp only at h
  split_ifs at h <;> cases h <;> rfl

/-- A literal without a minus is not negative. -/
theorem ofText_neg {t : Text} {d : Decimal} (ht : '-' ∉ t) (h : ofText t = .ok d) :
    d.neg = false := by
  have hsign : (takeSign ((strip t).filter (· ≠ '_'))).1 = false :=
    takeSign_of_not_mem fun hmem => ht (mem_of_mem_strip (List.mem_filter.mp hmem).1)
  unfold ofText at h
  dsimp only at h
  split at h
  · rename_i e hd
    cases h
    unfold unsigned? at hd
    dsimp only at hd
    split_ifs at hd
    obtain ⟨n, -, rfl⟩ := Option.map_eq_some_iff.mp hd
    exact hsign
  · cases h

/-- A multiple of the unit rounds to itself. -/
theorem halfUp_of_dvd {n k : Nat} (h : 10 ^ k ∣ n) : halfUp n k = n / 10 ^ k := by
  have : 0 < 10 ^ k := Nat.pow_pos (by decide)
  rw [halfUp, Nat.mod_eq_zero_of_dvd h, if_neg (by omega), Nat.add_zero]

theorem halfEven_of_dvd {n k : Nat} (h : 10 ^ k ∣ n) : halfEven n k = n / 10 ^ k := by
  unfold halfEven
  split
  · rfl
  · exact halfUp_of_dvd h

end Decimal

end Meridian.Python
