import Meridian.Ledger.Services
import Meridian.Python.Nearest
import Meridian.Python.Quantize

/-!
# The cents of a backfilled payment

Migration 0019 gives a row that has no `amount_minor` the cents of `amount::numeric`, the amount
rounded to fifteen significant digits. The charge path gives a row the cents of the amount's text,
its shortest decimal. Both round half away from zero.

* `amountMinor_eq`: the cents of the charge path are `halfUp` of the number the text spells.
* `backfill_agrees_iff`: a backfilled row carries the cents of a charged one where no odd multiple
  of half a cent separates the two renderings; `backfill_cent_up` is an amount where one does.
-/

namespace Meridian.Ledger

open Python Numeric F64

/-- `BIGINT` -/
def FitsBigint (n : ℤ) : Prop := -2 ^ 63 ≤ n ∧ n < 2 ^ 63

instance (n : ℤ) : Decidable (FitsBigint n) := inferInstanceAs (Decidable (_ ∧ _))

/-- What the migration raises. -/
inductive MigrationError
  | bigintOutOfRange
  deriving DecidableEq

/-- `amount::numeric`: fifteen significant digits, of two equally near ones the even. -/
def toNumeric (amount : F64) : ℚ := roundTo 15 amount.toRat

/-- `ROUND(amount::numeric * 100)::bigint` -/
def backfilledMinor (amount : F64) : Except MigrationError ℤ :=
  if FitsBigint (halfUp (toNumeric amount * 100)) then .ok (halfUp (toNumeric amount * 100))
  else .error .bigintOutOfRange

/-- What the `UPDATE` does to a row. -/
def backfillRow (p : Payment) : Except MigrationError Payment :=
  if p.amountMinor.isSome then .ok p
  else (backfilledMinor p.amount).map fun minor => { p with amountMinor := some minor }

/-- `UPDATE payments SET amount_minor = … WHERE amount_minor IS NULL` -/
def backfill (rows : List Payment) : Except MigrationError (List Payment) := rows.mapM backfillRow

section Amount

variable {f : F64}

theorem decimal_nonneg (f : F64) : 0 ≤ f.decimal := by
  by_cases h : f.mant = 0
  · rw [decimal_zero h]
  · exact (decimal_pos h).le

/-! ## The charge path -/

theorem signed_halfUp {neg : Bool} {n : ℕ} {x : ℚ} (h : (n : ℤ) = halfUp x) :
    signed neg n = halfUp (if neg then -x else x) := by
  cases neg with
  | true => simp [signed, h, halfUp_neg]
  | false => simp [signed, h]

/-- Scaling what is read of a float by a hundred. -/
theorem scaleb_repr (h : f.decimal < 10 ^ 20) : ∃ d s, Decimal.ofText f.repr = .ok d ∧
    d.scaleb 2 = .ok s ∧ s.neg = f.neg ∧ (s.coeff : ℚ) * 10 ^ s.exp = f.decimal * 100 := by
  obtain ⟨⟨neg, c, e⟩, hd, hneg, hvalue, hc⟩ := ofText_repr_lt f
  dsimp only at hneg hvalue hc
  by_cases h0 : c = 0
  · subst h0
    have hzero : f.decimal = 0 := by rw [← hvalue, Nat.cast_zero, zero_mul]
    have hscale : Decimal.scaleb ⟨neg, 0, e⟩ 2 =
        .ok ⟨neg, 0, min (max (e + 2) Decimal.eTiny) Decimal.eMax⟩ := by
      simp [Decimal.scaleb, Decimal.fix]
    refine ⟨_, _, hd, hscale, hneg, ?_⟩
    rw [hzero, Nat.cast_zero, zero_mul, zero_mul]
  · have hlow := exp_ge_of_decimal hvalue hc h0
    have hhigh : e < 20 := exp_lt_of_decimal hvalue (by exact_mod_cast h) h0
    refine ⟨_, ⟨neg, c, e + 2⟩, hd, ?_, hneg, ?_⟩
    · exact Decimal.fix_eq hc (by dsimp only; omega) (by dsimp only; omega)
    · rw [← hvalue, zpow_add₀ (by norm_num), ← mul_assoc]
      norm_num

/-- **The charge path** rounds the number the amount's text spells. -/
theorem amountMinor_eq (h : f.decimal < 10 ^ 20) :
    amountMinor f = .ok (halfUp (f.spelled * 100)) := by
  obtain ⟨d, s, hd, hs, hneg, hvalue⟩ := scaleb_repr h
  have hquantize : s.quantizeUnit = .ok ⟨s.neg, s.rescaled Decimal.halfUp, 0⟩ :=
    Decimal.quantizeUnit_eq (by rw [hvalue]; linarith)
  have hround := Decimal.rescaled_halfUp s
  rw [hvalue] at hround
  unfold amountMinor
  simp only [hd, hs, hquantize, Decimal.toInt_unit, signed_halfUp hround, hneg]
  congr 2
  unfold spelled
  split_ifs
  · ring
  · rfl

/-- Cents that fit are of an amount the arithmetic is exact on. -/
theorem decimal_lt_of_fits (h : FitsBigint (halfUp (f.spelled * 100))) : f.decimal < 10 ^ 20 := by
  have hnear := abs_le.mp (halfUp_near (f.spelled * 100))
  have hlow : (-2 ^ 63 : ℚ) ≤ halfUp (f.spelled * 100) := by exact_mod_cast h.1
  have hhigh : (halfUp (f.spelled * 100) : ℚ) < 2 ^ 63 := by exact_mod_cast h.2
  by_contra hlarge
  have hlarge := not_lt.mp hlarge
  unfold spelled at hnear hlow hhigh
  split_ifs at hnear hlow hhigh
  · linarith
  · linarith

/-! ## The migration -/

/-- Fifteen digits of the magnitude. -/
def fifteen (f : F64) : ℚ := roundTo 15 f.value

theorem toNumeric_eq (f : F64) : toNumeric f = if f.neg then -fifteen f else fifteen f := by
  unfold toNumeric toRat fifteen
  split_ifs
  · exact roundTo_neg 15 f.value
  · rfl

theorem fifteen_nonneg (f : F64) : 0 ≤ fifteen f := by
  refine roundTo_nonneg 15 ?_
  rw [value]
  positivity

/-- No odd multiple of half a cent is above one of two amounts and not above the other. -/
def NoHalfCentBetween (a b : ℚ) : Prop :=
  ∀ n : ℕ, a < (2 * n + 1) / 200 ↔ b < (2 * n + 1) / 200

/-- Two amounts have the same cents where no half cent separates them. -/
theorem cents_eq_iff {a b : ℚ} (ha : 0 ≤ a) (hb : 0 ≤ b) :
    halfUp (a * 100) = halfUp (b * 100) ↔ NoHalfCentBetween a b := by
  have hscale : ∀ (x : ℚ) (n : ℕ), x * 100 < n + 1 / 2 ↔ x < (2 * n + 1) / 200 := fun x n => by
    rw [lt_div_iff₀ (by norm_num)]
    constructor <;> intro h <;> linarith
  rw [halfUp_eq_halfUp_iff (by linarith) (by linarith)]
  simp only [hscale]
  rfl

/-- The sign takes no part in it. -/
theorem minor_eq_iff (f : F64) :
    halfUp (toNumeric f * 100) = halfUp (f.spelled * 100) ↔
      NoHalfCentBetween f.decimal (fifteen f) := by
  rw [← cents_eq_iff (decimal_nonneg f) (fifteen_nonneg f), toNumeric_eq, spelled, eq_comm]
  split_ifs
  · rw [neg_mul, neg_mul, halfUp_neg, halfUp_neg, neg_inj]
  · rfl

/-- **Fifteen digits spell a normal amount** whose shortest decimal has no more. -/
theorem fifteen_eq_decimal (hnormal : 2 ^ 52 ≤ f.mant) (hshort : f.digits.1.length ≤ 15) :
    fifteen f = f.decimal := by
  have hmant : f.mant ≠ 0 := by omega
  have hpos := value_pos hmant
  have hquarter := f.quarter_pos
  -- the two are at most half a place apart
  have hclose : |f.decimal - f.value| ≤ 2 * f.quarter := by
    obtain ⟨c, s, hread, hc⟩ := decimal_readsBack hmant
    obtain ⟨hlow, hhigh⟩ := le_of_readsBack hread
    have hlower : 4 * (f.mant : ℚ) - 2 ≤ f.lower := by
      have hle : 4 * f.mant ≤ f.lower + 2 := by
        unfold lower
        split_ifs <;> omega
      have hle : 4 * (f.mant : ℚ) ≤ f.lower + 2 := by exact_mod_cast hle
      linarith
    have hupper : (f.upper : ℚ) = 4 * f.mant + 2 := by
      rw [upper]
      push_cast
      rfl
    rw [hupper] at hhigh
    have hlow := (mul_le_mul_of_nonneg_right hlower hquarter.le).trans hlow
    rw [hc, value_eq, abs_le]
    constructor <;> linarith
  have hplace : 2 * f.quarter < f.value * (10 ^ (-((15 : ℕ) : ℤ)) / 2) := by
    have hmantissa : (2 : ℚ) ^ 52 ≤ f.mant := by exact_mod_cast hnormal
    rw [value_eq, zpow_neg, zpow_natCast]
    have hscale := mul_le_mul_of_nonneg_right hmantissa hquarter.le
    linarith
  have hdigits : |((ofDigits f.digits.1 : ℕ) : ℤ)| ≤ 10 ^ 15 := by
    rw [Nat.abs_cast]
    have hlt := (ofDigits_lt (digits_spec f).lt).le.trans
      (Nat.pow_le_pow_right (by decide) hshort)
    exact_mod_cast hlt
  have hdecimal : f.decimal =
      ((ofDigits f.digits.1 : ℕ) : ℤ) * 10 ^ (f.digits.2 - f.digits.1.length) := by
    rw [decimal]
    push_cast
    rfl
  exact roundTo_eq_of_near (by decide) hpos _ _ hdecimal hdigits (hclose.trans_lt hplace)

/-- **A backfilled row carries the cents of a charged one** where no odd multiple of half a cent
separates the shortest decimal of the amount and its fifteen digits. -/
theorem backfill_agrees_iff (p : Payment) (hlegacy : p.amountMinor = none)
    (hfits : FitsBigint (halfUp (p.amount.spelled * 100))) :
    (∃ minor, amountMinor p.amount = .ok minor ∧
        backfillRow p = .ok { p with amountMinor := some minor }) ↔
      NoHalfCentBetween p.amount.decimal (fifteen p.amount) := by
  have hcharge := amountMinor_eq (decimal_lt_of_fits hfits)
  rw [← minor_eq_iff, hcharge]
  unfold backfillRow backfilledMinor
  rw [if_neg (by rw [hlegacy]; exact Bool.false_ne_true)]
  constructor
  · rintro ⟨minor, hminor, hrow⟩
    cases hminor
    split_ifs at hrow with hrange
    · exact Option.some.inj (congrArg Payment.amountMinor (Except.ok.inj hrow))
    · exact nomatch hrow
  · intro h
    refine ⟨_, rfl, ?_⟩
    rw [h, if_pos hfits]
    rfl

/-- So the two agree on every normal amount of at most fifteen digits, which is what the comment in
the migration has in mind. -/
theorem backfill_agrees_of_short (p : Payment) (hlegacy : p.amountMinor = none)
    (hfits : FitsBigint (halfUp (p.amount.spelled * 100))) (hnormal : 2 ^ 52 ≤ p.amount.mant)
    (hshort : p.amount.digits.1.length ≤ 15) :
    ∃ minor, amountMinor p.amount = .ok minor ∧
      backfillRow p = .ok { p with amountMinor := some minor } := by
  have hagrees := (minor_eq_iff p.amount).mpr (by
    rw [fifteen_eq_decimal hnormal hshort]
    exact fun _ => Iff.rfl)
  refine ⟨_, amountMinor_eq (decimal_lt_of_fits hfits), ?_⟩
  rw [backfillRow, if_neg (by rw [hlegacy]; exact Bool.false_ne_true), backfilledMinor, hagrees,
    if_pos hfits]
  rfl

end Amount

/-- A row from before the column. -/
def legacyRow (amount : F64) : Payment where
  id := 1
  loanId := some 1
  pan := none
  amount
  amountMinor := none
  method := some "card".toList
  status := .captured
  key := none
  expiresAt := none
  fingerprint := none

/-- The amount of the comment in the migration, 12.34. -/
def commentAmount : F64 := ⟨false, 6946802425218990, -49, by decide⟩

theorem backfill_agrees_comment : 
    (∃ minor, amountMinor commentAmount = .ok minor ∧
        backfillRow (legacyRow commentAmount) =
          .ok { legacyRow commentAmount with amountMinor := some minor }) ↔
      NoHalfCentBetween commentAmount.decimal (fifteen commentAmount) :=
  backfill_agrees_iff (legacyRow commentAmount) rfl (by decide +kernel)

/-- An amount just below half a cent. -/
def belowHalf : F64 := ⟨false, 4526117625507347, -52, by decide⟩

/-- **A cent more in the backfill**: fifteen digits of 1.0049999999999997 are 1.005. -/
theorem backfill_cent_up :
    belowHalf.repr = "1.0049999999999997".toList ∧
      FitsBigint (halfUp (belowHalf.spelled * 100)) ∧ amountMinor belowHalf = .ok 100 ∧
      backfillRow (legacyRow belowHalf) =
        .ok { legacyRow belowHalf with amountMinor := some 101 } :=
  ⟨by decide +kernel, by decide +kernel, by decide +kernel, by decide +kernel⟩

end Meridian.Ledger
