import Bourse.Proofs.Decimal.Value
import Mathlib.Algebra.Order.Floor.Ring
import Mathlib.Data.Rat.Floor

/-!
# Rounding toward Zero

A number that has too many digits to be kept loses the last of them, whatever its sign. That
is rounding toward zero: down where the number is not negative, up where it is not positive.
Integer division toward zero computes it of a quotient, and `truncatedAt` computes it of a
decimal.

Digits can be cut off in two steps: `tdiv_truncate` says that the whole part of a number is also
the whole part of what is left when only its last digits have been cut off.

## Main definitions

* `truncate`: the whole part of a number.

## Theorems

* `truncate_div`: division toward zero truncates the quotient.
* `tdiv_truncate`: cutting digits off twice is cutting them off once.
* `Decimal.truncatedAt_eq`: what `truncatedAt` computes.
* `Decimal.truncatedAt_of_nonneg`: cutting digits off is rounding down, above zero.
-/

namespace Bourse

/-- The whole part of a number: the number rounded toward zero. -/
def truncate (v : ℚ) : Int :=
  if 0 ≤ v then ⌊v⌋ else ⌈v⌉

theorem truncate_of_nonneg {v : ℚ} (h : 0 ≤ v) : truncate v = ⌊v⌋ :=
  if_pos h

@[simp] theorem truncate_intCast (n : Int) : truncate n = n := by
  unfold truncate
  split_ifs
  · exact Int.floor_intCast n
  · exact Int.ceil_intCast n

theorem truncate_neg (v : ℚ) : truncate (-v) = -truncate v := by
  rcases lt_trichotomy v 0 with hneg | rfl | hpos
  · rw [truncate_of_nonneg (by linarith), truncate, if_neg (by linarith), Int.floor_neg]
  · rw [neg_zero, ← Int.cast_zero, truncate_intCast, neg_zero]
  · rw [truncate_of_nonneg hpos.le, truncate, if_neg (by linarith), Int.ceil_neg]

/-- Division toward zero truncates the quotient. -/
theorem truncate_div (num : Int) (den : Nat) : truncate (num / den) = num.tdiv den := by
  -- The sign of the number is that of the quotient, and both sides change with it.
  rcases le_total 0 num with hnum | hnum
  · have hquot : (0 : ℚ) ≤ num / den := div_nonneg (by exact_mod_cast hnum) (Nat.cast_nonneg den)
    rw [truncate_of_nonneg hquot, Rat.floor_intCast_div_natCast,
      Int.tdiv_eq_ediv_of_nonneg hnum]
  · have hquot : (0 : ℚ) ≤ ((-num : Int) : ℚ) / den :=
      div_nonneg (by exact_mod_cast Int.neg_nonneg_of_nonpos hnum) (Nat.cast_nonneg den)
    have hpos : truncate (((-num : Int) : ℚ) / den) = (-num).tdiv den := by
      rw [truncate_of_nonneg hquot, Rat.floor_intCast_div_natCast,
        Int.tdiv_eq_ediv_of_nonneg (Int.neg_nonneg_of_nonpos hnum)]
    rw [Int.cast_neg, neg_div, truncate_neg, Int.neg_tdiv] at hpos
    omega

/-- Cutting digits off twice is cutting them off once. -/
theorem tdiv_truncate (v : ℚ) {unit : Nat} (hunit : 0 < unit) :
    (truncate (v * unit)).tdiv unit = truncate v := by
  have hpos : (0 : ℚ) < unit := by exact_mod_cast hunit
  have hcut : ∀ w : ℚ, 0 ≤ w → (truncate (w * unit)).tdiv unit = truncate w := by
    intro w hw
    have hscaled : 0 ≤ w * unit := mul_nonneg hw hpos.le
    rw [truncate_of_nonneg hscaled, truncate_of_nonneg hw,
      Int.tdiv_eq_ediv_of_nonneg (Int.floor_nonneg.2 hscaled), ← Int.floor_div_natCast,
      mul_div_cancel_right₀ _ hpos.ne']
  rcases le_total 0 v with hv | hv
  · exact hcut v hv
  · have hneg := hcut (-v) (by linarith)
    rw [neg_mul, truncate_neg, truncate_neg, Int.neg_tdiv] at hneg
    omega

namespace Decimal

/-- What is left of a decimal is its value truncated at so many digits. -/
theorem truncatedAt_eq (digits : Nat) (d : Decimal) :
    d.truncatedAt digits = truncate (d.value * 10 ^ digits) := by
  have hvalue : d.value * 10 ^ digits =
      (d.coefficient * 10 ^ digits : Int) / (10 ^ d.scale : Nat) := by
    rw [value]
    push_cast
    ring
  rw [hvalue, truncate_div, truncatedAt]
  push_cast
  rfl

/-- Cutting digits off a value that is not negative rounds it down. -/
theorem truncatedAt_of_nonneg {d : Decimal} (digits : Nat) (h : 0 ≤ d.value) :
    d.truncatedAt digits = ⌊d.value * 10 ^ digits⌋ := by
  rw [truncatedAt_eq, truncate_of_nonneg (mul_nonneg h (by positivity))]

end Decimal

end Bourse
