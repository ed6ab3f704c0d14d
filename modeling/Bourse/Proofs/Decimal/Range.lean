import Bourse.Proofs.Decimal.Crossing

/-!
# The Range of Decimals

When an operation has a result. A result without fractional digits is the last that is tried, so
there is one just if the nearest integer to the exact result has 96 bits. That is so up to half a
unit above the largest coefficient; at the half itself the even neighbour is already too long.

A result that is there has the sign of the exact one. Where digits are lost, the exact result is
larger than one, and rounding does not take it across one.

## Main definitions

* `Decimal.InRange`: a number has a nearest integer of 96 bits.

## Theorems

* `Decimal.exists_fit?_iff`: a quotient has a decimal just if it is in range.
* `Decimal.add?_eq_none_iff`, `mul?_eq_none_iff`: operations fail just if their exact result is not.
* `Decimal.exists_fitted_of_mul?`: a product is the decimal fitted to the exact one.
* `Decimal.add?_neg_iff`: a sum has the sign of the exact one.
-/

namespace Bourse

namespace Decimal

variable {num : Int} {den scale : Nat} {a b c d : Decimal} {v : ℚ}

/-- The nearest integer to a number has 96 bits. -/
def InRange (v : ℚ) : Prop := |v| + 1 / 2 < 2 ^ 96

/-- A number that has a fitted decimal is in range. -/
theorem Fitted.inRange (h : Fitted scale v d) : InRange v := by
  rcases h.nearest with ⟨hclose, heven⟩
  have hbits : |d.coefficient| ≤ 2 ^ 96 - 1 := by
    rw [Int.abs_eq_natAbs]
    have := d.coefficient_lt
    omega
  have hbits' : |(d.coefficient : ℚ)| ≤ 2 ^ 96 - 1 := by exact_mod_cast hbits
  have hgap := abs_sub_abs_le_abs_sub (v * 10 ^ d.scale) d.coefficient
  rw [abs_sub_comm _ (d.coefficient : ℚ), abs_mul,
    abs_of_pos (by positivity : (0 : ℚ) < 10 ^ d.scale)] at hgap
  unfold InRange
  by_contra hlong
  rw [not_lt] at hlong
  -- Beyond the range there is no room for a fractional digit.
  have hwhole : d.scale = 0 := by
    by_contra hne
    have hpow : (10 : ℚ) ^ 1 ≤ 10 ^ d.scale := pow_le_pow_right₀ (by norm_num) (by omega)
    have hle := mul_le_mul_of_nonneg_left hpow (abs_nonneg v)
    linarith
  simp only [hwhole, pow_zero, mul_one] at hgap hclose heven
  -- What is left is the half above the largest coefficient, which is odd.
  have hodd : |(d.coefficient : ℚ)| = 2 ^ 96 - 1 := by linarith
  have hodd' : |d.coefficient| = 2 ^ 96 - 1 := by exact_mod_cast hodd
  have hparity := even_abs.2 (heven (by linarith))
  rw [hodd', Int.even_iff] at hparity
  omega

/-- A decimal is fitted to its own value. -/
theorem fitted_value (d : Decimal) : Fitted d.scale d.value d := by
  refine fitted_of_scale_eq rfl ?_
  have hwhole : d.value * 10 ^ d.scale = d.coefficient := by
    rw [value, div_mul_cancel₀ _ (by positivity)]
  rw [hwhole]
  refine ⟨?_, fun h => ?_⟩
  · rw [sub_self, abs_zero]
    norm_num
  · rw [sub_self, abs_zero] at h
    norm_num at h

theorem inRange_value (d : Decimal) : InRange d.value :=
  d.fitted_value.inRange

/-- A quotient has a decimal just if it is in range. -/
theorem exists_fit?_iff (hden : 0 < den) (hscale : scale ≤ 28) :
    (∃ d, fit? num den scale = some d) ↔ InRange ((num : ℚ) / den) := by
  refine ⟨?_, exists_fit? hden hscale⟩
  rintro ⟨d, hd⟩
  exact ((fit?_eq_some_iff hden hscale).1 hd).inRange

/-! ## The operations -/

theorem exists_add?_iff : (∃ c, a.add? b = some c) ↔ InRange (a.value + b.value) := by
  unfold add?
  split_ifs with ha hb
  · rw [value_of_coefficient_eq_zero ha, zero_add]
    exact iff_of_true ⟨b, rfl⟩ b.inRange_value
  · rw [value_of_coefficient_eq_zero hb, add_zero]
    exact iff_of_true ⟨a, rfl⟩ a.inRange_value
  · rw [value_add_eq_div]
    exact exists_fit?_iff (Nat.pow_pos (by decide)) (max_le a.scale_le b.scale_le)

theorem exists_mul?_iff : (∃ c, a.mul? b = some c) ↔ InRange (a.value * b.value) := by
  unfold mul?
  split_ifs with hzero
  · rw [value_mul_eq_zero hzero, ← value_zero]
    exact iff_of_true ⟨zero, rfl⟩ zero.inRange_value
  · rw [value_mul_eq_div]
    exact exists_fit?_iff (Nat.pow_pos (by decide)) (min_le_right _ _)

/-- A sum fails just if the exact one is out of range. -/
theorem add?_eq_none_iff : a.add? b = none ↔ ¬ InRange (a.value + b.value) := by
  rw [← exists_add?_iff, ← Option.ne_none_iff_exists', not_not]

/-- A product fails just if the exact one is out of range. -/
theorem mul?_eq_none_iff : a.mul? b = none ↔ ¬ InRange (a.value * b.value) := by
  rw [← exists_mul?_iff, ← Option.ne_none_iff_exists', not_not]

/-- A product is worth as much as the decimal fitted to the exact one. -/
theorem exists_fitted_of_mul? (h : a.mul? b = some c) :
    ∃ d, Fitted (min (a.scale + b.scale) 28) (a.value * b.value) d ∧ d.value = c.value := by
  unfold mul? at h
  split_ifs at h with hzero
  · -- Nothing has no digits, where the fitted decimal has them all.
    refine ⟨⟨0, min (a.scale + b.scale) 28, by decide, min_le_right _ _⟩,
      fitted_of_scale_eq rfl ?_, ?_⟩
    · rw [value_mul_eq_zero hzero, zero_mul]
      exact ⟨by norm_num, fun _ => Even.zero⟩
    · rw [← Option.some.inj h, value_zero, value_of_coefficient_eq_zero rfl]
  · refine ⟨c, ?_, rfl⟩
    rw [value_mul_eq_div]
    exact (fit?_eq_some_iff (Nat.pow_pos (by decide)) (min_le_right _ _)).1 h

/-- A sum is below zero just if the exact one is. -/
theorem add?_neg_iff (h : a.add? b = some c) : c.value < 0 ↔ a.value + b.value < 0 := by
  have hcrossed := add?_uncrossed h
  constructor
  · intro hc
    by_contra hsum
    exact absurd hc (not_lt.2 (hcrossed.nonneg (not_lt.1 hsum)))
  · intro hsum
    by_cases hroom : |a.value + b.value| * 10 ^ max a.scale b.scale < 2 ^ 96
    · rcases add?_exact hroom with ⟨c', hc', hvalue, -⟩
      rw [Option.some.inj (h.symm.trans hc'), hvalue]
      exact hsum
    · -- With digits lost the sum is large, so it is not above minus one.
      have hpow : (10 : ℚ) ^ max a.scale b.scale ≤ 10 ^ 28 :=
        pow_le_pow_right₀ (by norm_num) (max_le a.scale_le b.scale_le)
      have hle := mul_le_mul_of_nonneg_left hpow (abs_nonneg (a.value + b.value))
      rw [not_lt] at hroom
      rw [abs_of_neg hsum] at hroom hle
      have hone := (hcrossed (-1)).2 (by
        push_cast
        linarith)
      push_cast at hone
      linarith

end Decimal

end Bourse
