import Bourse.Proofs.Amount.Conversion

/-!
# Sums and Differences

Amounts are added and subtracted as decimals, at different scales if one of them has no nanos, and
the result is cut off at nine digits. None of this shows. There is room for the digits of any two
amounts, so a sum is that of the nanos, and the one thing that can be wrong with it is that its
units are too many. The laws of addition are then those of the integers.

## Main definitions

* `Amount.IsExactly`: the result of a calculation that does not round.

## Theorems

* `add_eq`, `sub_eq`: sums and differences are those of the nanos.
* `ofNanos_isExactly`: a number of nanos is an amount just if its whole part fits.
* `sums_exact`: addition is exact, commutative and associative, and subtraction undoes it.
-/

namespace Bourse

namespace Amount

variable {a b c : Amount}

/-- A result that is just a certain number, and is out of range if the whole part of this number
does not fit. -/
def IsExactly (result : Except AmountError Amount) (v : ℚ) : Prop :=
  (result = .error .outOfRange ↔ ¬ Fits v) ∧
    (Fits v → ∃ c, result = .ok c ∧ c.isValid = true ∧ c.value = v)

theorem ofNanos_isExactly {n : Int} {v : ℚ} (h : v * 10 ^ 9 = n) : IsExactly (ofNanos n) v := by
  have hcases := ofNanos_truncate v
  rw [h, truncate_intCast] at hcases
  rcases hcases with ⟨hfits, c, hc, hvalid, hn⟩ | ⟨hfits, herror⟩
  · refine ⟨?_, fun _ => ⟨c, hc, hvalid, ?_⟩⟩
    · rw [hc]
      exact iff_of_false (by simp only [reduceCtorEq, not_false_eq_true]) (not_not.2 hfits)
    · rw [value, hn, ← h, mul_div_cancel_right₀ _ (by norm_num)]
  · exact ⟨iff_of_true herror hfits, fun hnot => absurd hnot hfits⟩

theorem value_mul_nanos (a : Amount) : a.value * 10 ^ 9 = a.inNanos := by
  rw [value, div_mul_cancel₀ _ (by norm_num)]

/-- A sum of decimals within the reach of amounts becomes the amount of the exact sum. -/
theorem ofResult_add? {a b : Decimal} {n : Int} (ha : a.scale ≤ 9) (hb : b.scale ≤ 9)
    (hva : |a.value| < 2 ^ 64) (hvb : |b.value| < 2 ^ 64) (h : (a.value + b.value) * 10 ^ 9 = n) :
    ofResult (a.add? b) = ofNanos n := by
  rcases add?_of_scale_le ha hb hva hvb with ⟨d, hd, hvalue, -⟩
  rw [hd, ofResult, ofDecimal_eq, hvalue, h, truncate_intCast]

theorem abs_value_toDecimal_lt (a : Amount) : |a.toDecimal.value| < 2 ^ 64 := by
  rw [value_toDecimal]
  exact a.abs_value_lt

/-- A sum is that of the nanos. -/
theorem add_eq (a b : Amount) : a.add b = ofNanos (a.inNanos + b.inNanos) := by
  refine ofResult_add? a.scale_toDecimal_le b.scale_toDecimal_le a.abs_value_toDecimal_lt
    b.abs_value_toDecimal_lt ?_
  rw [value_toDecimal, value_toDecimal, add_mul, value_mul_nanos, value_mul_nanos, Int.cast_add]

/-- A difference is that of the nanos. -/
theorem sub_eq (a b : Amount) : a.sub b = ofNanos (a.inNanos - b.inNanos) := by
  refine ofResult_add? a.scale_toDecimal_le b.scale_toDecimal_le a.abs_value_toDecimal_lt ?_ ?_
  · rw [Decimal.value_neg, abs_neg]
    exact b.abs_value_toDecimal_lt
  · rw [Decimal.value_neg, value_toDecimal, value_toDecimal, ← sub_eq_add_neg, sub_mul,
      value_mul_nanos, value_mul_nanos, Int.cast_sub]

theorem inNanos_of_add (h : a.add b = .ok c) : c.inNanos = a.inNanos + b.inNanos := by
  rw [add_eq] at h
  exact (ofNanos_eq_ok_iff.1 h).2

/-- Sums and differences are exact wherever their whole parts fit, and out of range elsewhere. So
addition is commutative, it is associative where the inner sums exist, and subtraction undoes it. -/
theorem sums_exact (a b : Amount) :
    IsExactly (a.add b) (a.value + b.value) ∧
    IsExactly (a.sub b) (a.value - b.value) ∧
    a.add b = b.add a ∧
    (∀ c ab bc, a.add b = .ok ab → b.add c = .ok bc → ab.add c = a.add bc) ∧
    (∀ sum, a.isValid = true → a.add b = .ok sum → sum.sub b = .ok a) := by
  refine ⟨?_, ?_, ?_, fun c ab bc hab hbc => ?_, fun sum ha hsum => ?_⟩
  · rw [add_eq]
    refine ofNanos_isExactly ?_
    rw [add_mul, value_mul_nanos, value_mul_nanos, Int.cast_add]
  · rw [sub_eq]
    refine ofNanos_isExactly ?_
    rw [sub_mul, value_mul_nanos, value_mul_nanos, Int.cast_sub]
  · rw [add_eq, add_eq, Int.add_comm]
  · rw [add_eq, add_eq, inNanos_of_add hab, inNanos_of_add hbc, Int.add_assoc]
  · rw [sub_eq, inNanos_of_add hsum, Int.add_sub_cancel]
    exact ofNanos_eq_ok_iff.2 ⟨ha, rfl⟩

/-- The smallest units with a nano more and with a nano less, a carry of all nine digits, and a
difference that has its sign in the nanos alone. -/
theorem sums_exact_at_the_edge :
    (∃ c, (⟨Int64.minValue, -999999998⟩ : Amount).add ⟨0, -1⟩ = .ok c ∧
      c.isValid = true ∧ c.value = value ⟨Int64.minValue, -999999998⟩ + value ⟨0, -1⟩) ∧
    (⟨Int64.minValue, -999999999⟩ : Amount).add ⟨0, -1⟩ = .error .outOfRange ∧
    (⟨1, 999999999⟩ : Amount).add ⟨0, 1⟩ = (⟨0, 1⟩ : Amount).add ⟨1, 999999999⟩ ∧
    (⟨2, 0⟩ : Amount).add ⟨-1, -500000000⟩ = (⟨1, 999999999⟩ : Amount).add ⟨-1, -499999999⟩ ∧
    (⟨0, 500000000⟩ : Amount).sub ⟨2, 0⟩ = .ok ⟨-1, -500000000⟩ := by
  refine ⟨(sums_exact _ _).1.2 (by decide +kernel), (sums_exact _ _).1.1.2 (by decide +kernel),
    (sums_exact _ _).2.2.1,
    (sums_exact ⟨1, 999999999⟩ ⟨0, 1⟩).2.2.2.1 ⟨-1, -500000000⟩ ⟨2, 0⟩ ⟨-1, -499999999⟩
      (by decide +kernel) (by decide +kernel),
    (sums_exact ⟨-1, -500000000⟩ ⟨2, 0⟩).2.2.2.2 ⟨0, 500000000⟩ (by decide) (by decide +kernel)⟩

end Amount

end Bourse
