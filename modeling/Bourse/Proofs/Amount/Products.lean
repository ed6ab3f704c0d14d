import Bourse.Proofs.Amount.Conversion
import Bourse.Proofs.Decimal.Crossing
import Bourse.Proofs.Decimal.Rounding

/-!
# Products

A product of two amounts has up to eighteen digits after the point. If the nanos have a product of
96 bits there is room for all of them, and the amount is the product cut off at nine. A longer one
is rounded to the digits for which there is room, nine at least, before it is cut off; the two
together take off less than a nano, and they may as well add something.

Neither step crosses a whole number. So a product keeps its sign, and it is out of range if it is
beyond the smallest or the largest units.

## Theorems

* `fits_iff`: the numbers that fit are those between two bounds.
* `ofResult_of_not_fits`: what does not fit is out of range, even if it has been rounded.
* `mul_close`: a product is less than a nano off.
* `mul_exact`: a product that is not rounded is truncated.
* `mul_sign`: a product has no other sign than the exact one.
* `products_truncated`: what a product is, and when there is one.
-/

namespace Bourse

namespace Decimal

theorem mul?_comm (a b : Decimal) : a.mul? b = b.mul? a := by
  unfold mul?
  by_cases hzero : a.coefficient = 0 ∨ b.coefficient = 0
  · rw [if_pos hzero, if_pos hzero.symm]
  · rw [if_neg hzero, if_neg (mt Or.symm hzero), Int.mul_comm, Nat.add_comm]

end Decimal

namespace Amount

variable {a b c : Amount} {v : ℚ}

/-! ## The reach of amounts -/

/-- What fits are the numbers above the whole number before the smallest units, and below the one
after the largest. -/
theorem fits_iff : Fits v ↔ -(2 ^ 63 + 1) < v ∧ v < 2 ^ 63 := by
  unfold Fits truncate
  split_ifs with hv
  · rw [Int.floor_lt]
    push_cast
    refine ⟨fun h => ⟨by linarith, h.2⟩, fun h => ⟨?_, h.2⟩⟩
    exact le_trans (by norm_num) (Int.floor_nonneg.2 hv)
  · rw [not_le] at hv
    have hlow : -(2 ^ 63) ≤ ⌈v⌉ ↔ -(2 ^ 63 + 1) < ⌈v⌉ := by omega
    rw [hlow, Int.lt_ceil]
    push_cast
    refine ⟨fun h => ⟨by linarith, by linarith⟩, fun h => ⟨by linarith, ?_⟩⟩
    exact (Int.ceil_le.2 (by push_cast; linarith : v ≤ (0 : Int))).trans_lt (by norm_num)

/-- What has been rounded fits no better than before. -/
theorem not_fits_of_uncrossed {w : ℚ} (h : Uncrossed v w) (hv : ¬ Fits v) : ¬ Fits w := by
  rw [fits_iff, not_and_or, not_lt, not_lt] at hv ⊢
  refine hv.imp (fun hlow => ?_) (fun hhigh => ?_)
  · have hk := (h (-(2 ^ 63 + 1))).2 (by push_cast; linarith)
    push_cast at hk
    linarith
  · have hk := (h (2 ^ 63)).1 (by push_cast; linarith)
    push_cast at hk
    linarith

theorem ofResult_eq_ok_iff {r : Option Decimal} :
    ofResult r = .ok c ↔ ∃ d, r = some d ∧ ofDecimal d = .ok c := by
  cases r with
  | none => simp only [ofResult, reduceCtorEq, false_and, exists_false]
  | some d => simp only [ofResult, Option.some.injEq, exists_eq_left']

/-- What does not fit is out of range, even if it has been rounded. -/
theorem ofResult_of_not_fits {r : Option Decimal} (h : ∀ d, r = some d → Uncrossed v d.value)
    (hv : ¬ Fits v) : ofResult r = .error .outOfRange := by
  cases r with
  | none => rfl
  | some d => exact ofDecimal_eq_error_iff.2 (not_fits_of_uncrossed (h d rfl) hv)

theorem fits_of_ofDecimal {d : Decimal} (h : ofDecimal d = .ok c) : Fits d.value := by
  by_contra hnot
  rw [ofDecimal_eq_error_iff.2 hnot] at h
  exact absurd h (by simp only [reduceCtorEq, not_false_eq_true])

theorem abs_lt_of_fits (h : Fits v) : |v| < 2 ^ 63 + 1 := by
  rcases fits_iff.1 h with ⟨hlow, hhigh⟩
  rw [abs_lt]
  constructor <;> linarith

/-! ## Products -/

theorem abs_mul_nanos (a b : Amount) :
    |a.value * b.value| * 10 ^ 18 = (|a.inNanos * b.inNanos| : Int) := by
  have hproduct : a.value * b.value * 10 ^ 18 = a.inNanos * b.inNanos := by
    rw [value, value]
    ring
  rw [Int.cast_abs, Int.cast_mul, ← hproduct, abs_mul _ ((10 : ℚ) ^ 18),
    abs_of_pos (by norm_num : (0 : ℚ) < 10 ^ 18)]

theorem scale_add_le (a b : Amount) : a.toDecimal.scale + b.toDecimal.scale ≤ 18 :=
  Nat.add_le_add a.scale_toDecimal_le b.scale_toDecimal_le

theorem mul?_uncrossed {d : Decimal} (h : a.toDecimal.mul? b.toDecimal = some d) :
    Uncrossed (a.value * b.value) d.value := by
  rw [← value_toDecimal a, ← value_toDecimal b]
  exact Decimal.mul?_uncrossed h

/-- A product is less than a nano off. -/
theorem mul_close (h : a.mul b = .ok c) : |c.value - a.value * b.value| < 1 / 10 ^ 9 := by
  rcases ofResult_eq_ok_iff.1 h with ⟨d, hd, hc⟩
  -- What has become an amount was within reach, and so was the exact product.
  have hreach := abs_lt.1 (abs_lt_of_fits (fits_of_ofDecimal hc))
  have hclose := abs_le.1 (Decimal.mul?_close hd)
  have hrounded := Decimal.mul?_rounded hd ((scale_add_le a b).trans (by decide)) (by
    rw [abs_lt]
    constructor <;> linarith)
  have hnear := hrounded.near.truncate_close
  rw [value_toDecimal, value_toDecimal, ← Decimal.truncatedAt_eq,
    ← (ofDecimal_eq_ok_iff.1 hc).2] at hnear
  exact hnear

/-- A product has no other sign than the exact one. -/
theorem mul_sign (h : a.mul b = .ok c) :
    (0 ≤ a.value * b.value → 0 ≤ c.value) ∧ (a.value * b.value ≤ 0 → c.value ≤ 0) := by
  rcases ofResult_eq_ok_iff.1 h with ⟨d, hd, hc⟩
  have hrounded := mul?_uncrossed hd
  have hcut := uncrossed_truncate (d.value * 10 ^ 9)
  rw [← Decimal.truncatedAt_eq, ← (ofDecimal_eq_ok_iff.1 hc).2] at hcut
  rw [value]
  refine ⟨fun hp => div_nonneg (hcut.nonneg ?_) (by norm_num),
    fun hp => div_nonpos_of_nonpos_of_nonneg (hcut.nonpos ?_) (by norm_num)⟩
  · exact mul_nonneg (hrounded.nonneg hp) (by norm_num)
  · exact mul_nonpos_of_nonpos_of_nonneg (hrounded.nonpos hp) (by norm_num)

/-- A product for which there is room is truncated, and nothing else. -/
theorem mul_exact (h : |a.inNanos * b.inNanos| < 2 ^ 96) :
    ∃ c, a.mul b = .ok c ∧ c.isValid = true ∧
      c.inNanos = truncate (a.value * b.value * 10 ^ 9) := by
  have hroom : |a.value * b.value| * 10 ^ 18 < 2 ^ 96 := by
    rw [abs_mul_nanos]
    exact_mod_cast h
  have hpow : (10 : ℚ) ^ (a.toDecimal.scale + b.toDecimal.scale) ≤ 10 ^ 18 :=
    pow_le_pow_right₀ (by norm_num) (scale_add_le a b)
  have hle := mul_le_mul_of_nonneg_left hpow (abs_nonneg (a.value * b.value))
  rcases Decimal.mul?_exact (a := a.toDecimal) (b := b.toDecimal)
    ((scale_add_le a b).trans (by decide)) (by
      rw [value_toDecimal, value_toDecimal]
      exact hle.trans_lt hroom) with ⟨d, hd, hvalue, -⟩
  rw [value_toDecimal, value_toDecimal] at hvalue
  have hfits : Fits d.value := by
    have hsmall := abs_lt.1 (show |a.value * b.value| < 2 ^ 63 by linarith)
    rw [hvalue, fits_iff]
    constructor <;> linarith
  rcases exists_of_fits hfits with ⟨c, hc, hvalid, hn⟩
  exact ⟨c, ofResult_eq_ok_iff.2 ⟨d, hd, hc⟩, hvalid, by rw [hn, hvalue]⟩

/-- A product short of the reach of amounts by a unit is one. -/
theorem exists_mul (h : |a.value * b.value| < 2 ^ 63 - 1) : ∃ c, a.mul b = .ok c := by
  rcases Decimal.exists_mul? (a := a.toDecimal) (b := b.toDecimal) (by
    rw [value_toDecimal, value_toDecimal]
    linarith) with ⟨d, hd⟩
  rcases abs_lt.1 h with ⟨hlow, hhigh⟩
  have hdlow := (mul?_uncrossed hd (-(2 ^ 63 - 1))).1 (by push_cast; linarith)
  have hdhigh := (mul?_uncrossed hd (2 ^ 63 - 1)).2 (by push_cast; linarith)
  push_cast at hdlow hdhigh
  have hfits : Fits d.value := by
    rw [fits_iff]
    constructor <;> linarith
  rcases exists_of_fits hfits with ⟨c, hc, -⟩
  exact ⟨c, ofResult_eq_ok_iff.2 ⟨d, hd, hc⟩⟩

/-- A product is valid, less than a nano off and never of the opposite sign. If the product of the
nanos has 96 bits it is the exact product truncated at nine digits. From the number after the
largest units on, in either direction, there is none, and below the number before them there always
is one. The factors may be exchanged. -/
theorem products_truncated (a b : Amount) :
    (∀ c, a.mul b = .ok c → c.isValid = true ∧ |c.value - a.value * b.value| < 1 / 10 ^ 9 ∧
      (0 ≤ a.value * b.value → 0 ≤ c.value) ∧ (a.value * b.value ≤ 0 → c.value ≤ 0)) ∧
    (|a.inNanos * b.inNanos| < 2 ^ 96 → ∃ c, a.mul b = .ok c ∧ c.isValid = true ∧
      c.inNanos = truncate (a.value * b.value * 10 ^ 9)) ∧
    (2 ^ 63 + 1 ≤ |a.value * b.value| → a.mul b = .error .outOfRange) ∧
    (|a.value * b.value| < 2 ^ 63 - 1 → ∃ c, a.mul b = .ok c) ∧
    a.mul b = b.mul a := by
  refine ⟨fun c h => ?_, mul_exact, fun h => ?_, exists_mul, ?_⟩
  · rcases ofResult_eq_ok_iff.1 h with ⟨d, -, hc⟩
    exact ⟨(ofDecimal_eq_ok_iff.1 hc).1, mul_close h, mul_sign h⟩
  · exact ofResult_of_not_fits (fun d => mul?_uncrossed)
      (fun hfits => absurd h (not_le.2 (abs_lt_of_fits hfits)))
  · rw [mul, mul, Decimal.mul?_comm]

/-- A product that is rounded to more than it is before it is cut off, one that is nothing but what
is cut off, and two on either side of the reach of amounts. -/
theorem products_truncated_rounding :
    (mul ⟨3000000000, 200000003⟩ ⟨3000000000, 3⟩ = .ok ⟨9000000000600000018, 1⟩ ∧
      value ⟨3000000000, 200000003⟩ * value ⟨3000000000, 3⟩ < value ⟨9000000000600000018, 1⟩ ∧
      |value ⟨9000000000600000018, 1⟩ - value ⟨3000000000, 200000003⟩ * value ⟨3000000000, 3⟩| <
        1 / 10 ^ 9) ∧
    (∃ c, mul ⟨0, -1⟩ ⟨0, 999999999⟩ = .ok c ∧ c.isValid = true ∧
      c.inNanos = truncate (value ⟨0, -1⟩ * value ⟨0, 999999999⟩ * 10 ^ 9)) ∧
    mul ⟨-4294967296, 0⟩ ⟨2147483648, 1⟩ = .error .outOfRange ∧
    (∃ c, mul ⟨-4294967296, 0⟩ ⟨2147483647, 999999999⟩ = .ok c) ∧
    mul ⟨-4294967296, 0⟩ ⟨2147483648, 1⟩ = mul ⟨2147483648, 1⟩ ⟨-4294967296, 0⟩ := by
  have hmul : mul ⟨3000000000, 200000003⟩ ⟨3000000000, 3⟩ = .ok ⟨9000000000600000018, 1⟩ := by
    decide +kernel
  exact ⟨⟨hmul, by decide +kernel, ((products_truncated _ _).1 _ hmul).2.1⟩,
    (products_truncated _ _).2.1 (by decide +kernel),
    (products_truncated _ _).2.2.1 (by decide +kernel),
    (products_truncated _ _).2.2.2.1 (by decide +kernel), (products_truncated _ _).2.2.2.2⟩

end Amount

end Bourse
