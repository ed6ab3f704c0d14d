import Bourse.Proofs.Amount.Products

/-!
# Quotients

A quotient has no end of digits, as a rule. It is rounded to the digits for which there is room, at
most twenty-eight and at least nine, before it is cut off at nine. So it is truncated, unless it is
so close to the next nano that the rounding reaches it: within half a unit of the last digit kept.

How close a quotient can be is a matter of its divisor. It is a fraction of the divisor's nanos away
from every nano that it does not hit, and so the rounding reaches one only if the divisor is large,
or if the quotient is so large that few digits are kept. Below fifteen billion units neither
happens. Nor does rounding ever reach a whole number that is out of range.

## Main definitions

* `Amount.IsQuotient`: a quotient, rounded to a decimal and then cut off.

## Theorems

* `Decimal.exists_div?`: a quotient is rounded once.
* `IsQuotient.truncated_or`: a quotient is truncated, or it is the nano that rounding has reached.
* `IsQuotient.truncated`: quotients of moderate amounts are truncated.
* `fits_of_close`: rounding does not take a quotient out of range.
* `quotients_truncated`: what a quotient is, and when there is one.
-/

namespace Bourse

namespace Decimal

variable {a b : Decimal}

theorem value_div_eq_div (a : Decimal) (hb : b.coefficient ≠ 0) :
    a.value / b.value = (a.coefficient * 10 ^ b.scale * b.coefficient.sign : Int) /
      (b.coefficient.natAbs * 10 ^ a.scale : Nat) := by
  have hsign : ((b.coefficient.sign : Int) : ℚ) * (b.coefficient.sign : Int) = 1 := by
    have hone : b.coefficient.sign * b.coefficient.sign = 1 := by
      rw [← Int.sign_mul, Int.sign_eq_one_iff_pos]
      exact mul_self_pos.2 hb
    exact_mod_cast hone
  have hsplit : ((b.coefficient : Int) : ℚ) =
      (b.coefficient.sign : Int) * ((b.coefficient.natAbs : Nat) : ℚ) := by
    rw [← Int.cast_natCast b.coefficient.natAbs, ← Int.cast_mul, Int.sign_mul_natAbs]
  have hsize : ((b.coefficient.natAbs : Nat) : ℚ) ≠ 0 := by
    exact_mod_cast Int.natAbs_ne_zero.2 hb
  have hne := left_ne_zero_of_mul_eq_one hsign
  rw [value, value, hsplit]
  push_cast
  field_simp
  rw [sq, hsign, mul_one]

/-- A quotient within reach is rounded once, to the decimal fitted to it. -/
theorem exists_div? (hb : b.coefficient ≠ 0) (hroom : |a.value / b.value| + 1 / 2 < 2 ^ 96) :
    ∃ c d, a.div? b = some c ∧ c.value = d.value ∧ Fitted 28 (a.value / b.value) d := by
  unfold div?
  rw [if_neg hb]
  split_ifs with ha
  · -- Nothing has no digits, where the fitted decimal has them all.
    refine ⟨zero, ⟨0, 28, by decide, by decide⟩, rfl, ?_, fitted_of_scale_eq rfl ?_⟩
    · rw [value_zero, value_of_coefficient_eq_zero rfl]
    · rw [value_of_coefficient_eq_zero ha, zero_div, zero_mul]
      exact ⟨by norm_num, fun _ => Even.zero⟩
  · have hden : 0 < b.coefficient.natAbs * 10 ^ a.scale :=
      Nat.mul_pos (Int.natAbs_pos.2 hb) (Nat.pow_pos (by decide))
    rw [value_div_eq_div a hb] at hroom ⊢
    rcases exists_fit? hden (le_refl 28) hroom with ⟨d, hd⟩
    exact ⟨d, d, hd, rfl, (fit?_eq_some_iff hden (le_refl 28)).1 hd⟩

end Decimal

namespace Amount

variable {a b c : Amount} {d : Decimal} {q w : ℚ}

/-- A quotient, rounded to the decimal with the digits for which there is room, nine at least, and
then cut off at nine. -/
structure IsQuotient (q : ℚ) (d : Decimal) (c : Amount) : Prop where
  fitted : d.Fitted 28 q
  nine_le : 9 ≤ d.scale
  valid : c.isValid = true
  inNanos_eq : c.inNanos = truncate (d.value * 10 ^ 9)

/-- A quotient is truncated, unless the decimal is a nano further away from zero. -/
theorem IsQuotient.truncated_or (h : IsQuotient q d c) :
    c.inNanos = truncate (q * 10 ^ 9) ∨
      (c.value = d.value ∧ |q| < |c.value| ∧ |c.value - q| ≤ 1 / 2 / 10 ^ d.scale) := by
  rcases (h.fitted.uncrossed (le_refl 28) h.nine_le).truncate_eq_or with hsame | ⟨hwhole, hlt⟩
  · exact Or.inl (h.inNanos_eq.trans hsame)
  · right
    have hvalue : c.value = d.value := by
      rw [value, h.inNanos_eq, ← hwhole, mul_div_cancel_right₀ _ (by norm_num)]
    rw [abs_mul, abs_mul, mul_lt_mul_iff_left₀ (by norm_num)] at hlt
    rw [hvalue]
    exact ⟨rfl, hlt, h.fitted.close (le_refl 28)⟩

/-! ## How close a quotient can be -/

theorem abs_value_mul (a : Amount) : |a.value| * 10 ^ 9 = |(a.inNanos : ℚ)| := by
  rw [value, abs_div, abs_of_pos (by norm_num : (0 : ℚ) < 10 ^ 9),
    div_mul_cancel₀ _ (by norm_num)]

theorem abs_value_div (a b : Amount) :
    |a.value / b.value| = |(a.inNanos : ℚ)| / |(b.inNanos : ℚ)| := by
  rw [value, value, div_div_div_cancel_right₀ (by norm_num), abs_div]

/-- A quotient is a fraction of the divisor's nanos away from every nano that it is not. -/
theorem one_le_abs_sub_div (hb : (b.inNanos : ℚ) ≠ 0) (h : c.value ≠ a.value / b.value) :
    1 ≤ |c.value - a.value / b.value| * (10 ^ 9 * |(b.inNanos : ℚ)|) := by
  -- With the divisors multiplied out the difference is an integer.
  have hdiff : (c.value - a.value / b.value) * (10 ^ 9 * b.inNanos) =
      (c.inNanos * b.inNanos - a.inNanos * 10 ^ 9 : Int) := by
    rw [value, value, value, div_div_div_cancel_right₀ (by norm_num)]
    push_cast
    field_simp
    ring
  have hne : c.inNanos * b.inNanos - a.inNanos * 10 ^ 9 ≠ 0 := by
    intro hzero
    rw [hzero, Int.cast_zero, mul_eq_zero, sub_eq_zero] at hdiff
    exact hdiff.elim h (mul_ne_zero (by norm_num) hb)
  have hsize : (10 : ℚ) ^ 9 * |(b.inNanos : ℚ)| = |10 ^ 9 * (b.inNanos : ℚ)| := by
    rw [abs_mul, abs_of_pos (by norm_num : (0 : ℚ) < 10 ^ 9)]
  rw [hsize, ← abs_mul, hdiff, ← Int.cast_abs]
  exact_mod_cast Int.one_le_abs hne

/-- Quotients of moderate amounts are truncated. -/
theorem IsQuotient.truncated (h : IsQuotient (a.value / b.value) d c) (hb : (b.inNanos : ℚ) ≠ 0)
    (hdividend : |a.value| < 15 * 10 ^ 9) (hdivisor : |b.value| < 20 * 10 ^ 9) :
    c.inNanos = truncate (a.value / b.value * 10 ^ 9) := by
  rcases h.truncated_or with hsame | ⟨-, hlt, hclose⟩
  · exact hsame
  exfalso
  have hsizeA := a.abs_value_mul
  have hsizeB := b.abs_value_mul
  have hposB : 0 < |(b.inNanos : ℚ)| := abs_pos.2 hb
  have hunit : (0 : ℚ) < 10 ^ d.scale := by positivity
  -- If rounding reaches a nano, then half a unit of the last digit bridges the gap to it.
  have hgap : 2 * 10 ^ d.scale ≤ 10 ^ 9 * |(b.inNanos : ℚ)| := by
    have hone := one_le_abs_sub_div hb (fun heq => hlt.ne (congrArg abs heq.symm))
    have hle := hone.trans (mul_le_mul_of_nonneg_right hclose (by positivity))
    rw [div_mul_eq_mul_div, le_div_iff₀ hunit] at hle
    linarith
  -- So there are fewer digits than there might be, and there was no room for one more.
  have hfew : d.scale < 28 := by
    by_contra hall
    have hpow : (10 : ℚ) ^ 28 ≤ 10 ^ d.scale := pow_le_pow_right₀ (by norm_num) (by omega)
    linarith
  have hfull : (2 : ℚ) ^ 96 ≤ |a.value / b.value| * 10 ^ (d.scale + 1) + 1 / 2 := by
    by_contra hroom
    rw [not_le] at hroom
    have hle := h.fitted.le_scale (le_refl 28) (show d.scale + 1 ≤ 28 by omega) hroom
    omega
  have hquotient : |a.value / b.value| * (2 * 10 ^ d.scale) ≤ |(a.inNanos : ℚ)| * 10 ^ 9 := by
    calc |a.value / b.value| * (2 * 10 ^ d.scale)
        ≤ |a.value / b.value| * (10 ^ 9 * |(b.inNanos : ℚ)|) :=
          mul_le_mul_of_nonneg_left hgap (abs_nonneg _)
      _ = |(a.inNanos : ℚ)| * 10 ^ 9 := by
          rw [abs_value_div]
          field_simp
  rw [pow_succ (10 : ℚ)] at hfull
  linarith

/-! ## The reach of quotients -/

/-- A quotient that is this close below a whole number has a dividend of about twice as many nanos
as the number has. -/
theorem dividend_of_close {m n k : Int} (hm : 0 ≤ m) (hn : 0 < n) (hlt : (m : ℚ) / n < k)
    (hclose : (k : ℚ) - m / n ≤ 1 / 2 / 10 ^ 9) : 2 * 10 ^ 9 * ((k : ℚ) - 1) ≤ m := by
  have hpos : (0 : ℚ) < n := by exact_mod_cast hn
  have hnonneg : (0 : ℚ) ≤ m := by exact_mod_cast hm
  have hless : (m : ℚ) < k * n := (div_lt_iff₀ hpos).1 hlt
  have hnext : m + 1 ≤ k * n := by exact_mod_cast hless
  have hnext' : (m : ℚ) + 1 ≤ k * n := by exact_mod_cast hnext
  have hgap : (k : ℚ) * n - m ≤ 1 / 2 / 10 ^ 9 * n := by
    have hle := mul_le_mul_of_nonneg_right hclose hpos.le
    rw [sub_mul, div_mul_cancel₀ _ hpos.ne'] at hle
    exact hle
  have hk : (1 : ℚ) ≤ k := by
    have hpositive : (0 : ℚ) < k := (mul_pos_iff_of_pos_right hpos).1 (hnonneg.trans_lt hless)
    have hpositive' : 0 < k := by exact_mod_cast hpositive
    exact_mod_cast hpositive'
  -- The gap is a nano of the dividend or more, so the divisor has two billion of them.
  have hsize : (2 * 10 ^ 9 : ℚ) ≤ n := by linarith
  calc 2 * 10 ^ 9 * ((k : ℚ) - 1) ≤ n * (k - 1) :=
        mul_le_mul_of_nonneg_right hsize (by linarith)
    _ ≤ m := by linarith

/-- Rounding to nine digits or more does not take a quotient to a whole number that is beyond the
largest units. -/
theorem abs_lt_of_close (ha : a.isValid = true) (hb : b.inNanos ≠ 0) {k : Int} (hk : 2 ^ 63 ≤ k)
    (hlt : |a.value / b.value| < k) (hclose : |w - a.value / b.value| ≤ 1 / 2 / 10 ^ 9) :
    |w| < k := by
  by_contra hreached
  rw [not_lt] at hreached
  have hdiff := abs_sub_abs_le_abs_sub w (a.value / b.value)
  rw [abs_value_div, ← Int.cast_abs, ← Int.cast_abs] at hlt hdiff
  have hdividend := dividend_of_close (abs_nonneg _) (abs_pos.2 hb) hlt (by linarith)
  have hvalue := abs_lt_of_fits (fits_value ha)
  have hnanos := a.abs_value_mul
  have hk' : (2 ^ 63 : ℚ) ≤ k := by exact_mod_cast hk
  rw [Int.cast_abs] at hdividend
  linarith

/-- Rounding does not take a quotient out of range. -/
theorem fits_of_close (ha : a.isValid = true) (hb : b.inNanos ≠ 0)
    (hfits : Fits (a.value / b.value)) (hcrossed : Uncrossed (a.value / b.value) w)
    (hclose : |w - a.value / b.value| ≤ 1 / 2 / 10 ^ 9) : Fits w := by
  rcases fits_iff.1 hfits with ⟨hlow, hhigh⟩
  rw [fits_iff]
  rcases le_total 0 (a.value / b.value) with hq | hq
  · have hw := hcrossed.nonneg hq
    have hlt := abs_lt_of_close ha hb (k := 2 ^ 63) (le_refl _) (by
      rw [abs_of_nonneg hq]
      push_cast
      exact hhigh) hclose
    rw [abs_of_nonneg hw] at hlt
    push_cast at hlt
    constructor <;> linarith
  · have hw := hcrossed.nonpos hq
    have hlt := abs_lt_of_close ha hb (k := 2 ^ 63 + 1) (by norm_num) (by
      rw [abs_of_nonpos hq]
      push_cast
      linarith) hclose
    rw [abs_of_nonpos hw] at hlt
    push_cast at hlt
    constructor <;> linarith

/-! ## Quotients -/

theorem inNanos_ne_zero (hb : b.isValid = true) (hzero : b.isZero = false) : b.inNanos ≠ 0 := by
  rw [Ne, ← isZero_iff hb, Bool.not_eq_true]
  exact hzero

theorem coefficient_ne_zero (hb : b.inNanos ≠ 0) : b.toDecimal.coefficient ≠ 0 := by
  intro hc
  have hvalue := Decimal.value_of_coefficient_eq_zero hc
  rw [value_toDecimal, value, div_eq_zero_iff] at hvalue
  rcases hvalue with hvalue | hvalue
  · exact hb (by exact_mod_cast hvalue)
  · norm_num at hvalue

/-- No quotient of amounts is too long for a decimal without fractional digits. -/
theorem abs_value_div_lt (a : Amount) (hb : b.inNanos ≠ 0) :
    |a.value / b.value| + 1 / 2 < 2 ^ 96 := by
  have hone : (1 : ℚ) ≤ |(b.inNanos : ℚ)| := by
    rw [← Int.cast_abs]
    exact_mod_cast Int.one_le_abs hb
  have hle := div_le_self (abs_nonneg (a.inNanos : ℚ)) hone
  have hvalue := a.abs_value_lt
  have hnanos := a.abs_value_mul
  rw [abs_value_div]
  linarith

/-- A quotient of amounts is that of their decimals, which is rounded once. -/
theorem exists_div (a : Amount) (hb : b.isValid = true) (hzero : b.isZero = false) :
    ∃ d d' : Decimal, a.div b = ofDecimal d' ∧ d'.value = d.value ∧
      d.Fitted 28 (a.value / b.value) := by
  have hne := inNanos_ne_zero hb hzero
  rcases Decimal.exists_div? (a := a.toDecimal) (coefficient_ne_zero hne) (by
    rw [value_toDecimal, value_toDecimal]
    exact abs_value_div_lt a hne) with ⟨d', d, hd', hvalue, hfitted⟩
  rw [value_toDecimal, value_toDecimal] at hfitted
  refine ⟨d, d', ?_, hvalue, hfitted⟩
  rw [div, hzero, hd']
  rfl

/-- A quotient that fits is an amount. -/
theorem exists_isQuotient (ha : a.isValid = true) (hb : b.isValid = true)
    (hzero : b.isZero = false) (hfits : Fits (a.value / b.value)) :
    ∃ d c, a.div b = .ok c ∧ IsQuotient (a.value / b.value) d c := by
  rcases exists_div a hb hzero with ⟨d, d', hdiv, hvalue, hfitted⟩
  have hreach := abs_lt_of_fits hfits
  have hnine : 9 ≤ d.scale := hfitted.le_scale (le_refl 28) (by decide) (by linarith)
  have hclose := (hfitted.close (le_refl 28)).trans (Decimal.half_unit_le_half_nano hnine)
  have hfits' := fits_of_close ha (inNanos_ne_zero hb hzero) hfits hfitted.uncrossed_whole hclose
  rw [← hvalue] at hfits'
  rcases exists_of_fits hfits' with ⟨c, hc, hvalid, hn⟩
  exact ⟨d, c, hdiv.trans hc, hfitted, hnine, hvalid, by rw [hn, hvalue]⟩

/-- There is no quotient by nothing, and one that does not fit is out of range. Any other is rounded
to a decimal and cut off. It is the exact one truncated at nine digits, or else the nano further
away from zero that the decimal is; the latter only if an amount is large. -/
theorem quotients_truncated (ha : a.isValid = true) (hb : b.isValid = true) :
    (b.isZero = true → a.div b = .error .divisionByZero) ∧
    (b.isZero = false → ¬ Fits (a.value / b.value) → a.div b = .error .outOfRange) ∧
    (b.isZero = false → Fits (a.value / b.value) →
      ∃ d c, a.div b = .ok c ∧ IsQuotient (a.value / b.value) d c ∧
        (c.inNanos = truncate (a.value / b.value * 10 ^ 9) ∨
          (c.value = d.value ∧ |a.value / b.value| < |c.value| ∧
            |c.value - a.value / b.value| ≤ 1 / 2 / 10 ^ d.scale)) ∧
        (|a.value| < 15 * 10 ^ 9 → |b.value| < 20 * 10 ^ 9 →
          c.inNanos = truncate (a.value / b.value * 10 ^ 9))) := by
  refine ⟨fun hzero => ?_, fun hzero hfits => ?_, fun hzero hfits => ?_⟩
  · unfold div
    exact if_pos hzero
  · rcases exists_div a hb hzero with ⟨d, d', hdiv, hvalue, hfitted⟩
    rw [hdiv, ofDecimal_eq_error_iff, hvalue]
    exact not_fits_of_uncrossed hfitted.uncrossed_whole hfits
  · rcases exists_isQuotient ha hb hzero hfits with ⟨d, c, hc, hquotient⟩
    have hne : (b.inNanos : ℚ) ≠ 0 := Int.cast_ne_zero.2 (inNanos_ne_zero hb hzero)
    exact ⟨d, c, hc, hquotient, hquotient.truncated_or, hquotient.truncated hne⟩

/-- Thirty divided by thirty billion and a nano is just below one nano, and becomes one. -/
theorem quotient_past_truncation :
    isValid ⟨30, 0⟩ = true ∧ isValid ⟨30000000000, 1⟩ = true ∧
    isZero ⟨30000000000, 1⟩ = false ∧ Fits (value ⟨30, 0⟩ / value ⟨30000000000, 1⟩) ∧
    truncate (value ⟨30, 0⟩ / value ⟨30000000000, 1⟩ * 10 ^ 9) = 0 ∧
    div ⟨30, 0⟩ ⟨30000000000, 1⟩ = .ok ⟨0, 1⟩ ∧ inNanos ⟨0, 1⟩ = 1 := by
  decide +kernel

/-- A quotient that rounding takes to the next nano, two thirds with all digits cut off, the largest
amount divided by a little less than one, and a division by nothing. -/
theorem quotients_truncated_reaching :
    (∃ d c, div ⟨-24000000000, -2⟩ ⟨0, 3⟩ = .ok c ∧
      IsQuotient (value ⟨-24000000000, -2⟩ / value ⟨0, 3⟩) d c) ∧
    (∃ d c, div ⟨-2, 0⟩ ⟨3, 0⟩ = .ok c ∧ IsQuotient (value ⟨-2, 0⟩ / value ⟨3, 0⟩) d c ∧
      c.inNanos = truncate (value ⟨-2, 0⟩ / value ⟨3, 0⟩ * 10 ^ 9)) ∧
    div ⟨9223372036854775807, 999999999⟩ ⟨0, 999999999⟩ = .error .outOfRange ∧
    div ⟨1, 0⟩ ⟨0, 0⟩ = .error .divisionByZero := by
  refine ⟨?_, ?_, (quotients_truncated (by decide) (by decide)).2.1 (by decide) (by decide +kernel),
    (quotients_truncated (by decide) (by decide)).1 (by decide)⟩
  · rcases (@quotients_truncated ⟨-24000000000, -2⟩ ⟨0, 3⟩ (by decide) (by decide)).2.2
      (by decide) (by decide +kernel) with ⟨d, c, hc, hquotient, -⟩
    exact ⟨d, c, hc, hquotient⟩
  · rcases (@quotients_truncated ⟨-2, 0⟩ ⟨3, 0⟩ (by decide) (by decide)).2.2
      (by decide) (by decide +kernel) with ⟨d, c, hc, hquotient, -, hexact⟩
    exact ⟨d, c, hc, hquotient, hexact (by decide +kernel) (by decide +kernel)⟩

end Amount

end Bourse
