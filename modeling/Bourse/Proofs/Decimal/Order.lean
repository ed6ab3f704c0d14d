import Bourse.Proofs.Decimal.Value

/-!
# Rounding Keeps the Order

Rounding moves a result, but not past a number that could have been kept. What is rounded is
the nearest of the numbers with a certain count of digits, so if such a number is on one side of
the exact result, it is not on the other side of the rounded one.

Which numbers could have been kept is a matter of room: digits for which there is room at a larger
scale are not given up for fewer.

## Theorems

* `fit?_le`, `le_fit?`: rounding does not pass a whole number of units of the last place.
* `le_scale_of_fit?`: digits for which there is room are kept.
-/

namespace Bourse

namespace Decimal

variable {num : Int} {den scale t : Nat} {d : Decimal}

/-- The coefficient is the exact number of units of the last place kept, rounded. -/
theorem coefficient_of_fit? (hden : 0 < den) (h : fit? num den scale = some d) :
    |(d.coefficient : ℚ) - num / den * 10 ^ d.scale| ≤ 1 / 2 := by
  have hpos : (0 : ℚ) < 10 ^ d.scale := by positivity
  have hclose := (fit?_close hden h).1
  have hunits : (d.coefficient : ℚ) - num / den * 10 ^ d.scale =
      (d.value - num / den) * 10 ^ d.scale := by
    rw [value, sub_mul, div_mul_cancel₀ _ hpos.ne']
  rw [hunits, abs_mul, abs_of_pos hpos, ← le_div_iff₀ hpos]
  exact hclose

/-- Rounding does not pass a whole number of units of the last place kept from below. -/
theorem fit?_le (hden : 0 < den) (h : fit? num den scale = some d) {k : Int}
    (hk : (num : ℚ) / den * 10 ^ d.scale ≤ k) : d.coefficient ≤ k := by
  have hclose := (abs_le.1 (coefficient_of_fit? hden h)).2
  have hlt : (d.coefficient : ℚ) < k + 1 := by linarith
  have hlt' : d.coefficient < k + 1 := by exact_mod_cast hlt
  omega

/-- Nor does it from above. -/
theorem le_fit? (hden : 0 < den) (h : fit? num den scale = some d) {k : Int}
    (hk : k ≤ (num : ℚ) / den * 10 ^ d.scale) : k ≤ d.coefficient := by
  have hclose := (abs_le.1 (coefficient_of_fit? hden h)).1
  have hlt : (k : ℚ) < d.coefficient + 1 := by linarith
  have hlt' : k < d.coefficient + 1 := by exact_mod_cast hlt
  omega

/-- A quotient for which there is room at a scale has a decimal of this scale. -/
theorem isSome_ofParts? (hden : 0 < den) (hscale : t ≤ 28)
    (hroom : |(num : ℚ) / den| * 10 ^ t + 1 / 2 < 2 ^ 96) :
    (ofParts? (roundHalfEven (num * 10 ^ t) den) t).isSome = true := by
  have hpos : (0 : ℚ) < 10 ^ t := by positivity
  have hclose := roundHalfEven_close (num * 10 ^ t) hden
  have hexact : ((num * 10 ^ t : Int) : ℚ) / den = num / den * 10 ^ t := by
    push_cast
    ring
  rw [hexact] at hclose
  have hbound : |(roundHalfEven (num * 10 ^ t) den : ℚ)| < 2 ^ 96 := by
    have hsum := abs_add_le ((roundHalfEven (num * 10 ^ t) den : ℚ) - num / den * 10 ^ t)
      (num / den * 10 ^ t)
    rw [sub_add_cancel, abs_mul _ ((10 : ℚ) ^ t), abs_of_pos hpos] at hsum
    linarith
  have hbits : (roundHalfEven (num * 10 ^ t) den).natAbs < 2 ^ 96 := by
    have hcast : (((roundHalfEven (num * 10 ^ t) den).natAbs : Nat) : ℚ) < 2 ^ 96 := by
      rw [Nat.cast_natAbs, Int.cast_abs]
      exact hbound
    exact_mod_cast hcast
  rw [ofParts?, dif_pos ⟨hbits, hscale⟩]
  rfl

/-- Digits for which there is room are kept. -/
theorem le_scale_of_fit? (hden : 0 < den) (hscale : scale ≤ 28) (ht : t ≤ scale)
    (hroom : |(num : ℚ) / den| * 10 ^ t + 1 / 2 < 2 ^ 96) (h : fit? num den scale = some d) :
    t ≤ d.scale := by
  induction scale with
  | zero => omega
  | succ s ih =>
      rw [fit?] at h
      split at h
      · next d' hd =>
        rw [← Option.some.inj h, (ofParts?_eq_some hd).2]
        exact ht
      · next hnone =>
        by_cases hlast : t = s + 1
        · -- There is room at the first scale that is tried.
          have hsome := isSome_ofParts? hden (hlast ▸ hscale) hroom
          rw [hlast, hnone] at hsome
          exact absurd hsome Bool.false_ne_true
        · exact ih (by omega) (by omega) h

end Decimal

end Bourse
