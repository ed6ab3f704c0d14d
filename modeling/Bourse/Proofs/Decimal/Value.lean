import Bourse.Decimal
import Mathlib.Tactic.FieldSimp
import Mathlib.Tactic.Linarith
import Mathlib.Tactic.NormNum
import Mathlib.Tactic.Positivity
import Mathlib.Tactic.Ring

/-!
# The Values of Decimals

What the arithmetic of decimals does to the values they stand for. The scale of
a decimal is a matter of how it is written; the laws here are about the rational
number alone, and say when an operation returns exactly that number.

Everything rests on `fit?`, the one place that rounds. Two facts about it are
enough. `fit?_exact` says that a value which is a whole number at the largest
scale asked for, and has room there, comes back unchanged: sums and products of
moderate size are exact. `fit?_close` covers the rest: whatever comes back is
within half a unit of the last place it kept, so a result that was too long for
its scale is still never far off.

## Main definitions

* `Decimal.value`: the number that a decimal stands for.
* `Decimal.Yields`: what an operation makes of its exact result.

## Theorems

* `roundHalfEven_close`: rounding moves a quotient by at most one half.
* `fit?_exact`: a value with room at the largest scale is kept as it is.
* `fit?_close`: a fitted value is off by at most half a unit of its last place.
* `add?_exact`, `sub?_exact`, `mul?_exact`: operations that do not round.
* `yields_add?`, `yields_mul?`: all that the other operations do is done by `fit?`.
* `add?_close`, `sub?_close`, `mul?_close`: how far off they are when they do.
-/

namespace Bourse

/-- Rounding a quotient, with the divisor multiplied out. -/
theorem roundHalfEven_bounds (num : Int) {den : Nat} (hden : 0 < den) :
    -(den : Int) ≤ 2 * (roundHalfEven num den * den - num) ∧
      2 * (roundHalfEven num den * den - num) ≤ den := by
  have hlow : 0 ≤ num % den := Int.emod_nonneg num (by omega)
  have hhigh : num % den < den := Int.emod_lt_of_pos num (by omega)
  have hsplit : num / den * den + num % den = num := Int.ediv_mul_add_emod num den
  have hnext : (num / den + 1) * den = num / den * den + den := by ring
  simp only [roundHalfEven]
  -- Whether the rest is below, above or at one half decides the neighbour.
  split_ifs
  · omega
  · rw [hnext]
    omega
  · omega
  · rw [hnext]
    omega

theorem roundHalfEven_close (num : Int) {den : Nat} (hden : 0 < den) :
    |(roundHalfEven num den : ℚ) - num / den| ≤ 1 / 2 := by
  have hpos : (0 : ℚ) < den := by exact_mod_cast hden
  rcases roundHalfEven_bounds num hden with ⟨hlow, hhigh⟩
  have hlow' : -(den : ℚ) ≤ 2 * (roundHalfEven num den * den - num) := by exact_mod_cast hlow
  have hhigh' : 2 * ((roundHalfEven num den : ℚ) * den - num) ≤ den := by exact_mod_cast hhigh
  have hdiff : (roundHalfEven num den : ℚ) - num / den =
      (roundHalfEven num den * den - num) / den := by
    field_simp
  rw [hdiff, abs_le, le_div_iff₀ hpos, div_le_iff₀ hpos]
  constructor <;> linarith

theorem roundHalfEven_of_eq_mul {num k : Int} {den : Nat} (hden : 0 < den) (h : num = k * den) :
    roundHalfEven num den = k := by
  have hrest : num % den = 0 := by rw [h, Int.mul_emod_left]
  have hquot : num / den = k := by rw [h, Int.mul_ediv_cancel _ (by omega)]
  simp only [roundHalfEven]
  rw [hrest, hquot, if_pos (by omega)]

namespace Decimal

/-- The number that a decimal stands for. -/
def value (d : Decimal) : ℚ := d.coefficient / 10 ^ d.scale

@[simp] theorem value_zero : zero.value = 0 := by
  simp only [value, zero, Int.cast_zero, zero_div]

@[simp] theorem value_whole (n : Int) (h : n.natAbs < 2 ^ 96) : (whole n h).value = n := by
  rw [value, whole, pow_zero, div_one]

@[simp] theorem value_neg (d : Decimal) : (-d).value = -d.value := by
  change ((-d.coefficient : Int) : ℚ) / 10 ^ d.scale = -(d.coefficient / 10 ^ d.scale)
  push_cast
  ring

@[simp] theorem scale_neg (d : Decimal) : (-d).scale = d.scale := rfl

theorem value_of_coefficient_eq_zero {d : Decimal} (h : d.coefficient = 0) : d.value = 0 := by
  rw [value, h, Int.cast_zero, zero_div]

theorem value_neg_iff {d : Decimal} : d.value < 0 ↔ d.coefficient < 0 := by
  have hpos : (0 : ℚ) < 10 ^ d.scale := by positivity
  rw [value, div_lt_iff₀ hpos, zero_mul]
  exact Int.cast_lt_zero

theorem isNegative_iff {d : Decimal} : d.isNegative = true ↔ d.value < 0 := by
  rw [value_neg_iff, isNegative, decide_eq_true_eq]

theorem not_isNegative {d : Decimal} (h : 0 ≤ d.value) : ¬ d.isNegative = true := by
  rw [isNegative_iff, not_lt]
  exact h

/-! ## Fitting -/

theorem ofParts?_eq_some {c : Int} {s : Nat} {d : Decimal} (h : ofParts? c s = some d) :
    d.coefficient = c ∧ d.scale = s := by
  unfold ofParts? at h
  split at h
  · rw [← Option.some.inj h]
    exact ⟨rfl, rfl⟩
  · exact absurd h (by simp only [reduceCtorEq, not_false_eq_true])

/-- A value that is a whole number at the largest scale asked for, and has room there, is kept as
it is. -/
theorem fit?_exact {num k : Int} {den scale : Nat} {v : ℚ} (hden : 0 < den) (hv : v = num / den)
    (hk : v * 10 ^ scale = k) (hroom : |v| * 10 ^ scale < 2 ^ 96) (hscale : scale ≤ 28) :
    ∃ d, fit? num den scale = some d ∧ d.value = v ∧ d.scale = scale := by
  have hpos : (0 : ℚ) < den := by exact_mod_cast hden
  -- At this scale the division goes even, so there is nothing to round.
  have hmul : num * 10 ^ scale = k * den := by
    have h : (num : ℚ) * 10 ^ scale = k * den := by
      rw [← hk, hv]
      field_simp
    exact_mod_cast h
  have hround : roundHalfEven (num * 10 ^ scale) den = k := roundHalfEven_of_eq_mul hden hmul
  have hbound : k.natAbs < 2 ^ 96 := by
    have habs : |(k : ℚ)| < 2 ^ 96 := by
      rw [← hk, abs_mul, abs_of_pos (by positivity : (0 : ℚ) < 10 ^ scale)]
      exact hroom
    have hcast : ((k.natAbs : Nat) : ℚ) < 2 ^ 96 := by
      rw [Nat.cast_natAbs, Int.cast_abs]
      exact habs
    exact_mod_cast hcast
  -- The largest scale is the first to be tried, and it fits.
  have hparts : ofParts? k scale = some ⟨k, scale, hbound, hscale⟩ := dif_pos ⟨hbound, hscale⟩
  refine ⟨⟨k, scale, hbound, hscale⟩, ?_, ?_, rfl⟩
  · cases scale with
    | zero =>
        rw [pow_zero, mul_one] at hround
        rw [fit?, hround]
        exact hparts
    | succ s => rw [fit?, hround, hparts]
  · rw [value, ← hk, mul_div_assoc, div_self (by positivity), mul_one]

/-- A fitted value is off by at most half a unit of the last place it kept. -/
theorem fit?_close {num : Int} {den scale : Nat} {d : Decimal} (hden : 0 < den)
    (h : fit? num den scale = some d) :
    |d.value - num / den| ≤ 1 / 2 / 10 ^ d.scale ∧ d.scale ≤ scale := by
  -- The rounded coefficient at any one scale, told as a value.
  have hat : ∀ s, d.coefficient = roundHalfEven (num * 10 ^ s) den → d.scale = s →
      |d.value - num / den| ≤ 1 / 2 / 10 ^ d.scale := by
    intro s hc hs
    have hpos : (0 : ℚ) < 10 ^ s := by positivity
    have hclose := roundHalfEven_close (num * 10 ^ s) hden
    have hdiff : d.value - num / den =
        ((roundHalfEven (num * 10 ^ s) den : ℚ) - (num * 10 ^ s : Int) / den) / 10 ^ s := by
      rw [value, hc, hs]
      push_cast
      field_simp
    rw [hdiff, hs, abs_div, abs_of_pos hpos]
    exact div_le_div_of_nonneg_right hclose hpos.le
  -- Each scale that does not fit is left for the next smaller one.
  induction scale with
  | zero =>
      rcases ofParts?_eq_some h with ⟨hc, hs⟩
      exact ⟨hat 0 (by rw [hc, pow_zero, mul_one]) hs, hs.le⟩
  | succ s ih =>
      rw [fit?] at h
      split at h
      · next d' hd =>
        rcases ofParts?_eq_some hd with ⟨hc, hs⟩
        rw [Option.some.inj h] at hc hs
        exact ⟨hat (s + 1) hc hs, hs.le⟩
      · rcases ih h with ⟨hclose, hle⟩
        exact ⟨hclose, by omega⟩

/-! ## The operations -/

theorem value_add_eq_div (a b : Decimal) :
    a.value + b.value = (a.coefficient * 10 ^ b.scale + b.coefficient * 10 ^ a.scale : Int) /
      (10 ^ (a.scale + b.scale) : Nat) := by
  rw [value, value, pow_add]
  push_cast
  field_simp

theorem value_mul_eq_div (a b : Decimal) :
    a.value * b.value =
      (a.coefficient * b.coefficient : Int) / (10 ^ (a.scale + b.scale) : Nat) := by
  rw [value, value, pow_add]
  push_cast
  field_simp

/-- A value is a whole number at its own scale and at every larger one. -/
theorem value_mul_pow {d : Decimal} {s : Nat} (h : d.scale ≤ s) :
    d.value * 10 ^ s = (d.coefficient * 10 ^ (s - d.scale) : Int) := by
  have hsplit : (10 : ℚ) ^ s = 10 ^ (s - d.scale) * 10 ^ d.scale := by
    rw [← pow_add, Nat.sub_add_cancel h]
  rw [value, hsplit]
  push_cast
  field_simp

theorem value_mul_eq_zero {a b : Decimal} (h : a.coefficient = 0 ∨ b.coefficient = 0) :
    a.value * b.value = 0 := by
  rcases h with h | h
  · rw [value_of_coefficient_eq_zero h, zero_mul]
  · rw [value_of_coefficient_eq_zero h, mul_zero]

theorem add?_exact {a b : Decimal}
    (hroom : |a.value + b.value| * 10 ^ max a.scale b.scale < 2 ^ 96) :
    ∃ c, a.add? b = some c ∧ c.value = a.value + b.value ∧ c.scale ≤ max a.scale b.scale := by
  unfold add?
  split_ifs with ha hb
  · exact ⟨b, rfl, by rw [value_of_coefficient_eq_zero ha, zero_add], le_max_right _ _⟩
  · exact ⟨a, rfl, by rw [value_of_coefficient_eq_zero hb, add_zero], le_max_left _ _⟩
  · have hwhole : (a.value + b.value) * 10 ^ max a.scale b.scale =
        (a.coefficient * 10 ^ (max a.scale b.scale - a.scale) +
          b.coefficient * 10 ^ (max a.scale b.scale - b.scale) : Int) := by
      rw [add_mul, value_mul_pow (le_max_left _ _), value_mul_pow (le_max_right _ _), Int.cast_add]
    rcases fit?_exact (Nat.pow_pos (by decide)) (value_add_eq_div a b) hwhole
      hroom (max_le a.scale_le b.scale_le) with ⟨c, hc, hv, hs⟩
    exact ⟨c, hc, hv, hs.le⟩

theorem sub?_exact {a b : Decimal}
    (hroom : |a.value - b.value| * 10 ^ max a.scale b.scale < 2 ^ 96) :
    ∃ c, a.sub? b = some c ∧ c.value = a.value - b.value ∧ c.scale ≤ max a.scale b.scale := by
  have h := add?_exact (a := a) (b := -b)
  rw [value_neg, scale_neg, ← sub_eq_add_neg] at h
  exact h hroom

theorem mul?_exact {a b : Decimal} (hscale : a.scale + b.scale ≤ 28)
    (hroom : |a.value * b.value| * 10 ^ (a.scale + b.scale) < 2 ^ 96) :
    ∃ c, a.mul? b = some c ∧ c.value = a.value * b.value ∧ c.scale ≤ a.scale + b.scale := by
  unfold mul?
  split_ifs with hzero
  · exact ⟨zero, rfl, by rw [value_zero, value_mul_eq_zero hzero], Nat.zero_le _⟩
  · have hwhole : a.value * b.value * 10 ^ (a.scale + b.scale) =
        (a.coefficient * b.coefficient : Int) := by
      rw [value_mul_eq_div]
      push_cast
      field_simp
    rw [min_eq_left hscale]
    rcases fit?_exact (Nat.pow_pos (by decide)) (value_mul_eq_div a b) hwhole
      hroom hscale with ⟨c, hc, hv, hs⟩
    exact ⟨c, hc, hv, hs.le⟩

/-- Half a unit of any place is at most one half. -/
theorem half_unit_le (s : Nat) : (1 : ℚ) / 2 / 10 ^ s ≤ 1 / 2 :=
  div_le_self (by norm_num) (one_le_pow₀ (by norm_num))

/-- An operation has returned its exact result, or this fitted to at most so many digits. -/
def Yields (scale : Nat) (v : ℚ) (c : Decimal) : Prop :=
  c.value = v ∨ ∃ (num : Int) (den : Nat), 0 < den ∧ (num : ℚ) / den = v ∧
    fit? num den scale = some c

theorem yields_add? {a b c : Decimal} (h : a.add? b = some c) :
    Yields (max a.scale b.scale) (a.value + b.value) c := by
  unfold add? at h
  split_ifs at h with ha hb
  · exact Or.inl (by rw [← Option.some.inj h, value_of_coefficient_eq_zero ha, zero_add])
  · exact Or.inl (by rw [← Option.some.inj h, value_of_coefficient_eq_zero hb, add_zero])
  · exact Or.inr ⟨_, _, Nat.pow_pos (by decide), (value_add_eq_div a b).symm, h⟩

theorem yields_mul? {a b c : Decimal} (h : a.mul? b = some c) :
    Yields (min (a.scale + b.scale) 28) (a.value * b.value) c := by
  unfold mul? at h
  split_ifs at h with hzero
  · exact Or.inl (by rw [← Option.some.inj h, value_zero, value_mul_eq_zero hzero])
  · exact Or.inr ⟨_, _, Nat.pow_pos (by decide), (value_mul_eq_div a b).symm, h⟩

theorem Yields.close {scale : Nat} {v : ℚ} {c : Decimal} (h : Yields scale v c) :
    |c.value - v| ≤ 1 / 2 := by
  rcases h with hexact | ⟨num, den, hden, hv, hfit⟩
  · rw [hexact, sub_self, abs_zero]
    norm_num
  · rw [← hv]
    exact (fit?_close hden hfit).1.trans (half_unit_le _)

theorem add?_close {a b c : Decimal} (h : a.add? b = some c) :
    |c.value - (a.value + b.value)| ≤ 1 / 2 :=
  (yields_add? h).close

theorem sub?_close {a b c : Decimal} (h : a.sub? b = some c) :
    |c.value - (a.value - b.value)| ≤ 1 / 2 := by
  rw [sub_eq_add_neg a.value, ← value_neg]
  exact add?_close h

theorem mul?_close {a b c : Decimal} (h : a.mul? b = some c) :
    |c.value - a.value * b.value| ≤ 1 / 2 :=
  (yields_mul? h).close

end Decimal

end Bourse
