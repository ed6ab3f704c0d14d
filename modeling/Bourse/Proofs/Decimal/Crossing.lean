import Bourse.Proofs.Decimal.Nearest
import Bourse.Proofs.Decimal.Truncation

/-!
# What Rounding Does Not Cross

A result may be rounded first and truncated after that, and what is truncated then is not quite the
exact result. It does not matter unless a whole number lies between the two, or is reached. Rounding
never takes a number across a whole number, since that can be kept. So there is just one way in
which the two truncations differ: the rounded number is a whole number itself, the next one away
from zero.

What is said of whole numbers holds of the units of any place for which there is room. A sum has
room for the digits of its first operand, unless it is very large. So adding something that is not
negative to a decimal never gives less than this decimal, and adding something that is not positive
never gives more.

## Main definitions

* `Uncrossed`: no whole number lies between two numbers.

## Theorems

* `Uncrossed.truncate_eq_or`: what truncation makes of a number that has been rounded.
* `Decimal.fit?_uncrossed`: rounding crosses no unit of a place that is kept.
* `Decimal.Yields.uncrossed_at`, `Yields.uncrossed`: operations cross no unit of a place for which
  there is room, and no whole number at all.
* `Decimal.add?_le`, `le_add?`: a sum is on the same side of its first operand as the second is of
  zero.
-/

namespace Bourse

/-- No whole number lies between a number and what has become of it. -/
def Uncrossed (v w : ℚ) : Prop :=
  ∀ k : Int, ((k : ℚ) ≤ v → (k : ℚ) ≤ w) ∧ (v ≤ k → w ≤ k)

namespace Uncrossed

variable {v w : ℚ}

theorem refl (v : ℚ) : Uncrossed v v := fun _ => ⟨id, id⟩

theorem neg (h : Uncrossed v w) : Uncrossed (-v) (-w) := by
  intro k
  have hk := h (-k)
  rw [Int.cast_neg] at hk
  refine ⟨fun hle => ?_, fun hle => ?_⟩
  · have := hk.2 (by linarith)
    linarith
  · have := hk.1 (by linarith)
    linarith

theorem lt (h : Uncrossed v w) {k : Int} (hw : w < k) : v < k :=
  lt_of_not_ge (fun hle => absurd ((h k).1 hle) (not_le.2 hw))

theorem nonneg (h : Uncrossed v w) (hv : 0 ≤ v) : 0 ≤ w := by
  rw [← Int.cast_zero] at hv ⊢
  exact (h 0).1 hv

theorem nonpos (h : Uncrossed v w) (hv : v ≤ 0) : w ≤ 0 := by
  rw [← Int.cast_zero] at hv ⊢
  exact (h 0).2 hv

/-- Of a number that has been rounded, truncation makes the same as of the exact one, unless it is
a whole number further away from zero. -/
theorem truncate_eq_or (h : Uncrossed v w) :
    truncate w = truncate v ∨ (w = truncate w ∧ |v| < |w|) := by
  have hcut : ∀ {v w : ℚ}, Uncrossed v w → 0 ≤ v →
      truncate w = truncate v ∨ (w = truncate w ∧ |v| < |w|) := by
    intro v w h hv
    have hw := h.nonneg hv
    have hlow := (h ⌊v⌋).1 (Int.floor_le v)
    have hhigh := (h (⌊v⌋ + 1)).2 (by
      push_cast
      exact (Int.lt_floor_add_one v).le)
    rcases lt_or_eq_of_le hhigh with hlt | heq
    · left
      rw [truncate_of_nonneg hw, truncate_of_nonneg hv, Int.floor_eq_iff]
      push_cast at hlt
      exact ⟨hlow, hlt⟩
    · right
      rw [abs_of_nonneg hv, abs_of_nonneg hw, heq, truncate_intCast]
      refine ⟨rfl, ?_⟩
      push_cast
      exact Int.lt_floor_add_one v
  rcases le_total 0 v with hv | hv
  · exact hcut h hv
  · -- Below zero everything is the opposite.
    rcases hcut h.neg (by linarith) with hsame | ⟨hwhole, hlt⟩
    · left
      rw [truncate_neg, truncate_neg] at hsame
      omega
    · right
      rw [truncate_neg, Int.cast_neg, neg_inj] at hwhole
      rw [abs_neg, abs_neg] at hlt
      exact ⟨hwhole, hlt⟩

end Uncrossed

/-- Truncation crosses no whole number either. -/
theorem uncrossed_truncate (v : ℚ) : Uncrossed v (truncate v) := by
  intro k
  simp only [Int.cast_le]
  unfold truncate
  split_ifs
  · exact ⟨Int.le_floor.2, fun h => Int.cast_le.1 ((Int.floor_le v).trans h)⟩
  · exact ⟨fun h => Int.cast_le.1 (h.trans (Int.le_ceil v)), Int.ceil_le.2⟩

namespace Decimal

variable {num : Int} {den scale t : Nat} {a b c d : Decimal} {v : ℚ}

/-- Rounding crosses no unit of a place that is kept. -/
theorem fit?_uncrossed (hden : 0 < den) (h : fit? num den scale = some d) (ht : t ≤ d.scale) :
    Uncrossed (num / den * 10 ^ t) (d.value * 10 ^ t) := by
  have hlast : (0 : ℚ) < 10 ^ (d.scale - t) := by positivity
  have hsplit : (10 : ℚ) ^ d.scale = 10 ^ t * 10 ^ (d.scale - t) := by
    rw [← pow_add, Nat.add_sub_cancel' ht]
  have hwhole : d.value * 10 ^ t * 10 ^ (d.scale - t) = d.coefficient := by
    rw [mul_assoc, ← hsplit, value, div_mul_cancel₀ _ (by positivity)]
  -- A unit of an earlier place is a number of units of the last.
  intro k
  refine ⟨fun hle => ?_, fun hle => ?_⟩
  · have hk := le_fit? (k := k * 10 ^ (d.scale - t)) hden h (by
      rw [hsplit, ← mul_assoc]
      push_cast
      exact mul_le_mul_of_nonneg_right hle hlast.le)
    have hk' : (k : ℚ) * 10 ^ (d.scale - t) ≤ d.coefficient := by exact_mod_cast hk
    rw [← hwhole] at hk'
    exact le_of_mul_le_mul_right hk' hlast
  · have hk := fit?_le (k := k * 10 ^ (d.scale - t)) hden h (by
      rw [hsplit, ← mul_assoc]
      push_cast
      exact mul_le_mul_of_nonneg_right hle hlast.le)
    have hk' : (d.coefficient : ℚ) ≤ k * 10 ^ (d.scale - t) := by exact_mod_cast hk
    rw [← hwhole] at hk'
    exact le_of_mul_le_mul_right hk' hlast

theorem Fitted.uncrossed (h : Fitted scale v d) (hscale : scale ≤ 28) (ht : t ≤ d.scale) :
    Uncrossed (v * 10 ^ t) (d.value * 10 ^ t) := by
  have hcrossed := fit?_uncrossed v.den_pos (h.fit?_eq hscale) ht
  rw [Rat.num_div_den] at hcrossed
  exact hcrossed

theorem Fitted.uncrossed_whole (h : Fitted 28 v d) : Uncrossed v d.value := by
  have hcrossed := h.uncrossed (t := 0) (le_refl 28) (Nat.zero_le _)
  rw [pow_zero, mul_one, mul_one] at hcrossed
  exact hcrossed

/-- An operation crosses no unit of a place for which there is room. -/
theorem Yields.uncrossed_at (h : Yields scale v c) (hscale : scale ≤ 28) (ht : t ≤ scale)
    (hroom : |v| * 10 ^ t + 1 / 2 < 2 ^ 96) : Uncrossed (v * 10 ^ t) (c.value * 10 ^ t) := by
  rcases h with hexact | ⟨num, den, hden, rfl, hfit⟩
  · rw [hexact]
    exact Uncrossed.refl _
  · exact fit?_uncrossed hden hfit (le_scale_of_fit? hden hscale ht hroom hfit)

/-- It crosses no whole number, whether there was room for more or not. -/
theorem Yields.uncrossed (h : Yields scale v c) : Uncrossed v c.value := by
  rcases h with hexact | ⟨num, den, hden, rfl, hfit⟩
  · rw [hexact]
    exact Uncrossed.refl v
  · have hcrossed := fit?_uncrossed (t := 0) hden hfit (Nat.zero_le _)
    rw [pow_zero, mul_one, mul_one] at hcrossed
    exact hcrossed

theorem add?_uncrossed (h : a.add? b = some c) : Uncrossed (a.value + b.value) c.value :=
  (yields_add? h).uncrossed

theorem mul?_uncrossed (h : a.mul? b = some c) : Uncrossed (a.value * b.value) c.value :=
  (yields_mul? h).uncrossed

/-- A sum with room for the digits of its first operand passes no unit of the last of them. -/
theorem add?_uncrossed_left (h : a.add? b = some c)
    (hroom : |a.value + b.value| * 10 ^ a.scale + 1 / 2 < 2 ^ 96) :
    Uncrossed ((a.value + b.value) * 10 ^ a.scale) (c.value * 10 ^ a.scale) :=
  (yields_add? h).uncrossed_at (max_le a.scale_le b.scale_le) (le_max_left _ _) hroom

/-- Adding something that is not positive never gives more. -/
theorem add?_le (h : a.add? b = some c)
    (hroom : |a.value + b.value| * 10 ^ a.scale + 1 / 2 < 2 ^ 96) (hb : b.value ≤ 0) :
    c.value ≤ a.value := by
  have hpos : (0 : ℚ) < 10 ^ a.scale := by positivity
  refine le_of_mul_le_mul_right ?_ hpos
  rw [value_mul_pow (le_refl a.scale)]
  refine (add?_uncrossed_left h hroom _).2 ?_
  rw [← value_mul_pow (le_refl a.scale)]
  exact mul_le_mul_of_nonneg_right (by linarith) hpos.le

/-- Adding something that is not negative never gives less. -/
theorem le_add? (h : a.add? b = some c)
    (hroom : |a.value + b.value| * 10 ^ a.scale + 1 / 2 < 2 ^ 96) (hb : 0 ≤ b.value) :
    a.value ≤ c.value := by
  have hpos : (0 : ℚ) < 10 ^ a.scale := by positivity
  refine le_of_mul_le_mul_right ?_ hpos
  rw [value_mul_pow (le_refl a.scale)]
  refine (add?_uncrossed_left h hroom _).1 ?_
  rw [← value_mul_pow (le_refl a.scale)]
  exact mul_le_mul_of_nonneg_right (by linarith) hpos.le

end Decimal

end Bourse
