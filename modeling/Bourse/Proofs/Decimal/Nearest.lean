import Bourse.Proofs.Decimal.Order
import Mathlib.Algebra.Group.Int.Even

/-!
# The Decimal Nearest to a Number

What every result of the arithmetic is, told without the way it is computed. A number has one
nearest integer, if a half goes to the even neighbour, and so it has one nearest number of `t`
fractional digits, for every `t`. A decimal is `Fitted` to a number if it is this one for the
largest `t` for which there is room. `fit?_eq_some_iff` says that `fit?` returns the fitted decimal
and no other.

## Main definitions

* `IsNearest`: an integer is the nearest one to a number.
* `Decimal.Fitted`: a decimal is the nearest one to a number, with as many digits as fit.

## Theorems

* `IsNearest.unique`: there is only one nearest integer.
* `isNearest_roundHalfEven`: it is the rounded quotient.
* `Decimal.fit?_eq_some_iff`: what is returned is the fitted decimal.
* `Decimal.exists_fit?`, `exists_mul?`: there is one if there is room without fractional digits.
* `Decimal.Fitted.close`, `Decimal.Fitted.le_scale`: how far off it is, and how many digits it has.
-/

namespace Bourse

/-- The nearest integer to a number, of two that are equally near the even one. -/
def IsNearest (v : ℚ) (k : Int) : Prop :=
  |(k : ℚ) - v| ≤ 1 / 2 ∧ (|(k : ℚ) - v| = 1 / 2 → Even k)

theorem IsNearest.not_lt {v : ℚ} {k l : Int} (hk : IsNearest v k) (hl : IsNearest v l) :
    ¬ k < l := by
  intro hlt
  have hlow := (abs_le.1 hk.1).1
  have hhigh := (abs_le.1 hl.1).2
  -- Two integers as near as this are neighbours, and the number is half way between them.
  have hle : (l : ℚ) ≤ k + 1 := by linarith
  have hle' : l ≤ k + 1 := by exact_mod_cast hle
  have hnext : l = k + 1 := by omega
  have hnext' : (l : ℚ) = k + 1 := by exact_mod_cast hnext
  have hk2 : |(k : ℚ) - v| = 1 / 2 := by
    rw [abs_of_nonpos (by linarith)]
    linarith
  have hl2 : |(l : ℚ) - v| = 1 / 2 := by
    rw [abs_of_nonneg (by linarith)]
    linarith
  have heven := Int.even_iff.1 (hk.2 hk2)
  have heven' := Int.even_iff.1 (hl.2 hl2)
  omega

theorem IsNearest.unique {v : ℚ} {k l : Int} (hk : IsNearest v k) (hl : IsNearest v l) : k = l :=
  le_antisymm (Int.not_lt.1 (hl.not_lt hk)) (Int.not_lt.1 (hk.not_lt hl))

/-- A quotient that is rounded by one half goes to the even neighbour. -/
theorem even_roundHalfEven {num : Int} {den : Nat} (hden : 0 < den)
    (h : (2 * (roundHalfEven num den * den - num)).natAbs = den) : Even (roundHalfEven num den) := by
  have hlow : 0 ≤ num % den := Int.emod_nonneg num (by omega)
  have hhigh : num % den < den := Int.emod_lt_of_pos num (by omega)
  have hsplit : num / den * den + num % den = num := Int.ediv_mul_add_emod num den
  have hnext : (num / den + 1) * den = num / den * den + den := by ring
  rw [Int.even_iff]
  revert h
  simp only [roundHalfEven]
  -- Where the rest is not one half, the neighbour is nearer than that.
  split_ifs with hless hmore heven
  · omega
  · rw [hnext]
    omega
  · exact fun _ => heven
  · intro _
    omega

theorem isNearest_roundHalfEven (num : Int) {den : Nat} (hden : 0 < den) :
    IsNearest (num / den) (roundHalfEven num den) := by
  have hpos : (0 : ℚ) < den := by exact_mod_cast hden
  refine ⟨roundHalfEven_close num hden, fun h => even_roundHalfEven hden ?_⟩
  have hdiff : (roundHalfEven num den : ℚ) - num / den =
      (roundHalfEven num den * den - num) / den := by
    field_simp
  rw [hdiff, abs_div, abs_of_pos hpos, div_eq_iff hpos.ne'] at h
  have htwice : |(2 * (roundHalfEven num den * den - num) : ℚ)| = den := by
    rw [abs_mul, h, abs_two]
    ring
  have hcast : (((2 * (roundHalfEven num den * den - num)).natAbs : Nat) : ℚ) = den := by
    rw [Nat.cast_natAbs, Int.cast_abs]
    push_cast
    exact htwice
  exact_mod_cast hcast

namespace Decimal

variable {num : Int} {den scale t : Nat} {a b c d : Decimal} {v : ℚ}

/-- The decimal nearest to a number that has as many fractional digits, up to a limit, as there is
room for. -/
structure Fitted (scale : Nat) (v : ℚ) (d : Decimal) : Prop where
  nearest : IsNearest (v * 10 ^ d.scale) d.coefficient
  scale_le : d.scale ≤ scale
  /-- With more digits the coefficient would be too long. -/
  longest : ∀ t k, d.scale < t → t ≤ scale → IsNearest (v * 10 ^ t) k → 2 ^ 96 ≤ k.natAbs

theorem isNearest_scaled (num : Int) (hden : 0 < den) (t : Nat) :
    IsNearest (num / den * 10 ^ t) (roundHalfEven (num * 10 ^ t) den) := by
  have h := isNearest_roundHalfEven (num * 10 ^ t) hden
  push_cast at h
  rw [mul_div_right_comm] at h
  exact h

theorem ofParts?_eq_some_iff {k : Int} {s : Nat} (hs : s ≤ 28) :
    ofParts? k s = some d ↔ d.coefficient = k ∧ d.scale = s := by
  refine ⟨ofParts?_eq_some, ?_⟩
  rintro ⟨rfl, rfl⟩
  exact dif_pos ⟨d.coefficient_lt, hs⟩

theorem ofParts?_eq_none_iff {k : Int} {s : Nat} (hs : s ≤ 28) :
    ofParts? k s = none ↔ 2 ^ 96 ≤ k.natAbs := by
  rw [ofParts?, dite_eq_right_iff]
  constructor
  · intro h
    by_contra hlt
    exact absurd (h ⟨Nat.not_le.1 hlt, hs⟩) (by simp only [reduceCtorEq, not_false_eq_true])
  · intro hle h
    exact absurd h.1 (Nat.not_lt.2 hle)

/-- The last scale is the largest, so nothing is left to try. -/
theorem fitted_of_scale_eq (hs : d.scale = scale)
    (hnearest : IsNearest (v * 10 ^ scale) d.coefficient) : Fitted scale v d := by
  refine ⟨hs ▸ hnearest, hs.le, fun t k hlt hle => ?_⟩
  omega

/-- Where the last scale has room, the fitted decimal has this scale. -/
theorem Fitted.eq_of_lt (h : Fitted scale v d) {k : Int} (hk : IsNearest (v * 10 ^ scale) k)
    (hroom : k.natAbs < 2 ^ 96) : d.coefficient = k ∧ d.scale = scale := by
  have hlast : d.scale = scale := by
    by_contra hne
    have hle := h.scale_le
    exact absurd (h.longest scale k (by omega) (le_refl _) hk) (Nat.not_le.2 hroom)
  exact ⟨(hlast ▸ h.nearest).unique hk, hlast⟩

/-- Where it has none, the scales below decide. -/
theorem fitted_succ_iff {k : Int} (hk : IsNearest (v * 10 ^ (scale + 1)) k)
    (hlong : 2 ^ 96 ≤ k.natAbs) : Fitted (scale + 1) v d ↔ Fitted scale v d := by
  refine ⟨fun h => ⟨h.nearest, ?_, fun t l hlt hle => h.longest t l hlt (by omega)⟩,
    fun h => ⟨h.nearest, h.scale_le.trans (Nat.le_succ _), fun t l hlt hle hl => ?_⟩⟩
  · have hne : d.scale ≠ scale + 1 := by
      intro heq
      have hnearest := h.nearest
      rw [heq] at hnearest
      rw [← hnearest.unique hk] at hlong
      exact absurd d.coefficient_lt (Nat.not_lt.2 hlong)
    have hle := h.scale_le
    omega
  · by_cases hlast : t = scale + 1
    · rw [hlast] at hl
      rw [hl.unique hk]
      exact hlong
    · exact h.longest t l hlt (by omega) hl

/-- What is returned is the decimal fitted to the quotient. -/
theorem fit?_eq_some_iff (hden : 0 < den) (hscale : scale ≤ 28) :
    fit? num den scale = some d ↔ Fitted scale (num / den) d := by
  induction scale with
  | zero =>
      have hround : IsNearest (num / den * 10 ^ 0) (roundHalfEven num den) := by
        simpa only [pow_zero, mul_one] using isNearest_scaled num hden 0
      rw [fit?, ofParts?_eq_some_iff hscale]
      constructor
      · rintro ⟨hc, hs⟩
        exact fitted_of_scale_eq hs (hc ▸ hround)
      · intro h
        have hs := Nat.le_zero.1 h.scale_le
        exact ⟨(hs ▸ h.nearest).unique hround, hs⟩
  | succ s ih =>
      have hround := isNearest_scaled num hden (s + 1)
      rw [fit?]
      -- Whether there is room for one more digit decides between the two scales.
      cases hparts : ofParts? (roundHalfEven (num * 10 ^ (s + 1)) den) (s + 1) with
      | some d' =>
          rcases (ofParts?_eq_some_iff hscale).1 hparts with ⟨hc, hs⟩
          constructor
          · intro h
            rw [← Option.some.inj h]
            exact fitted_of_scale_eq hs (hc ▸ hround)
          · intro h
            exact hparts.symm.trans
              ((ofParts?_eq_some_iff hscale).2 (h.eq_of_lt hround (hc ▸ d'.coefficient_lt)))
      | none =>
          rw [fitted_succ_iff hround ((ofParts?_eq_none_iff hscale).1 hparts)]
          exact ih (by omega)

/-- There is a fitted decimal if there is room without fractional digits. -/
theorem exists_fit? (hden : 0 < den) (hscale : scale ≤ 28)
    (hroom : |(num : ℚ) / den| + 1 / 2 < 2 ^ 96) : ∃ d, fit? num den scale = some d := by
  induction scale with
  | zero =>
      have hsome := isSome_ofParts? (t := 0) hden hscale (by rw [pow_zero, mul_one]; exact hroom)
      rw [pow_zero, mul_one] at hsome
      exact Option.isSome_iff_exists.1 hsome
  | succ s ih =>
      rw [fit?]
      cases ofParts? (roundHalfEven (num * 10 ^ (s + 1)) den) (s + 1) with
      | some d => exact ⟨d, rfl⟩
      | none => exact ih (by omega)

theorem exists_mul? (hroom : |a.value * b.value| + 1 / 2 < 2 ^ 96) : ∃ c, a.mul? b = some c := by
  unfold mul?
  split_ifs with hzero
  · exact ⟨zero, rfl⟩
  · rw [value_mul_eq_div] at hroom
    exact exists_fit? (Nat.pow_pos (by decide)) (min_le_right _ _) hroom

/-- The fitted decimal of a number is what its numerator and denominator give. -/
theorem Fitted.fit?_eq (h : Fitted scale v d) (hscale : scale ≤ 28) :
    fit? v.num v.den scale = some d := by
  rw [fit?_eq_some_iff v.den_pos hscale, Rat.num_div_den]
  exact h

/-- It is off by at most half a unit of its last digit. -/
theorem Fitted.close (h : Fitted scale v d) (hscale : scale ≤ 28) :
    |d.value - v| ≤ 1 / 2 / 10 ^ d.scale := by
  have hclose := (fit?_close v.den_pos (h.fit?_eq hscale)).1
  rw [Rat.num_div_den] at hclose
  exact hclose

/-- It has all the digits for which there is room. -/
theorem Fitted.le_scale (h : Fitted scale v d) (hscale : scale ≤ 28) (ht : t ≤ scale)
    (hroom : |v| * 10 ^ t + 1 / 2 < 2 ^ 96) : t ≤ d.scale := by
  refine le_scale_of_fit? v.den_pos hscale ht ?_ (h.fit?_eq hscale)
  rw [Rat.num_div_den]
  exact hroom

end Decimal

end Bourse
