import Bourse.Amount.Basic
import Bourse.Proofs.Decimal.Truncation

/-!
# Valid Amounts and Their Values

A valid amount is the same thing as its value in nanos. The two fields of an
amount are machine integers, and most facts about them would have to be told
apart by sign; `ofNanos_eq_ok_iff` is what makes that unnecessary. It says that
the amount of a number of nanos, where there is one, is the only valid amount of
that value, so a statement about fields becomes one about a single integer.

The value proper is a rational number, `value`. The laws of the arithmetic
compare it with exact sums and products, which need not be whole nanos.

## Main definitions

* `Amount.value`: the exact value, in units.
* `Amount.Sound`: a valid amount that is not below zero.

## Theorems

* `isValid_iff`: the two conditions on the fields, as integers.
* `ofNanos_eq_ok_iff`: the amount of a number of nanos is the valid one of that value.
* `eq_of_inNanos_eq`: a valid amount is determined by its value.
* `ofNanos_eq_ok`: there is one wherever the whole part fits.
* `isNegative_iff`, `isZero_iff`: a valid amount is negative, or zero, when its value is.
* `value_toDecimal`: the decimal of an amount has its value.
* `add?_of_scale_le`: decimals within the reach of amounts have an exact sum.
* `sound_of_ofDecimal`: the amount of a decimal is its value rounded down, above zero.
-/

namespace Bourse

namespace Amount

/-- The exact value, in units. -/
def value (a : Amount) : ℚ := a.inNanos / 10 ^ 9

/-- A valid amount that is not below zero: what a balance may be. -/
def Sound (a : Amount) : Prop :=
  a.isValid = true ∧ a.isNegative = false

instance (a : Amount) : Decidable a.Sound := inferInstanceAs (Decidable (_ ∧ _))

theorem isValid_iff {a : Amount} :
    a.isValid = true ↔ a.nanos.toInt.natAbs < 10 ^ 9 ∧
      ¬ (0 < a.units.toInt ∧ a.nanos.toInt < 0) ∧ ¬ (a.units.toInt < 0 ∧ 0 < a.nanos.toInt) := by
  simp only [isValid, Bool.and_eq_true, decide_eq_true_eq, Bool.not_eq_true',
    Bool.or_eq_false_iff, Bool.and_eq_false_iff, decide_eq_false_iff_not, Int64.lt_iff_toInt_lt,
    Int32.lt_iff_toInt_lt, Int64.toInt_zero, Int32.toInt_zero, not_and_or]
  rfl

/-- Quotient and remainder toward zero make up a number of nanos; the remainder is short of one
unit and has the sign of the number. -/
theorem split_nanos (n : Int) :
    n.tdiv nanosPerUnit * 1000000000 + n.tmod nanosPerUnit = n ∧
      (n.tmod nanosPerUnit).natAbs < 1000000000 ∧
      (0 ≤ n → 0 ≤ n.tmod nanosPerUnit) ∧ (n ≤ 0 → n.tmod nanosPerUnit ≤ 0) := by
  have hunit : ((nanosPerUnit : Nat) : Int) = 1000000000 := rfl
  rw [hunit]
  refine ⟨Int.tdiv_mul_add_tmod n _, ?_, Int.tmod_nonneg _, fun h => ?_⟩
  · have hlow := Int.lt_tmod_of_pos n (b := 1000000000) (by decide)
    have hhigh := Int.tmod_lt_of_pos n (b := 1000000000) (by decide)
    omega
  · -- For a number below zero the bound is that of its opposite.
    have hneg := Int.tmod_nonneg (a := -n) 1000000000 (by omega)
    rw [Int.neg_tmod] at hneg
    omega

/-- The fields of a valid amount are quotient and remainder of its value, both toward zero. -/
theorem fields_of_isValid {a : Amount} (h : a.isValid = true) :
    a.inNanos.tdiv nanosPerUnit = a.units.toInt ∧ a.inNanos.tmod nanosPerUnit = a.nanos.toInt := by
  rcases isValid_iff.1 h with ⟨hn, hpos, hneg⟩
  have hvalue : a.inNanos = a.units.toInt * 1000000000 + a.nanos.toInt := rfl
  rcases split_nanos a.inNanos with ⟨hsum, hrest, hup, hdown⟩
  constructor
  · omega
  · omega

theorem ofNanos_eq_ok_iff {n : Int} {a : Amount} :
    ofNanos n = .ok a ↔ a.isValid = true ∧ a.inNanos = n := by
  constructor
  · intro h
    rcases split_nanos n with ⟨hsum, hrest, hup, hdown⟩
    simp only [ofNanos] at h
    split at h
    · next hfits =>
      have ha := Except.ok.inj h
      -- The test on the whole part is what keeps both machine integers in range.
      have hu : a.units.toInt = n.tdiv nanosPerUnit := by
        rw [← ha]
        exact Int64.toInt_ofInt_of_le hfits.1 hfits.2
      have hn : a.nanos.toInt = n.tmod nanosPerUnit := by
        rw [← ha]
        exact Int32.toInt_ofInt_of_le (by omega) (by omega)
      refine ⟨isValid_iff.2 ?_, ?_⟩
      · rw [hu, hn]
        refine ⟨by omega, by omega, by omega⟩
      · rw [inNanos, hu, hn]
        exact hsum
    · exact absurd h (by simp only [reduceCtorEq, not_false_eq_true])
  · rintro ⟨hvalid, rfl⟩
    rcases fields_of_isValid hvalid with ⟨hu, hn⟩
    simp only [ofNanos]
    rw [hu, hn, if_pos ⟨a.units.le_toInt, a.units.toInt_lt⟩, Int64.ofInt_toInt, Int32.ofInt_toInt]

/-- Two valid amounts of one value are the same. -/
theorem eq_of_inNanos_eq {a b : Amount} (ha : a.isValid = true) (hb : b.isValid = true)
    (h : a.inNanos = b.inNanos) : a = b := by
  have hamount := ofNanos_eq_ok_iff.2 ⟨ha, h⟩
  rw [ofNanos_eq_ok_iff.2 ⟨hb, rfl⟩] at hamount
  exact (Except.ok.inj hamount).symm

theorem value_eq_iff {a b : Amount} : a.value = b.value ↔ a.inNanos = b.inNanos := by
  rw [value, value, div_left_inj' (by norm_num), Int.cast_inj]

/-- A number of nanos has an amount wherever its whole part fits the units. -/
theorem ofNanos_eq_ok {n : Int} (hlow : -(2 ^ 63) ≤ n.tdiv (10 ^ 9))
    (hhigh : n.tdiv (10 ^ 9) < 2 ^ 63) : ∃ a, ofNanos n = .ok a := by
  unfold ofNanos
  exact ⟨_, if_pos ⟨hlow, hhigh⟩⟩

theorem isNegative_iff {a : Amount} (h : a.isValid = true) :
    a.isNegative = true ↔ a.inNanos < 0 := by
  rcases isValid_iff.1 h with ⟨hn, hpos, hneg⟩
  have hvalue : a.inNanos = a.units.toInt * 1000000000 + a.nanos.toInt := rfl
  simp only [isNegative, Bool.or_eq_true, decide_eq_true_eq, Int64.lt_iff_toInt_lt,
    Int32.lt_iff_toInt_lt, Int64.toInt_zero, Int32.toInt_zero]
  omega

theorem isZero_iff {a : Amount} (h : a.isValid = true) :
    a.isZero = true ↔ a.inNanos = 0 := by
  rcases isValid_iff.1 h with ⟨hn, hpos, hneg⟩
  have hvalue : a.inNanos = a.units.toInt * 1000000000 + a.nanos.toInt := rfl
  simp only [isZero, Bool.and_eq_true, decide_eq_true_eq, ← Int64.toInt_inj, ← Int32.toInt_inj,
    Int64.toInt_zero, Int32.toInt_zero]
  omega

/-- A sound amount is a valid one of a value that is not negative. -/
theorem sound_iff {a : Amount} : a.Sound ↔ a.isValid = true ∧ 0 ≤ a.inNanos := by
  unfold Sound
  refine and_congr_right (fun h => ?_)
  rw [← not_lt, ← isNegative_iff h, Bool.not_eq_true]

@[simp] theorem value_zero : Amount.zero.value = 0 := by
  have hnanos : Amount.zero.inNanos = 0 := by decide
  rw [value, hnanos, Int.cast_zero, zero_div]

theorem sound_zero : Amount.zero.Sound := by decide

theorem Sound.value_nonneg {a : Amount} (h : a.Sound) : 0 ≤ a.value := by
  have hn : (0 : ℚ) ≤ a.inNanos := by exact_mod_cast (sound_iff.1 h).2
  unfold value
  positivity

/-! ## To decimals and back -/

theorem value_toDecimal (a : Amount) : a.toDecimal.value = a.value := by
  unfold toDecimal
  split_ifs with h
  · have hvalue : a.inNanos = a.units.toInt * 10 ^ 9 := by
      rw [inNanos, h.1, Int32.toInt_zero, add_zero]
      rfl
    rw [Decimal.value_whole, value, hvalue, Int.cast_mul, Int.cast_pow, Int.cast_ofNat,
      mul_div_cancel_right₀ _ (by norm_num)]
  · rfl

theorem scale_toDecimal_le (a : Amount) : a.toDecimal.scale ≤ 9 := by
  unfold toDecimal
  split_ifs
  · exact Nat.zero_le 9
  · exact le_refl 9

/-- No amount, valid or not, is further from zero than the units reach. -/
theorem abs_value_lt (a : Amount) : |a.value| < 2 ^ 64 := by
  have hunits := a.units.le_toInt
  have hunits' := a.units.toInt_lt
  have hnanos := a.nanos.le_toInt
  have hnanos' := a.nanos.toInt_lt
  have hvalue : a.inNanos = a.units.toInt * 1000000000 + a.nanos.toInt := rfl
  have hlow : (-(2 ^ 64) * 10 ^ 9 : Int) < a.inNanos := by omega
  have hhigh : a.inNanos < (2 ^ 64 * 10 ^ 9 : Int) := by omega
  have hlow' : (-(2 ^ 64) * 10 ^ 9 : ℚ) < a.inNanos := by exact_mod_cast hlow
  have hhigh' : (a.inNanos : ℚ) < 2 ^ 64 * 10 ^ 9 := by exact_mod_cast hhigh
  rw [value, abs_lt, lt_div_iff₀ (by positivity), div_lt_iff₀ (by positivity)]
  exact ⟨hlow', hhigh'⟩

/-- Decimals of nine digits within the reach of amounts have an exact sum, of nine digits again. -/
theorem add?_of_scale_le {a b : Decimal} (ha : a.scale ≤ 9) (hb : b.scale ≤ 9)
    (hva : |a.value| < 2 ^ 64) (hvb : |b.value| < 2 ^ 64) :
    ∃ c, a.add? b = some c ∧ c.value = a.value + b.value ∧ c.scale ≤ 9 := by
  -- A sum below 2 ^ 65 has 95 bits with nine digits after the point.
  have hscale : max a.scale b.scale ≤ 9 := max_le ha hb
  have hsum : |a.value + b.value| < 2 ^ 65 := by
    have := abs_add_le a.value b.value
    linarith
  have hpow : (10 : ℚ) ^ max a.scale b.scale ≤ 10 ^ 9 :=
    pow_le_pow_right₀ (by norm_num) hscale
  have hroom : |a.value + b.value| * 10 ^ max a.scale b.scale < 2 ^ 96 := by
    calc |a.value + b.value| * 10 ^ max a.scale b.scale
        ≤ |a.value + b.value| * 10 ^ 9 := mul_le_mul_of_nonneg_left hpow (abs_nonneg _)
      _ < 2 ^ 65 * 10 ^ 9 := mul_lt_mul_of_pos_right hsum (by positivity)
      _ < 2 ^ 96 := by norm_num
  rcases Decimal.add?_exact hroom with ⟨c, hc, hv, hs⟩
  exact ⟨c, hc, hv, hs.trans hscale⟩

theorem ofDecimal_eq_ok_iff {d : Decimal} {a : Amount} :
    ofDecimal d = .ok a ↔ a.isValid = true ∧ a.inNanos = d.truncatedAt 9 :=
  ofNanos_eq_ok_iff

/-- The amount of a decimal that is not negative is sound, and is its value rounded down. -/
theorem sound_of_ofDecimal {d : Decimal} {a : Amount} (h : ofDecimal d = .ok a)
    (hd : 0 ≤ d.value) : a.Sound ∧ a.inNanos = ⌊d.value * 10 ^ 9⌋ := by
  rcases ofDecimal_eq_ok_iff.1 h with ⟨hvalid, hn⟩
  rw [Decimal.truncatedAt_of_nonneg 9 hd] at hn
  refine ⟨sound_iff.2 ⟨hvalid, ?_⟩, hn⟩
  rw [hn]
  exact Int.floor_nonneg.2 (by positivity)

/-- A decimal that is not negative has an amount if its whole part fits the units. -/
theorem ofDecimal_of_nonneg {d : Decimal} (hd : 0 ≤ d.value) (hroom : d.value < 2 ^ 63) :
    ∃ a, ofDecimal d = .ok a ∧ a.Sound ∧ a.inNanos = ⌊d.value * 10 ^ 9⌋ := by
  have hnonneg : 0 ≤ d.truncatedAt 9 := by
    rw [Decimal.truncatedAt_of_nonneg 9 hd]
    exact Int.floor_nonneg.2 (by positivity)
  have hlt : d.truncatedAt 9 < 2 ^ 63 * 10 ^ 9 := by
    rw [Decimal.truncatedAt_of_nonneg 9 hd, Int.floor_lt]
    push_cast
    linarith
  obtain ⟨a, ha⟩ : ∃ a, ofNanos (d.truncatedAt 9) = .ok a := by
    refine ofNanos_eq_ok ?_ ?_
    · rw [Int.tdiv_eq_ediv_of_nonneg hnonneg]
      omega
    · rw [Int.tdiv_eq_ediv_of_nonneg hnonneg]
      omega
  exact ⟨a, ha, sound_of_ofDecimal ha hd⟩

/-- A decimal of nine digits that is not negative has an amount of just its value. -/
theorem value_of_ofDecimal {d : Decimal} {a : Amount} (h : ofDecimal d = .ok a)
    (hd : 0 ≤ d.value) (hscale : d.scale ≤ 9) : a.value = d.value := by
  have hfloor := (sound_of_ofDecimal h hd).2
  have hwhole := Decimal.value_mul_pow hscale
  rw [hwhole, Int.floor_intCast] at hfloor
  rw [value, hfloor, ← hwhole, mul_div_cancel_right₀ _ (by norm_num)]

end Amount

end Bourse
