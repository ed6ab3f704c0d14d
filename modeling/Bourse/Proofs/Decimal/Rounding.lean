import Bourse.Proofs.Decimal.Order
import Bourse.Proofs.Decimal.Truncation

/-!
# How Much Is Lost

A calculation may round several times before its last digits are cut off, and cutting alone takes
off anything short of a nano. What keeps the two together below one nano is that they share it.
A result that has been rounded has few digits, and so less is cut off it. With `s` digits behind
the point, nine at least, a number loses at most `10 ^ -9 - 10 ^ -s` when it is cut, and a number
that is `Near` another has so many digits and is off by less than `10 ^ -s`.

For this a rounded result has to keep nine digits, and it does as long as it is within the reach of
amounts by far. `Rounded` says what an operation returns then: the exact result, or the nearest
decimal of nine digits or more.

## Main definitions

* `HasDigits`: a number with so many fractional digits.
* `Near`: a number that is off by less than a unit of its last digit.
* `Decimal.Rounded`: what an operation makes of its exact result.

## Theorems

* `Near.truncate_close`: a number that is near another is not a nano away after it is cut.
* `Decimal.add?_rounded`, `mul?_rounded`: operations within the reach of amounts.
* `Decimal.Rounded.near`, `Rounded.close_nano`: how far off their results are.
* `Decimal.near_add`: a sum that is rounded is near, even if an operand has been rounded before.
-/

namespace Bourse

/-- A number with so many fractional digits. -/
def HasDigits (s : Nat) (v : ℚ) : Prop :=
  ∃ k : Int, v * 10 ^ s = k

theorem HasDigits.mono {s t : Nat} {v : ℚ} (h : HasDigits s v) (hst : s ≤ t) : HasDigits t v := by
  rcases h with ⟨k, hk⟩
  refine ⟨k * 10 ^ (t - s), ?_⟩
  have hsplit : (10 : ℚ) ^ t = 10 ^ s * 10 ^ (t - s) := by
    rw [← pow_add, Nat.add_sub_cancel' hst]
  rw [hsplit, ← mul_assoc, hk]
  push_cast
  ring

theorem HasDigits.add {s : Nat} {v w : ℚ} (hv : HasDigits s v) (hw : HasDigits s w) :
    HasDigits s (v + w) := by
  rcases hv with ⟨k, hk⟩
  rcases hw with ⟨l, hl⟩
  exact ⟨k + l, by rw [add_mul, hk, hl, Int.cast_add]⟩

theorem Decimal.hasDigits (d : Decimal) : HasDigits d.scale d.value :=
  ⟨_, value_mul_pow (le_refl d.scale)⟩

/-- The fewer digits a number has, the less of it is cut off. -/
theorem HasDigits.truncate_close {s : Nat} {v : ℚ} (h : HasDigits s v) (hs : 9 ≤ s) :
    |(truncate (v * 10 ^ 9) : ℚ) / 10 ^ 9 - v| ≤ 1 / 10 ^ 9 - 1 / 10 ^ s := by
  rcases h with ⟨k, hk⟩
  have hunit : 0 < 10 ^ (s - 9) := Nat.pow_pos (by decide)
  have hsplit : (10 : ℚ) ^ s = ((10 ^ (s - 9) : Nat) : ℚ) * 10 ^ 9 := by
    push_cast
    rw [← pow_add, Nat.sub_add_cancel hs]
  have hnanos : v * 10 ^ 9 = k / ((10 ^ (s - 9) : Nat) : ℚ) := by
    rw [← hk, hsplit]
    field_simp
  generalize 10 ^ (s - 9) = unit at hunit hsplit hnanos
  have hpos : (0 : ℚ) < unit := by exact_mod_cast hunit
  -- What is cut off is a remainder, and short of one nano by one unit of the last digit.
  have hsum : k.tdiv unit * unit + k.tmod unit = k := Int.tdiv_mul_add_tmod k unit
  have hrest : |k.tmod unit| ≤ unit - 1 := by
    rw [abs_le]
    have hlow := Int.lt_tmod_of_pos k (b := unit) (by omega)
    have hhigh := Int.tmod_lt_of_pos k (b := unit) (by omega)
    omega
  have hsum' : (k : ℚ) = (k.tdiv unit : Int) * unit + (k.tmod unit : Int) := by
    exact_mod_cast hsum.symm
  have hrest' : |((k.tmod unit : Int) : ℚ)| ≤ unit - 1 := by
    exact_mod_cast hrest
  have hcut : (truncate (v * 10 ^ 9) : ℚ) / 10 ^ 9 - v =
      -((k.tmod unit : Int) / (unit * 10 ^ 9)) := by
    have hv : v = k / (unit * 10 ^ 9) := by
      rw [eq_div_iff (by positivity), ← hsplit, hk]
    rw [hnanos, truncate_div, hv, hsum']
    field_simp
    ring
  rw [hcut, abs_neg, abs_div, abs_of_pos (by positivity : (0 : ℚ) < unit * 10 ^ 9), hsplit,
    div_le_iff₀ (by positivity)]
  calc |((k.tmod unit : Int) : ℚ)| ≤ unit - 1 := hrest'
    _ = (1 / 10 ^ 9 - 1 / (unit * 10 ^ 9)) * (unit * 10 ^ 9) := by field_simp

/-- A number with nine digits or more that is off by less than a unit of the last of them. -/
def Near (v e : ℚ) : Prop :=
  ∃ s, 9 ≤ s ∧ HasDigits s v ∧ |v - e| < 1 / 10 ^ s

/-- A number that is near another is not a nano away after it is cut. -/
theorem Near.truncate_close {v e : ℚ} (h : Near v e) :
    |(truncate (v * 10 ^ 9) : ℚ) / 10 ^ 9 - e| < 1 / 10 ^ 9 := by
  rcases h with ⟨s, hs, hdigits, hoff⟩
  calc |(truncate (v * 10 ^ 9) : ℚ) / 10 ^ 9 - e|
      ≤ |(truncate (v * 10 ^ 9) : ℚ) / 10 ^ 9 - v| + |v - e| := abs_sub_le _ v e
    _ < (1 / 10 ^ 9 - 1 / 10 ^ s) + 1 / 10 ^ s :=
        add_lt_add_of_le_of_lt (hdigits.truncate_close hs) hoff
    _ = 1 / 10 ^ 9 := by ring

namespace Decimal

variable {num : Int} {den scale : Nat} {a b c d : Decimal} {v e : ℚ}

/-- What an operation makes of its exact result: just this, or the nearest decimal of nine digits
or more, but not of as many as it would take. -/
def Rounded (scale : Nat) (v : ℚ) (d : Decimal) : Prop :=
  d.value = v ∨ (9 ≤ d.scale ∧ d.scale < scale ∧ |d.value - v| ≤ 1 / 2 / 10 ^ d.scale)

theorem Rounded.neg (h : Rounded scale v d) : Rounded scale (-v) (-d) := by
  rcases h with hexact | ⟨hnine, hless, hclose⟩
  · exact Or.inl (by rw [value_neg, hexact])
  · refine Or.inr ⟨hnine, hless, ?_⟩
    rw [value_neg, neg_sub_neg, abs_sub_comm]
    exact hclose

/-- A quotient with so many digits is rounded to nine or more of them, if it is within the reach of
amounts by far. -/
theorem rounded_of_fit? (hden : 0 < den) (hscale : scale ≤ 28)
    (hdigits : HasDigits scale ((num : ℚ) / den)) (hreach : |(num : ℚ) / den| < 2 ^ 66)
    (h : fit? num den scale = some d) : Rounded scale (num / den) d := by
  have hpos : (0 : ℚ) < 10 ^ d.scale := by positivity
  -- There is room for nine digits, or for all of them if there are fewer.
  have hkept : min 9 scale ≤ d.scale := by
    refine le_scale_of_fit? hden hscale (min_le_right _ _) ?_ h
    have hpow : (10 : ℚ) ^ min 9 scale ≤ 10 ^ 9 :=
      pow_le_pow_right₀ (by norm_num) (min_le_left _ _)
    calc |(num : ℚ) / den| * 10 ^ min 9 scale + 1 / 2
        ≤ 2 ^ 66 * 10 ^ 9 + 1 / 2 := by
          have := mul_le_mul hreach.le hpow (by positivity) (by norm_num)
          linarith
      _ < 2 ^ 96 := by norm_num
  rcases fit?_close hden h with ⟨hclose, hle⟩
  rcases lt_or_eq_of_le hle with hless | hall
  · exact Or.inr ⟨by omega, hless, hclose⟩
  · -- With all its digits the quotient is a whole number of units of the last, and is kept.
    rcases hdigits with ⟨k, hk⟩
    rw [← hall] at hk
    have hcoefficient : d.coefficient = k :=
      le_antisymm (fit?_le hden h hk.le) (le_fit? hden h hk.ge)
    exact Or.inl (by rw [value, hcoefficient, ← hk, mul_div_cancel_right₀ _ hpos.ne'])

/-- An operation within the reach of amounts. -/
theorem Yields.rounded (h : Yields scale v c) (hscale : scale ≤ 28) (hdigits : HasDigits scale v)
    (hreach : |v| < 2 ^ 66) : Rounded scale v c := by
  rcases h with hexact | ⟨num, den, hden, rfl, hfit⟩
  · exact Or.inl hexact
  · exact rounded_of_fit? hden hscale hdigits hreach hfit

theorem add?_rounded (h : a.add? b = some c) (hreach : |a.value + b.value| < 2 ^ 66) :
    Rounded (max a.scale b.scale) (a.value + b.value) c :=
  (yields_add? h).rounded (max_le a.scale_le b.scale_le)
    ((a.hasDigits.mono (le_max_left _ _)).add (b.hasDigits.mono (le_max_right _ _))) hreach

theorem mul?_rounded (h : a.mul? b = some c) (hscale : a.scale + b.scale ≤ 28)
    (hreach : |a.value * b.value| < 2 ^ 66) :
    Rounded (a.scale + b.scale) (a.value * b.value) c := by
  have hyields := yields_mul? h
  rw [min_eq_left hscale] at hyields
  refine hyields.rounded hscale ?_ hreach
  rcases a.hasDigits with ⟨k, hk⟩
  rcases b.hasDigits with ⟨l, hl⟩
  exact ⟨k * l, by rw [pow_add, mul_mul_mul_comm, hk, hl, Int.cast_mul]⟩

/-- Half a unit of a place and half a unit of a later one are less than a unit of the first. -/
theorem half_units_lt {s t : Nat} (h : s < t) :
    (1 : ℚ) / 2 / 10 ^ s + 1 / 2 / 10 ^ t < 1 / 10 ^ s := by
  have hpow : (10 : ℚ) ^ s < 10 ^ t := pow_lt_pow_right₀ (by norm_num) h
  have hless : (1 : ℚ) / 2 / 10 ^ t < 1 / 2 / 10 ^ s :=
    div_lt_div_of_pos_left (by norm_num) (by positivity) hpow
  calc (1 : ℚ) / 2 / 10 ^ s + 1 / 2 / 10 ^ t < 1 / 2 / 10 ^ s + 1 / 2 / 10 ^ s := by linarith
    _ = 1 / 10 ^ s := by ring

theorem half_unit_lt (s : Nat) : (1 : ℚ) / 2 / 10 ^ s < 1 / 10 ^ s :=
  div_lt_div_of_pos_right (by norm_num) (by positivity)

theorem half_unit_le_half_nano {s : Nat} (h : 9 ≤ s) : (1 : ℚ) / 2 / 10 ^ s ≤ 1 / 2 / 10 ^ 9 :=
  div_le_div_of_nonneg_left (by norm_num) (by norm_num) (pow_le_pow_right₀ (by norm_num) h)

/-- A decimal is near itself, for it has nine digits if zeros are appended. -/
theorem near_self (d : Decimal) : Near d.value d.value := by
  refine ⟨max 9 d.scale, le_max_left _ _, d.hasDigits.mono (le_max_right _ _), ?_⟩
  rw [sub_self, abs_zero]
  positivity

/-- What an operation makes of its exact result is near it. -/
theorem Rounded.near (h : Rounded scale v d) : Near d.value v := by
  rcases h with hexact | ⟨hnine, -, hclose⟩
  · rw [← hexact]
    exact d.near_self
  · exact ⟨d.scale, hnine, d.hasDigits, hclose.trans_lt (half_unit_lt _)⟩

/-- No operation within the reach of amounts is off by more than half a nano. -/
theorem Rounded.close_nano (h : Rounded scale v d) : |d.value - v| ≤ 1 / 2 / 10 ^ 9 := by
  rcases h with hexact | ⟨hnine, -, hclose⟩
  · rw [hexact, sub_self, abs_zero]
    norm_num
  · exact hclose.trans (half_unit_le_half_nano hnine)

/-- A sum that is rounded is near the exact one, even if one operand has been rounded before. -/
theorem near_add (ha : a.scale ≤ 9) (hb : Rounded scale e b)
    (hc : Rounded (max a.scale b.scale) (a.value + b.value) c) : Near c.value (a.value + e) := by
  rcases hc with hc | ⟨hnine, hless, hclose⟩
  · rcases hb with hb | ⟨hnine, -, hclose⟩
    · -- Nothing was rounded.
      rw [← hb, ← hc]
      exact c.near_self
    · -- The sum has the digits that the operand was left with.
      refine ⟨b.scale, hnine, ?_, ?_⟩
      · rw [hc]
        exact (a.hasDigits.mono (ha.trans hnine)).add b.hasDigits
      · rw [hc, add_sub_add_left_eq_sub]
        exact hclose.trans_lt (half_unit_lt _)
  · refine ⟨c.scale, hnine, c.hasDigits, ?_⟩
    rcases hb with hb | ⟨-, -, hoff⟩
    · rw [← hb]
      exact hclose.trans_lt (half_unit_lt _)
    · -- Both were rounded, the operand at a later place.
      have hlater : c.scale < b.scale := by
        rcases lt_max_iff.1 hless with hlt | hlt
        · omega
        · exact hlt
      calc |c.value - (a.value + e)|
          ≤ |c.value - (a.value + b.value)| + |a.value + b.value - (a.value + e)| :=
            abs_sub_le _ _ _
        _ ≤ 1 / 2 / 10 ^ c.scale + 1 / 2 / 10 ^ b.scale := by
            rw [add_sub_add_left_eq_sub]
            exact add_le_add hclose hoff
        _ < 1 / 10 ^ c.scale := half_units_lt hlater

end Decimal

end Bourse
