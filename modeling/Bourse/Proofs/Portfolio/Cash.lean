import Bourse.Proofs.Decimal.Crossing
import Bourse.Proofs.Portfolio.Trade

/-!
# The Cash That a Trade Moves

At a price that is not negative, buying never leaves more cash than there was, and selling
never leaves less. This is so for every amount of cash, every quantity and every price, however
many digits the cost has and however often it is rounded: cash has nine digits after the point,
there is always room for them, and rounding does not pass a number that could be kept.

## Theorems

* `Fill.reach`: the exact cash after a trade is not far beyond the reach of amounts.
* `Fill.newCash_le`, `Fill.le_newCash`: what leaves the cash makes it no more, and what enters no
  less.
* `cash_applyTrade`: what each side of a trade does to the cash.
-/

namespace Bourse

namespace Portfolio

variable {p p' : Portfolio} {side : Side} {symbol : String} {price quantity : Amount}

/-- The cash after a trade is what the decimals make of it, rounded down to a nano. -/
theorem Fill.inNanos_newCash (f : Fill p side symbol price quantity p') :
    f.newCash.inNanos = ⌊f.cash.value * 10 ^ 9⌋ :=
  (Amount.sound_of_ofDecimal f.newCash_eq f.cash_nonneg).2

/-- The cash after a trade is an amount, so rounding and cutting off have begun not far beyond the
reach of amounts. -/
theorem Fill.reach (f : Fill p side symbol price quantity p') :
    |p.cash.toDecimal.value + (-f.paid).value| < 2 ^ 65 := by
  have hreach := (abs_lt.1 (Amount.abs_value_lt f.newCash)).2
  have hfloor := Int.lt_floor_add_one (f.cash.value * 10 ^ 9)
  have hclose := abs_le.1 (Decimal.sub?_close f.cash_eq)
  have hnonneg := f.cash_nonneg
  rw [← f.inNanos_newCash] at hfloor
  rw [Amount.value, div_lt_iff₀ (by norm_num)] at hreach
  rw [Decimal.value_neg, ← sub_eq_add_neg, abs_lt]
  constructor <;> linarith

/-- The exact cash after a trade has room for nine digits after the point. -/
theorem Fill.room (f : Fill p side symbol price quantity p') :
    |p.cash.toDecimal.value + (-f.paid).value| * 10 ^ p.cash.toDecimal.scale + 1 / 2 < 2 ^ 96 := by
  have hpow : (10 : ℚ) ^ p.cash.toDecimal.scale ≤ 10 ^ 9 :=
    pow_le_pow_right₀ (by norm_num) (Amount.scale_toDecimal_le p.cash)
  calc |p.cash.toDecimal.value + (-f.paid).value| * 10 ^ p.cash.toDecimal.scale + 1 / 2
      ≤ |p.cash.toDecimal.value + (-f.paid).value| * 10 ^ 9 + 1 / 2 := by
        have hle := mul_le_mul_of_nonneg_left hpow
          (abs_nonneg (p.cash.toDecimal.value + (-f.paid).value))
        linarith
    _ < 2 ^ 65 * 10 ^ 9 + 1 / 2 := by
        have hlt := mul_lt_mul_of_pos_right f.reach (by norm_num : (0 : ℚ) < 10 ^ 9)
        linarith
    _ < 2 ^ 96 := by norm_num

/-- Something that leaves the cash, or nothing, makes it no more. -/
theorem Fill.newCash_le (f : Fill p side symbol price quantity p') (hpaid : 0 ≤ f.paid.value) :
    f.newCash.value ≤ p.cash.value := by
  have hdecimal := Decimal.add?_le f.cash_eq f.room (by
    rw [Decimal.value_neg]
    linarith)
  rw [Amount.value_toDecimal] at hdecimal
  have hfloor := Int.floor_le (f.cash.value * 10 ^ 9)
  rw [← f.inNanos_newCash] at hfloor
  refine le_trans ?_ hdecimal
  rw [Amount.value, div_le_iff₀ (by norm_num)]
  exact hfloor

/-- Something that enters the cash, or nothing, makes it no less. -/
theorem Fill.le_newCash (f : Fill p side symbol price quantity p') (hpaid : f.paid.value ≤ 0) :
    p.cash.value ≤ f.newCash.value := by
  have hdecimal := Decimal.le_add? f.cash_eq f.room (by
    rw [Decimal.value_neg]
    linarith)
  rw [Amount.value_toDecimal, Amount.value, div_le_iff₀ (by norm_num)] at hdecimal
  -- The cash before was a whole number of nanos, which cutting digits off does not pass.
  have hnanos := Int.le_floor.2 hdecimal
  rw [← f.inNanos_newCash] at hnanos
  have hcast : (p.cash.inNanos : ℚ) ≤ f.newCash.inNanos := by exact_mod_cast hnanos
  rw [Amount.value, Amount.value]
  exact div_le_div_of_nonneg_right hcast (by norm_num)

/-- At a price that is not negative, a purchase never leaves more cash and a sale never less. -/
theorem cash_applyTrade (h : p.applyTrade side symbol price quantity = .ok p')
    (hquantity : 0 ≤ quantity.value) (hprice : 0 ≤ price.value) :
    (side = .buy → p'.cash.value ≤ p.cash.value) ∧
      (side = .sell → p.cash.value ≤ p'.cash.value) := by
  rcases fill_of_applyTrade h with ⟨f⟩
  have hcost := (Decimal.mul?_uncrossed f.cost_eq).nonneg (by
    rw [Amount.value_toDecimal, Amount.value_toDecimal]
    exact mul_nonneg hquantity hprice)
  have hpaid := (Side.value_of_direct f.direct_eq).1
  rw [f.cash_result]
  refine ⟨fun hbuy => f.newCash_le ?_, fun hsell => f.le_newCash ?_⟩
  · have hsign : side.sign = 1 := congrArg Side.sign hbuy
    rw [hpaid, hsign, one_mul]
    exact hcost
  · have hsign : side.sign = -1 := congrArg Side.sign hsell
    rw [hpaid, hsign, neg_one_mul]
    linarith

end Portfolio

end Bourse
