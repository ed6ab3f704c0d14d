import Bourse.Proofs.Amount.Products
import Bourse.Proofs.Decimal.Range
import Bourse.Proofs.Portfolio.Settlement
import Bourse.Trading.Error

/-!
# Trades That Are Not Covered

A purchase is not covered if it costs more than there is cash, a sale if it sells more than there is
of the position. The caller has asked for something impossible then, and is to hear so.

The trade is judged by its cost as decimals give it, not by the exact one, and that leaves two ways
out. A cost that is out of range is a failure inside, whatever the balances are; so is the cash with
the proceeds of a sale, since it is computed before the position is looked at. And what is missing
for a purchase may be lost when the cost is rounded: then the decimal is just the cash, and the
purchase goes through and leaves none. It takes a cost of 79 billion and a shortage of half a nano
or less. There is no third way: the decimal is never below the cash, and the difference of the two
has the sign of the exact one.

## Main definitions

* `Portfolio.Uncovered`: a trade that the exact numbers do not cover.
* `Portfolio.IsCost`: the cost of a trade as decimals give it.
* `Portfolio.Verdict`: what becomes of a trade that is not covered.

## Theorems

* `shortage_of_cost_le`: when what is missing is lost.
* `applyTrade_of_spent`: what a purchase for just the cash leaves.
* `verdict_of_buy`, `verdict_of_sell`: purchases and sales.
* `verdict_applyTrade`: every trade that is not covered has a verdict.
* `Verdict.eq_validation`: below 79 billion it is the caller's error.
-/

namespace Bourse

namespace Portfolio

/-- A purchase costs more than the cash, or a sale sells more than is held. -/
def Uncovered (p : Portfolio) (held : Amount) (side : Side) (price quantity : Amount) : Prop :=
  match side with
  | .buy => p.cash.value < quantity.value * price.value
  | .sell => held.value < quantity.value
  | .unspecified => False

instance (p : Portfolio) (held : Amount) (side : Side) (price quantity : Amount) :
    Decidable (p.Uncovered held side price quantity) :=
  match side with
  | .buy => inferInstanceAs (Decidable (_ < _))
  | .sell => inferInstanceAs (Decidable (_ < _))
  | .unspecified => inferInstanceAs (Decidable False)

/-- The cost of a trade as decimals give it: the nearest decimal with the digits that its factors
have together, or with as many of them as there is room for. -/
def IsCost (price quantity : Amount) (c : ℚ) : Prop :=
  ∃ d, Decimal.Fitted (quantity.toDecimal.scale + price.toDecimal.scale)
    (quantity.value * price.value) d ∧ d.value = c

/-- What becomes of a trade that is not covered: the error that the caller hears, or the portfolio
after it. -/
inductive Verdict (p : Portfolio) (held : Amount) (symbol : String) (price quantity : Amount) :
    Side → Except TradeError Portfolio → Prop
  | insufficientCash (c : ℚ) (left : Decimal) (cost : IsCost price quantity c)
      (short : p.cash.value < c) (negative : left.value < 0)
      (close : |left.value - (p.cash.value - c)| ≤ 1 / 2) :
      Verdict p held symbol price quantity .buy
        (.error (.validation (PortfolioError.insufficientCash left).message))
  | insufficientPosition (c : ℚ) (left : Decimal) (cost : IsCost price quantity c)
      (range : Decimal.InRange (p.cash.value + c))
      (left_eq : left.value = held.value - quantity.value) :
      Verdict p held symbol price quantity .sell
        (.error (.validation
          (PortfolioError.insufficientPosition symbol left held.toDecimal).message))
  | costOutOfRange (side : Side) (range : ¬ Decimal.InRange (quantity.value * price.value)) :
      Verdict p held symbol price quantity side (.error (.internal AmountError.outOfRange.message))
  /-- The position is not looked at, since there is no cash to leave. -/
  | cashOutOfRange (c : ℚ) (cost : IsCost price quantity c)
      (range : ¬ Decimal.InRange (p.cash.value + c)) :
      Verdict p held symbol price quantity .sell (.error (.internal AmountError.outOfRange.message))
  /-- What is missing is lost when the cost is rounded. -/
  | shortageLost (p' : Portfolio) (cost : IsCost price quantity p.cash.value)
      (large : 79 * 10 ^ 9 ≤ quantity.value * price.value)
      (small : quantity.value * price.value - p.cash.value ≤ 1 / 2 / 10 ^ 9)
      (cash : p'.cash = .zero)
      (position : ∃ new, p'.position? symbol = some new ∧ new.value = held.value + quantity.value) :
      Verdict p held symbol price quantity .buy (.ok p')
  /-- It is lost, too, but there is too much to hold. -/
  | positionOutOfRange (cost : IsCost price quantity p.cash.value)
      (large : 79 * 10 ^ 9 ≤ quantity.value * price.value)
      (small : quantity.value * price.value - p.cash.value ≤ 1 / 2 / 10 ^ 9)
      (fits : ¬ Amount.Fits (held.value + quantity.value)) :
      Verdict p held symbol price quantity .buy (.error (.internal AmountError.outOfRange.message))

variable {p : Portfolio} {held : Amount} {side : Side} {symbol : String} {price quantity : Amount}
  {cost paid gained cash position : Decimal}

/-! ## The cost -/

theorem scale_cost_le (price quantity : Amount) :
    quantity.toDecimal.scale + price.toDecimal.scale ≤ 28 :=
  (Amount.scale_add_le quantity price).trans (by decide)

theorem isCost_of_mul? (hcost : quantity.toDecimal.mul? price.toDecimal = some cost) :
    IsCost price quantity cost.value := by
  have hfitted := Decimal.exists_fitted_of_mul? hcost
  rw [min_eq_left (scale_cost_le price quantity), Amount.value_toDecimal,
    Amount.value_toDecimal] at hfitted
  exact hfitted

/-- If the cost was more than some amount and is not any more, then it has been rounded to just this
amount. It was large, and not more by much. -/
theorem shortage_of_cost_le (hcost : quantity.toDecimal.mul? price.toDecimal = some cost)
    {a : Amount} (ha : 0 ≤ a.value) (hshort : a.value < quantity.value * price.value)
    (hle : cost.value ≤ a.value) :
    cost.value = a.value ∧ 79 * 10 ^ 9 ≤ quantity.value * price.value ∧
      quantity.value * price.value - a.value ≤ 1 / 2 / 10 ^ 9 := by
  have hscale := scale_cost_le price quantity
  have hreach := abs_lt.1 a.abs_value_lt
  have hclose := abs_le.1 (Decimal.mul?_close hcost)
  have hyields := Decimal.yields_mul? hcost
  have hrounded := Decimal.mul?_rounded hcost hscale
  rw [min_eq_left hscale] at hyields
  rw [Amount.value_toDecimal, Amount.value_toDecimal] at hclose hyields hrounded
  rcases hrounded (by
    rw [abs_lt]
    constructor <;> linarith) with hexact | ⟨hnine, hless, hoff⟩
  · rw [hexact] at hle
    exact absurd hshort (not_lt.2 hle)
  have hnanos : a.value * 10 ^ 9 = a.inNanos := div_mul_cancel₀ _ (by norm_num)
  -- An amount has nine digits, and rounding to nine or more does not pass it.
  have hback : a.value ≤ cost.value := by
    have hcrossed := hyields.uncrossed_at (t := 9) hscale (by omega) (by
      rw [abs_of_pos (ha.trans_lt hshort)]
      linarith)
    have hnine' := (hcrossed a.inNanos).1 (by
      rw [← hnanos]
      exact mul_le_mul_of_nonneg_right hshort.le (by norm_num))
    rw [← hnanos] at hnine'
    exact le_of_mul_le_mul_right hnine' (by norm_num)
  have heq : cost.value = a.value := le_antisymm hle hback
  refine ⟨heq, ?_, ?_⟩
  · -- Otherwise there would have been room for all digits.
    by_contra hsmall
    rw [not_le] at hsmall
    rcases mul?_toDecimal (a := quantity) (b := price) (by
      rw [abs_of_pos (ha.trans_lt hshort)]
      linarith) with ⟨c, hc, hvalue, -⟩
    rw [Option.some.inj (hc.symm.trans hcost)] at hvalue
    linarith
  · have hhalf := hoff.trans (Decimal.half_unit_le_half_nano hnine)
    rw [heq, abs_sub_comm] at hhalf
    exact (le_abs_self _).trans hhalf

/-! ## What becomes of a trade -/

/-- With its cost known, a trade is settled, unless the cash after it is out of range. -/
theorem applyTrade_eq_of_cost (hheld : p.position? symbol = some held)
    (hcost : quantity.toDecimal.mul? price.toDecimal = some cost)
    (hdirect : side.direct cost quantity.toDecimal = some (paid, gained))
    (hposition : held.toDecimal.add? gained = some position) :
    p.applyTrade side symbol price quantity =
      match p.cash.toDecimal.sub? paid with
      | some cash => p.settle symbol held.toDecimal cash position
      | none => .error (.amount .outOfRange) := by
  simp only [applyTrade, hheld, hcost, hdirect, hposition]
  cases p.cash.toDecimal.sub? paid with
  | none => rfl
  | some cash => rfl

/-- The cash is looked at first. -/
theorem settle_of_cash_neg (h : cash.value < 0) :
    p.settle symbol held.toDecimal cash position = .error (.insufficientCash cash) :=
  if_pos (Decimal.isNegative_iff.2 h)

theorem settle_of_position_neg (hcash : 0 ≤ cash.value) (h : position.value < 0) :
    p.settle symbol held.toDecimal cash position =
      .error (.insufficientPosition symbol position held.toDecimal) := by
  rw [settle, if_neg (Decimal.not_isNegative hcash), if_pos (Decimal.isNegative_iff.2 h)]

/-- A balance that is known but is no amount is out of range. -/
theorem settle_of_not_fits (hcash : 0 ≤ cash.value) (hposition : 0 ≤ position.value)
    {newCash : Amount} (hnewCash : Amount.ofDecimal cash = .ok newCash)
    (hfits : ¬ Amount.Fits position.value) :
    p.settle symbol held.toDecimal cash position = .error (.amount .outOfRange) := by
  rw [settle, if_neg (Decimal.not_isNegative hcash), if_neg (Decimal.not_isNegative hposition),
    hnewCash, Amount.ofDecimal_eq_error_iff.2 hfits]

/-- What a purchase leaves of the cash is never out of range. -/
theorem exists_left (hcash : 0 ≤ p.cash.value) (hcost : 0 ≤ cost.value) :
    ∃ left, p.cash.toDecimal.sub? cost = some left := by
  have hreach := (abs_lt.1 p.cash.abs_value_lt).2
  have hrange := cost.inRange_value
  refine Decimal.exists_add?_iff.2 ?_
  rw [Decimal.InRange, abs_of_nonneg hcost] at hrange
  rw [Amount.value_toDecimal, Decimal.value_neg, Decimal.InRange, ← lt_sub_iff_add_lt, abs_lt]
  constructor <;> linarith

/-- What is left of the cash by a cost of just as much is nothing. -/
theorem exists_left_of_spent (h : cost.value = p.cash.value) :
    ∃ left, p.cash.toDecimal.sub? cost = some left ∧ left.value = 0 := by
  have hvalue : p.cash.toDecimal.value - cost.value = 0 := by
    rw [Amount.value_toDecimal, h, sub_self]
  rcases Decimal.sub?_exact (a := p.cash.toDecimal) (b := cost) (by
    rw [hvalue, abs_zero, zero_mul]
    norm_num) with ⟨left, hleft, hnone, -⟩
  exact ⟨left, hleft, hnone.trans hvalue⟩

/-- Cash that is just spent is no cash. -/
theorem ofDecimal_of_value_eq_zero (h : cash.value = 0) : Amount.ofDecimal cash = .ok .zero := by
  rw [Amount.ofDecimal_eq, h, zero_mul, ← Int.cast_zero, truncate_intCast]
  rfl

/-- A purchase for just the cash leaves none of it, unless there is too much to hold then. -/
theorem applyTrade_of_spent (hp : p.Solvent) (hheld : p.position? symbol = some held)
    (hquantity : quantity.Sound) (hcost : quantity.toDecimal.mul? price.toDecimal = some cost)
    (hspent : cost.value = p.cash.value) :
    (∃ p', p.applyTrade .buy symbol price quantity = .ok p' ∧ p'.cash = .zero ∧
      ∃ new, p'.position? symbol = some new ∧ new.value = held.value + quantity.value) ∨
    (p.applyTrade .buy symbol price quantity = .error (.amount .outOfRange) ∧
      ¬ Amount.Fits (held.value + quantity.value)) := by
  have hdirect : Side.buy.direct cost quantity.toDecimal = some (cost, quantity.toDecimal) := rfl
  rcases exists_left_of_spent hspent with ⟨left, hleft, hnone⟩
  rcases add?_gained held hdirect with ⟨position, hposition, hgained, -⟩
  have hcash := ofDecimal_of_value_eq_zero hnone
  rw [Side.sign, one_mul] at hgained
  have hnonneg : 0 ≤ position.value := by
    rw [hgained]
    exact add_nonneg (hp.positions symbol held hheld).value_nonneg hquantity.value_nonneg
  by_cases hfits : Amount.Fits position.value
  · left
    rcases Amount.exists_of_fits hfits with ⟨new, hnew, -⟩
    obtain ⟨f⟩ : Nonempty (Fill p .buy symbol price quantity
        ⟨.zero, p.positions.insert symbol new⟩) :=
      ⟨⟨held, cost, cost, quantity.toDecimal, left, position, .zero, new, hheld, hcost, hdirect,
        hleft, hposition, hnone.ge, hnonneg, hcash, hnew, rfl⟩⟩
    have hvalue := f.value_newPosition
    rw [Option.some.inj (f.held_eq.symm.trans hheld), Side.sign, one_mul] at hvalue
    exact ⟨_, f.applyTrade_eq, rfl, f.newPosition, f.position?_result, hvalue⟩
  · right
    rw [← hgained]
    refine ⟨?_, hfits⟩
    rw [applyTrade_eq_of_cost hheld hcost hdirect hposition, hleft]
    exact settle_of_not_fits hnone.ge hnonneg hcash hfits

/-- A purchase that is not covered. -/
theorem verdict_of_buy (hp : p.Solvent) (hheld : p.position? symbol = some held)
    (hquantity : quantity.Sound) (hcost : quantity.toDecimal.mul? price.toDecimal = some cost)
    (hshort : p.cash.value < quantity.value * price.value) :
    p.Verdict held symbol price quantity .buy
      ((p.applyTrade .buy symbol price quantity).mapError .ofPortfolio) := by
  have hcash := hp.cash.value_nonneg
  have hcostIs := isCost_of_mul? hcost
  rcases lt_or_ge p.cash.value cost.value with hless | hmore
  · have hdirect : Side.buy.direct cost quantity.toDecimal = some (cost, quantity.toDecimal) := rfl
    rcases add?_gained held hdirect with ⟨position, hposition, -⟩
    have hcostNonneg := (Amount.mul?_uncrossed hcost).nonneg (hcash.trans hshort.le)
    rcases exists_left hcash hcostNonneg with ⟨left, hleft⟩
    have hclose := Decimal.sub?_close hleft
    rw [Amount.value_toDecimal] at hclose
    -- What is missing is still missing after the difference is rounded.
    have hnegative : left.value < 0 := by
      rw [Decimal.add?_neg_iff hleft, Amount.value_toDecimal, Decimal.value_neg]
      linarith
    rw [applyTrade_eq_of_cost hheld hcost hdirect hposition, hleft]
    simp only [settle_of_cash_neg hnegative]
    exact .insufficientCash cost.value left hcostIs hless hnegative hclose
  · rcases shortage_of_cost_le hcost hcash hshort hmore with ⟨hspent, hlarge, hsmall⟩
    rw [hspent] at hcostIs
    rcases applyTrade_of_spent hp hheld hquantity hcost hspent with
      ⟨p', htrade, hnone, hnew⟩ | ⟨htrade, hfits⟩
    · rw [htrade]
      exact .shortageLost p' hcostIs hlarge hsmall hnone hnew
    · rw [htrade]
      exact .positionOutOfRange hcostIs hlarge hsmall hfits

/-- A sale that is not covered. -/
theorem verdict_of_sell (hp : p.Solvent) (hheld : p.position? symbol = some held)
    (hprice : price.Sound) (hquantity : quantity.Sound)
    (hcost : quantity.toDecimal.mul? price.toDecimal = some cost)
    (hshort : held.value < quantity.value) :
    p.Verdict held symbol price quantity .sell
      ((p.applyTrade .sell symbol price quantity).mapError .ofPortfolio) := by
  have hcash := hp.cash.value_nonneg
  have hcostNonneg : 0 ≤ cost.value := (Amount.mul?_uncrossed hcost).nonneg
    (mul_nonneg hquantity.value_nonneg hprice.value_nonneg)
  have hdirect : Side.sell.direct cost quantity.toDecimal = some (-cost, -quantity.toDecimal) := rfl
  have hsum : p.cash.toDecimal.value + (- -cost).value = p.cash.value + cost.value := by
    rw [Amount.value_toDecimal, Decimal.value_neg, Decimal.value_neg, neg_neg]
  rcases add?_gained held hdirect with ⟨position, hposition, hgained, -⟩
  rw [Side.sign, neg_one_mul, ← sub_eq_add_neg] at hgained
  rw [applyTrade_eq_of_cost hheld hcost hdirect hposition]
  cases hleft : p.cash.toDecimal.sub? (-cost) with
  | none =>
      have hrange := Decimal.add?_eq_none_iff.1 hleft
      rw [hsum] at hrange
      exact .cashOutOfRange cost.value (isCost_of_mul? hcost) hrange
  | some left =>
      have hrange := Decimal.exists_add?_iff.1 ⟨left, hleft⟩
      have hleftNonneg : 0 ≤ left.value := by
        rw [← not_lt, Decimal.add?_neg_iff hleft, hsum, not_lt]
        exact add_nonneg hcash hcostNonneg
      rw [hsum] at hrange
      simp only [settle_of_position_neg hleftNonneg (show position.value < 0 by linarith)]
      exact .insufficientPosition cost.value position (isCost_of_mul? hcost) hrange hgained

/-- Every trade that is not covered has a verdict. -/
theorem verdict_applyTrade (hp : p.Solvent) (hheld : p.position? symbol = some held)
    (hprice : price.Sound) (hquantity : quantity.Sound)
    (h : p.Uncovered held side price quantity) :
    p.Verdict held symbol price quantity side
      ((p.applyTrade side symbol price quantity).mapError .ofPortfolio) := by
  cases hcost : quantity.toDecimal.mul? price.toDecimal with
  | none =>
      have hrange := Decimal.mul?_eq_none_iff.1 hcost
      rw [Amount.value_toDecimal, Amount.value_toDecimal] at hrange
      simp only [applyTrade, hheld, hcost]
      exact .costOutOfRange side hrange
  | some cost =>
      cases side with
      | buy => exact verdict_of_buy hp hheld hquantity hcost h
      | sell => exact verdict_of_sell hp hheld hprice hquantity hcost h
      | unspecified => exact h.elim

/-- Nothing passing stands in the way of a trade that is not covered. -/
theorem Verdict.ne_unavailable {r : Except TradeError Portfolio}
    (h : p.Verdict held symbol price quantity side r) (text : String) :
    r ≠ .error (.unavailable text) := by
  rintro rfl
  cases h

/-- Below 79 billion a trade that is not covered is the caller's error. -/
theorem Verdict.eq_validation {r : Except TradeError Portfolio}
    (h : p.Verdict held symbol price quantity side r) (hcost : 0 ≤ quantity.value * price.value)
    (hmoderate : quantity.value * price.value < 79 * 10 ^ 9) :
    ∃ text, r = .error (.validation text) := by
  have hreach := abs_lt.1 p.cash.abs_value_lt
  cases h with
  | insufficientCash c left => exact ⟨_, rfl⟩
  | insufficientPosition c left => exact ⟨_, rfl⟩
  | costOutOfRange _ range =>
      rw [Decimal.InRange, abs_of_nonneg hcost] at range
      linarith
  | cashOutOfRange c cost range =>
      rcases cost with ⟨d, hfitted, rfl⟩
      have hclose := abs_le.1 ((hfitted.close (scale_cost_le price quantity)).trans
        (Decimal.half_unit_le _))
      refine absurd ?_ range
      rw [Decimal.InRange, ← lt_sub_iff_add_lt, abs_lt]
      constructor <;> linarith
  | shortageLost p' cost large => linarith
  | positionOutOfRange cost large => linarith

end Portfolio

end Bourse
