import Bourse.Proofs.Amount.Conversion
import Bourse.Proofs.Decimal.Rounding
import Bourse.Proofs.Portfolio.Cash
import Bourse.Proofs.Portfolio.Worth

/-!
# What a Trade Settles

A trade moves a position by just its quantity and leaves all others alone, and the cash it leaves
is what exact arithmetic would leave, to within a nano. The cost may be rounded when it is computed,
the cash when the cost is taken from it, and then digits are cut off, whatever the magnitudes; what
is lost on the way never adds up to a nano.

Below 79 billion nothing is rounded at all. Then whether a trade succeeds can be read off the exact
numbers: it does just if the symbol has a position, cash and position stay at zero or above and the
position fits an amount. The cash is then cut off once, and not in favour of who trades.

## Main definitions

* `Portfolio.exactCash`, `Portfolio.exactPosition`: the balances after a trade in exact arithmetic.
* `Portfolio.Settled`: what a trade leaves, whatever it has to round.

## Theorems

* `Fill.rounded_cost`: the cost keeps nine digits or more.
* `Fill.near_cash`: all that is rounded stays below a unit of the last digit.
* `Fill.newCash_close`: the cash after a trade is less than a nano off.
* `Fill.applyTrade_eq`: a trade that computes all that it needs is not refused.
* `exists_fill`: when a trade computes all that it needs.
* `Fill.inNanos_cash`: the cash after a trade that does not round.
* `applyTrade_exact`: what a trade settles, and when it does.
-/

namespace Bourse

namespace Portfolio

/-- The cash after a trade in exact arithmetic: without the cost of a purchase, or with that of a
sale. -/
def exactCash (p : Portfolio) (side : Side) (price quantity : Amount) : ℚ :=
  p.cash.value - side.sign * (quantity.value * price.value)

/-- A position after a trade in exact arithmetic. -/
def exactPosition (held : Amount) (side : Side) (quantity : Amount) : ℚ :=
  held.value + side.sign * quantity.value

variable {p p' : Portfolio} {side : Side} {symbol : String} {price quantity : Amount}

/-! ## How far off the cash may be -/

/-- The cost is, up to its sign and half a unit, the difference of two balances within reach. -/
theorem Fill.cost_reach (f : Fill p side symbol price quantity p') :
    |quantity.value * price.value| < 2 ^ 66 := by
  have hclose := abs_le.1 (Decimal.mul?_close f.cost_eq)
  have hcash := abs_lt.1 (Amount.abs_value_lt p.cash)
  have hreach := abs_lt.1 f.reach
  rw [Amount.value_toDecimal, Amount.value_toDecimal] at hclose
  rw [Amount.value_toDecimal, Decimal.value_neg] at hreach
  rw [abs_lt]
  rcases Side.cases_of_direct f.direct_eq with ⟨-, hpaid, -⟩ | ⟨-, hpaid, -⟩
  · rw [hpaid] at hreach
    constructor <;> linarith
  · rw [hpaid, Decimal.value_neg] at hreach
    constructor <;> linarith

/-- The cost is exact, or rounded to nine digits or more. -/
theorem Fill.rounded_cost (f : Fill p side symbol price quantity p') :
    Decimal.Rounded (quantity.toDecimal.scale + price.toDecimal.scale)
      (quantity.value * price.value) f.cost := by
  have hscale : quantity.toDecimal.scale + price.toDecimal.scale ≤ 28 := by
    have hq := quantity.scale_toDecimal_le
    have hp := price.scale_toDecimal_le
    omega
  have hreach := f.cost_reach
  rw [← Amount.value_toDecimal quantity, ← Amount.value_toDecimal price] at hreach ⊢
  exact Decimal.mul?_rounded f.cost_eq hscale hreach

/-- So is what is added to the cash. -/
theorem Fill.rounded_paid (f : Fill p side symbol price quantity p') :
    Decimal.Rounded (quantity.toDecimal.scale + price.toDecimal.scale)
      (-(side.sign * (quantity.value * price.value))) (-f.paid) := by
  rcases Side.cases_of_direct f.direct_eq with ⟨rfl, hpaid, -⟩ | ⟨rfl, hpaid, -⟩
  · rw [Side.sign, one_mul, hpaid]
    exact f.rounded_cost.neg
  · rw [Side.sign, neg_one_mul, hpaid]
    exact f.rounded_cost.neg.neg

/-- All that is rounded stays below a unit of the last digit that the cash has before it is cut. -/
theorem Fill.near_cash (f : Fill p side symbol price quantity p') :
    Near f.cash.value (p.exactCash side price quantity) := by
  have hsum := Decimal.add?_rounded f.cash_eq (f.reach.trans (by norm_num))
  have hnear := Decimal.near_add p.cash.scale_toDecimal_le f.rounded_paid hsum
  rw [Amount.value_toDecimal, ← sub_eq_add_neg] at hnear
  exact hnear

/-- The cash after a trade is less than a nano off. -/
theorem Fill.newCash_close (f : Fill p side symbol price quantity p') :
    |f.newCash.value - p.exactCash side price quantity| < 1 / 10 ^ 9 := by
  have hclose := f.near_cash.truncate_close
  rw [truncate_of_nonneg (mul_nonneg f.cash_nonneg (by norm_num)), ← f.inNanos_newCash] at hclose
  exact hclose

/-! ## When a trade succeeds -/

/-- A trade that computes all that it needs is not refused. -/
theorem Fill.applyTrade_eq (f : Fill p side symbol price quantity p') :
    p.applyTrade side symbol price quantity = .ok p' := by
  simp only [applyTrade, f.held_eq, f.cost_eq, f.direct_eq, f.cash_eq, f.position_eq, settle,
    f.newCash_eq, f.newPosition_eq]
  rw [if_neg (Decimal.not_isNegative f.cash_nonneg),
    if_neg (Decimal.not_isNegative f.position_nonneg)]
  exact congrArg Except.ok f.result_eq.symm

/-- A trade of moderate cost computes all that it needs, if the balances it leaves are at least zero
and fit. -/
theorem exists_fill (hside : side = .buy ∨ side = .sell) {held : Amount}
    (hheld : p.position? symbol = some held)
    (hcost : |quantity.value * price.value| < 79 * 10 ^ 9)
    (hreach : |p.exactCash side price quantity| < 79 * 10 ^ 9)
    (hcash : 0 ≤ p.exactCash side price quantity)
    (hposition : 0 ≤ exactPosition held side quantity)
    (hfits : Amount.Fits (exactPosition held side quantity)) :
    ∃ p', Nonempty (Fill p side symbol price quantity p') := by
  rcases mul?_toDecimal (hcost.trans (by norm_num)) with ⟨cost, hmul, hcostValue, hcostScale⟩
  obtain ⟨paid, gained, hdirect⟩ :
      ∃ paid gained, side.direct cost quantity.toDecimal = some (paid, gained) := by
    rcases hside with rfl | rfl
    · exact ⟨_, _, rfl⟩
    · exact ⟨_, _, rfl⟩
  -- Neither difference nor sum is rounded, so both are what is known to be at least zero.
  have hrest : p.cash.value - side.sign * cost.value = p.exactCash side price quantity := by
    rw [hcostValue, exactCash]
  rcases sub?_paid p.cash hdirect hcostScale (by
    rw [hrest]
    exact hreach.trans (by norm_num)) with ⟨cash, hsub, hcashValue⟩
  rcases add?_gained held hdirect with ⟨position, hadd, hpositionValue, -⟩
  rw [hrest] at hcashValue
  rw [← hcashValue] at hcash hreach
  rw [exactPosition, ← hpositionValue] at hposition hfits
  rcases Amount.ofDecimal_of_nonneg hcash
    ((le_abs_self _).trans_lt (hreach.trans (by norm_num))) with ⟨newCash, hnewCash, -⟩
  rcases Amount.exists_of_fits hfits with ⟨newPosition, hnewPosition, -⟩
  exact ⟨_, ⟨⟨held, cost, paid, gained, cash, position, newCash, newPosition, hheld, hmul, hdirect,
    hsub, hadd, hcash, hposition, hnewCash, hnewPosition, rfl⟩⟩⟩

/-- The balances that a trade leaves are at least zero and fit. -/
theorem Fill.exactPosition_fits (f : Fill p side symbol price quantity p') :
    0 ≤ exactPosition f.held side quantity ∧ Amount.Fits (exactPosition f.held side quantity) := by
  rw [exactPosition, ← f.value_newPosition]
  exact ⟨f.sound_newPosition.value_nonneg, Amount.fits_value f.sound_newPosition.1⟩

/-! ## What a trade settles -/

/-- What a trade leaves, whatever it has to round: one position is moved by just the quantity, no
other is touched, and the cash is less than a nano off. -/
structure Settled (p : Portfolio) (side : Side) (symbol : String) (price quantity : Amount)
    (p' : Portfolio) : Prop where
  solvent : p'.Solvent
  position : ∃ held new, p.position? symbol = some held ∧ p'.position? symbol = some new ∧
    new.value = exactPosition held side quantity
  others : ∀ s, s ≠ symbol → p'.position? s = p.position? s
  symbols : ∀ s, s ∈ p'.positions.keys ↔ s ∈ p.positions.keys
  cash : |p'.cash.value - p.exactCash side price quantity| < 1 / 10 ^ 9

theorem settled_of_applyTrade (hp : p.Solvent)
    (h : p.applyTrade side symbol price quantity = .ok p') :
    Settled p side symbol price quantity p' := by
  rcases fill_of_applyTrade h with ⟨f⟩
  exact
    { solvent := solvent_applyTrade h hp
      position := ⟨f.held, f.newPosition, f.held_eq, f.position?_result, f.value_newPosition⟩
      others := fun s hs => position?_applyTrade_of_ne h hs
      symbols := fun s => mem_keys_applyTrade h
      cash := by
        rw [f.cash_result]
        exact f.newCash_close }

/-- Without rounding, the cash is cut off once, and never above what it should be. -/
theorem Fill.inNanos_cash (f : Fill p side symbol price quantity p')
    (hcost : |quantity.value * price.value| < 79 * 10 ^ 9)
    (hreach : |p.exactCash side price quantity| < 79 * 10 ^ 9) :
    0 ≤ p.exactCash side price quantity ∧
      p'.cash.inNanos = truncate (p.exactCash side price quantity * 10 ^ 9) ∧
      p'.cash.value ≤ p.exactCash side price quantity := by
  have hexact : f.cash.value = p.exactCash side price quantity :=
    f.value_cash (hcost.trans (by norm_num)) (hreach.trans (by norm_num))
  have hnonneg := f.cash_nonneg
  have hnanos := f.inNanos_newCash
  rw [hexact] at hnonneg hnanos
  refine ⟨hnonneg, ?_, ?_⟩
  · rw [f.cash_result, hnanos, truncate_of_nonneg (mul_nonneg hnonneg (by norm_num))]
  · rw [f.cash_result, Amount.value, div_le_iff₀ (by norm_num), hnanos]
    exact Int.floor_le _

/-- A trade moves one position by just the quantity, leaves all else alone and the cash less than a
nano off. If the cash, the cost and the cash left are below 79 billion, it succeeds just if there is
such a position, both balances are at least zero and the position fits; and the cash is the exact
one truncated at nine digits, which is never in favour of who trades. -/
theorem applyTrade_exact (hp : p.Solvent) (hside : side = .buy ∨ side = .sell)
    (hprice : 0 ≤ price.value) (hquantity : 0 ≤ quantity.value) :
    (∀ p', p.applyTrade side symbol price quantity = .ok p' →
      Settled p side symbol price quantity p') ∧
    (p.cash.value < 79 * 10 ^ 9 → quantity.value * price.value < 79 * 10 ^ 9 →
      p.exactCash side price quantity < 79 * 10 ^ 9 →
      ((∃ p', p.applyTrade side symbol price quantity = .ok p') ↔
        ∃ held, p.position? symbol = some held ∧ 0 ≤ p.exactCash side price quantity ∧
          0 ≤ exactPosition held side quantity ∧
          Amount.Fits (exactPosition held side quantity)) ∧
      ∀ p', p.applyTrade side symbol price quantity = .ok p' →
        p'.cash.inNanos = truncate (p.exactCash side price quantity * 10 ^ 9) ∧
          p'.cash.value ≤ p.exactCash side price quantity) := by
  refine ⟨fun p' h => settled_of_applyTrade hp h, fun hcash hcost hexact => ?_⟩
  have hcashNonneg := hp.cash.value_nonneg
  have hcostNonneg : 0 ≤ quantity.value * price.value := mul_nonneg hquantity hprice
  have hcostAbs : |quantity.value * price.value| < 79 * 10 ^ 9 := by
    rw [abs_of_nonneg hcostNonneg]
    exact hcost
  -- A purchase cannot leave less than minus the cost, and a sale no less than there was.
  have hreach : |p.exactCash side price quantity| < 79 * 10 ^ 9 := by
    refine abs_lt.2 ⟨?_, hexact⟩
    rcases hside with rfl | rfl
    · rw [exactCash, Side.sign, one_mul]
      linarith
    · rw [exactCash, Side.sign, neg_one_mul]
      linarith
  refine ⟨⟨?_, ?_⟩, ?_⟩
  · rintro ⟨p', h⟩
    rcases fill_of_applyTrade h with ⟨f⟩
    exact ⟨f.held, f.held_eq, (f.inNanos_cash hcostAbs hreach).1, f.exactPosition_fits⟩
  · rintro ⟨held, hheld, hleft, hposition, hfits⟩
    rcases exists_fill hside hheld hcostAbs hreach hleft hposition hfits with ⟨p', ⟨f⟩⟩
    exact ⟨p', f.applyTrade_eq⟩
  · intro p' h
    rcases fill_of_applyTrade h with ⟨f⟩
    exact (f.inNanos_cash hcostAbs hreach).2

/-- A purchase so large that its cost is rounded, here in favour of who buys, and a small one whose
cost has a fraction of a nano. -/
theorem applyTrade_exact_large_and_small :
    (∃ p', (seeded ⟨9223372036854775807, 999999999⟩ ["BTC"]).applyTrade .buy "BTC"
          ⟨3000000000, 987654321⟩ ⟨3000000000, 123456789⟩ = .ok p' ∧
      p'.cash = ⟨223372033521442477, 878067368⟩ ∧
      (seeded ⟨9223372036854775807, 999999999⟩ ["BTC"]).exactCash .buy
        ⟨3000000000, 987654321⟩ ⟨3000000000, 123456789⟩ < p'.cash.value ∧
      Settled (seeded ⟨9223372036854775807, 999999999⟩ ["BTC"]) .buy "BTC"
        ⟨3000000000, 987654321⟩ ⟨3000000000, 123456789⟩ p') ∧
    ∃ p', (seeded ⟨100000, 0⟩ ["BTC"]).applyTrade .buy "BTC" ⟨333, 333333333⟩ ⟨0, 7⟩ = .ok p' ∧
      p'.cash.inNanos = 99999999997666 ∧
      p'.cash.value ≤ (seeded ⟨100000, 0⟩ ["BTC"]).exactCash .buy ⟨333, 333333333⟩ ⟨0, 7⟩ := by
  constructor
  · have htrade : (seeded ⟨9223372036854775807, 999999999⟩ ["BTC"]).applyTrade .buy "BTC"
        ⟨3000000000, 987654321⟩ ⟨3000000000, 123456789⟩ =
        .ok ⟨⟨223372033521442477, 878067368⟩, .ofList [("BTC", ⟨3000000000, 123456789⟩)]⟩ := by
      decide +kernel
    exact ⟨_, htrade, rfl, by decide +kernel,
      (applyTrade_exact (solvent_seeded (by decide) ["BTC"]) (Or.inl rfl) (by decide +kernel)
        (by decide +kernel)).1 _ htrade⟩
  · rcases (@applyTrade_exact (seeded ⟨100000, 0⟩ ["BTC"]) .buy "BTC" ⟨333, 333333333⟩ ⟨0, 7⟩
      (solvent_seeded (by decide) ["BTC"]) (Or.inl rfl) (by decide +kernel) (by decide +kernel)).2
      (by decide +kernel) (by decide +kernel) (by decide +kernel) with ⟨hwhen, hthen⟩
    rcases hwhen.2 ⟨.zero, by decide, by decide +kernel, by decide +kernel, by decide +kernel⟩ with
      ⟨p', h⟩
    exact ⟨p', h, (hthen p' h).1.trans (by decide +kernel), (hthen p' h).2⟩

end Portfolio

end Bourse
