import Bourse.Amount.Text
import Bourse.Table
import Bourse.Trade

/-!
# Portfolios

A portfolio holds cash and a position in each of its symbols. A trade moves cash
against a position, and is refused if either would fall below zero; a symbol the
portfolio has no position in, not even an empty one, cannot be traded.

The cost of a trade and what remains of the cash are computed exactly as far as
decimals allow and truncated once, when they become amounts again.

## Main definitions

* `Portfolio`: cash and positions.
* `Portfolio.seeded`: the portfolio of a new account.
* `Portfolio.applyTrade`: the portfolio after a trade.
* `Portfolio.valuation`: cash and positions at given prices.
* `PortfolioError`: why a trade was refused.
-/

namespace Bourse

/-- Why a portfolio cannot make a trade. -/
inductive PortfolioError where
  | noPosition (symbol : String)
  | insufficientCash (resulting : Decimal)
  | insufficientPosition (symbol : String) (resulting current : Decimal)
  | unspecifiedSide
  | amount (cause : AmountError)
deriving DecidableEq, Repr

/-- The wording of an error. -/
def PortfolioError.message : PortfolioError → String
  | .noPosition s => "don't have a " ++ s ++ " position in portfolio"
  | .insufficientCash r => "insufficient cash after transaction (" ++ r.text ++ ")"
  | .insufficientPosition s r c =>
    "insufficient " ++ s ++ " positions (" ++ r.text ++ ") after transaction (current: "
      ++ c.text ++ ")"
  | .unspecifiedSide => "trade action not specified"
  | .amount e => e.message

/-- Cash and the positions by symbol. -/
structure Portfolio where
  cash : Amount
  positions : Table String Amount
deriving DecidableEq, Repr

/-- The change of cash and of position, before their signs, as a side directs them: a purchase takes
the cost from the cash, a sale gives it. -/
def Side.direct (cost quantity : Decimal) : Side → Option (Decimal × Decimal)
  | .buy => some (cost, quantity)
  | .sell => some (-cost, -quantity)
  | .unspecified => none

namespace Portfolio

/-- Some cash and an empty position in each of some symbols. -/
def seeded (cash : Amount) (symbols : List String) : Portfolio :=
  ⟨cash, .ofList (symbols.map (fun s => (s, Amount.zero)))⟩

/-- The position in a symbol, if there is one. -/
def position? (p : Portfolio) (symbol : String) : Option Amount :=
  p.positions.get? symbol

/-- The portfolio with new cash and a new position, both of which must be at least zero. -/
def settle (p : Portfolio) (symbol : String) (current cash position : Decimal) :
    Except PortfolioError Portfolio :=
  if cash.isNegative then .error (.insufficientCash cash)
  else if position.isNegative then .error (.insufficientPosition symbol position current)
  else match Amount.ofDecimal cash, Amount.ofDecimal position with
    | .ok c, .ok n => .ok ⟨c, p.positions.insert symbol n⟩
    | .error e, _ => .error (.amount e)
    | _, .error e => .error (.amount e)

/-- The portfolio after buying or selling a quantity at a price. -/
def applyTrade (p : Portfolio) (side : Side) (symbol : String) (price quantity : Amount) :
    Except PortfolioError Portfolio :=
  match p.position? symbol with
  | none => .error (.noPosition symbol)
  | some held =>
    match quantity.toDecimal.mul? price.toDecimal with
    | none => .error (.amount .outOfRange)
    | some cost =>
      match side.direct cost quantity.toDecimal with
      | none => .error .unspecifiedSide
      | some (cost, delta) =>
        -- Nothing is cut off before both balances are known.
        match p.cash.toDecimal.sub? cost, held.toDecimal.add? delta with
        | some cash, some position => p.settle symbol held.toDecimal cash position
        | _, _ => .error (.amount .outOfRange)

/-- A running total plus the value of some positions at given prices. -/
def mark (quotes : Table String Amount) : Decimal → List (String × Amount) → Option Decimal
  | total, [] => some total
  | total, (symbol, size) :: rest =>
    match quotes.get? symbol with
    | none => mark quotes total rest
    | some quote =>
      match size.toDecimal.mul? quote.toDecimal with
      | none => none
      | some value =>
        match total.add? value with
        | none => none
        | some total => mark quotes total rest

/-- Cash plus every position at its price; a position without a price counts nothing. -/
def valuation (p : Portfolio) (quotes : Table String Amount) : Except AmountError Amount :=
  Amount.ofResult (mark quotes p.cash.toDecimal p.positions.entries)

end Portfolio

end Bourse
