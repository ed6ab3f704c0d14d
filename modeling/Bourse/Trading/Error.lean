import Bourse.Store.Basic

/-!
# Errors of Trading

Callers see three classes of errors: a request that can never succeed, a passing
obstacle after which the caller may try again, and a failure inside, whose text is
for the log. Errors of the portfolio, the store and the quotes each belong to one
class.

## Main definitions

* `QuoteError`: why there was no price.
* `TradeError`: the three classes.
* `TradeError.ofPortfolio`, `ofStore`, `ofQuote`: the class of an error.
-/

namespace Bourse

/-- Why a price could not be had. -/
inductive QuoteError where
  | cancelled
  | unknownSymbol (symbol : String)
  | unavailable (detail : String)
deriving DecidableEq, Repr

/-- The wording of an error. -/
def QuoteError.message : QuoteError → String
  | .cancelled => "quote wait cancelled"
  | .unknownSymbol s => "unknown symbol: " ++ s
  | .unavailable s => "quote unavailable: " ++ s

/-- Why a request of a caller failed. -/
inductive TradeError where
  /-- The request is bad or cannot be covered; trying again fails again. -/
  | validation (text : String)
  /-- Something passing stood in the way. -/
  | unavailable (text : String)
  /-- Something failed inside. -/
  | internal (text : String)
deriving DecidableEq, Repr

namespace TradeError

/-- The wording of an error. -/
def message : TradeError → String
  | .validation s | .unavailable s | .internal s => s

/-- Whether the caller may try again. -/
def isRetryable : TradeError → Bool
  | .unavailable _ => true
  | _ => false

/-- An amount out of range is a failure inside. -/
def ofAmount (e : AmountError) : TradeError := .internal e.message

/-- A portfolio that cannot cover a trade makes the request bad. -/
def ofPortfolio : PortfolioError → TradeError
  | .amount e => ofAmount e
  | e => .validation e.message

/-- A document that changed meanwhile is a passing obstacle, any other error a failure inside. -/
def ofStore : StoreError → TradeError
  | .conflict _ => .unavailable "concurrent trade in progress, try again"
  | e => .internal e.message

/-- A missing price is a failure inside. -/
def ofQuote (e : QuoteError) : TradeError :=
  .internal ("failed to get a quote: " ++ e.message)

end TradeError

end Bourse
