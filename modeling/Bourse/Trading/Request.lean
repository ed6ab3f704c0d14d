import Bourse.Quote
import Bourse.Trading.Error

/-!
# Trade Requests

A request names a side, a symbol and a quantity, any of which the caller may have
left out. It is checked before anything else happens: first the side, then the
quantity, then the symbol, and the first fault is the one reported.

## Main definitions

* `TradeRequest`: what a caller asks for.
* `TradeRequest.validate`: the quantity of a request without faults.
* `TradeOutcome`: what a caller gets.
-/

namespace Bourse

/-- What a caller asks for. -/
structure TradeRequest where
  side : Side
  symbol : String
  quantity : Option Amount
deriving DecidableEq, Repr

/-- What an executed trade did. -/
structure TradeOutcome where
  side : Side
  symbol : String
  quantity : Amount
  price : Amount
  timestamp : Timestamp
  /-- The portfolio as it was stored. -/
  portfolio : Portfolio
deriving DecidableEq, Repr

/-- The entry that the log keeps of a trade. -/
def TradeOutcome.record (o : TradeOutcome) : TradeRecord :=
  { timestamp := o.timestamp, symbol := o.symbol, side := o.side, size := o.quantity,
    price := o.price }

namespace TradeRequest

/-- The quantity, if it is given and is a valid amount above zero. -/
def checkQuantity (r : TradeRequest) : Except TradeError Amount :=
  match r.quantity with
  | none => .error (.validation "quantity not specified")
  | some q =>
    if q.isZero then .error (.validation "quantity cannot be zero")
    else if q.isNegative then .error (.validation "quantity cannot be negative")
    else if !q.isValid then .error (.validation "malformed quantity")
    else .ok q

/-- The quantity to trade, if the request has no fault. -/
def validate (r : TradeRequest) (supported : List String) : Except TradeError Amount :=
  if r.side = .unspecified then .error (.validation "trade action not specified")
  else match r.checkQuantity with
    | .error e => .error e
    | .ok q =>
      if r.symbol.isEmpty then .error (.validation "ticker not specified")
      else if isSupported supported r.symbol then .ok q
      else .error (.validation ("ticker " ++ r.symbol ++ " is not supported (try: "
        ++ ", ".intercalate supported ++ ")"))

end TradeRequest

end Bourse
