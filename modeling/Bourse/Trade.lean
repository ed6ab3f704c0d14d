import Bourse.Amount.Basic
import Bourse.Time.Timestamp

/-!
# Trades

What a trade is once it is done: which side, how much of what at which price, and
when. A user's statistics count the trades and remember the time of the last.

## Main definitions

* `Side`: buying or selling; a request may leave it open.
* `TradeRecord`: one entry of a trade log.
* `TradeStats`: the count of a user's trades and the time of the last.
-/

namespace Bourse

/-- The direction of a trade. -/
inductive Side where
  /-- Left open by the caller; such a request is never executed. -/
  | unspecified
  | buy
  | sell
deriving DecidableEq, Repr, Inhabited

/-- The name of a side in documents and answers. -/
def Side.name : Side → String
  | .unspecified => "UNSPECIFIED"
  | .buy => "BUY"
  | .sell => "SELL"

/-- The sides by their names. -/
def Side.names : List (String × Side) :=
  [("UNSPECIFIED", .unspecified), ("BUY", .buy), ("SELL", .sell)]

/-- One executed trade. -/
structure TradeRecord where
  timestamp : Timestamp
  symbol : String
  side : Side
  size : Amount
  price : Amount
deriving DecidableEq, Repr

/-- How many trades a user has made, and when the last one was. -/
structure TradeStats where
  lastTrade : Option Timestamp
  count : Nat
deriving DecidableEq, Repr

namespace TradeStats

/-- The statistics before the first trade. -/
def empty : TradeStats := ⟨none, 0⟩

/-- The statistics after one more trade. -/
def record (s : TradeStats) (time : Timestamp) : TradeStats :=
  ⟨some time, s.count + 1⟩

end TradeStats

end Bourse
