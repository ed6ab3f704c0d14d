import Bourse.Amount.Basic
import Bourse.Time.Timestamp

/-!
# Quotes

A feed sends *ticks*: a symbol, a price as text and the time the feed gives it. A
*quote* is a tick whose price has been read.

## Main definitions

* `RawTick`: what a feed sends.
* `Quote`: a price of one symbol.
* `isSupported`: whether a symbol is in a list.
-/

namespace Bourse

/-- A price of one symbol as a feed sends it. -/
structure RawTick where
  symbol : String
  price : String
  timestamp : Timestamp
deriving DecidableEq, Repr

/-- A price of one symbol and the time its feed observed it. -/
structure Quote where
  symbol : String
  price : Amount
  observedAt : Timestamp
deriving DecidableEq, Repr

/-- Whether a symbol is in a list, spelled the same. -/
def isSupported (symbols : List String) (symbol : String) : Bool :=
  symbols.contains symbol

end Bourse
