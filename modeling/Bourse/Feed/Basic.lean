import Bourse.Amount.Text
import Bourse.Quote

/-!
# Feeds

A feed is asked for some symbols and sends ticks. What it sends is not trusted: a
tick for a symbol nobody asked for, or with a price that is no amount, is dropped
with a warning.

## Main definitions

* `FeedError`: why a feed could not be had.
* `RawTick.decode`: the quote of a tick.
* `TickFault`: why a tick was dropped.
-/

namespace Bourse

/-- Why a feed could not be had. -/
inductive FeedError where
  | connect (detail : String)
  | protocol (detail : String)
  | noSymbols
deriving DecidableEq, Repr

/-- The wording of an error. -/
def FeedError.message : FeedError → String
  | .connect s => "failed to connect to feed: " ++ s
  | .protocol s => "feed protocol error: " ++ s
  | .noSymbols => "no symbols to subscribe to"

/-- Why a tick was dropped. -/
inductive TickFault where
  | unknownSymbol (symbol : String)
  | badPrice (symbol : String) (cause : AmountError)
deriving DecidableEq, Repr

/-- The wording of a fault. -/
def TickFault.message : TickFault → String
  | .unknownSymbol s => "unknown symbol " ++ Text.quoted s
  | .badPrice s e => "bad " ++ s ++ " price: " ++ e.message

/-- The warning about a tick dropped from a feed. -/
def TickFault.warning (f : TickFault) (feed : String) : String :=
  "Dropping tick from " ++ feed ++ " feed: " ++ f.message

/-- The quote of a tick for one of some symbols. -/
def RawTick.decode (symbols : List String) (t : RawTick) : Except TickFault Quote :=
  if isSupported symbols t.symbol then
    match Amount.parse t.price with
    | .ok price => .ok ⟨t.symbol, price, t.timestamp⟩
    | .error e => .error (.badPrice t.symbol e)
  else .error (.unknownSymbol t.symbol)

end Bourse
