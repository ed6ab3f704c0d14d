import Bourse.Feed.Coinbase
import Bourse.Text.Blank

/-!
# The Trades of Binance

The streams wanted are named in the address, so nothing has to be asked for. Each
frame carries one trade; the time is counted in milliseconds from 1970. Trades in
other currencies are passed over.

## Main definitions

* `Binance.address`: the address of the streams of some symbols.
* `Binance.decode?`: the tick in a frame.
-/

namespace Bourse

namespace Binance

open Json

/-- What stands behind the symbol in the name of a pair. -/
def currency : String := "USDT"

/-- The name of the stream of a symbol; symbols are written in ASCII. -/
def stream (symbol : String) : String :=
  Text.lowerAscii symbol ++ Text.lowerAscii currency ++ "@aggTrade"

/-- An address without slashes at its end. -/
def withoutSlashes (s : String) : String :=
  String.ofList (s.toList.reverse.dropWhile (· = '/')).reverse

/-- The address of the streams of some symbols. -/
def address (base : String) (symbols : List String) : String :=
  withoutSlashes base ++ "/stream?streams=" ++ "/".intercalate (symbols.map stream)

/-- The tick in the description of a trade. -/
def decodeTrade? (j : Json) : Option (Option FeedTick) := do
  match ← j.fields? ["s", "p", "T"] with
  | [pair, price, time] =>
    let pair ← required? string? pair
    let price ← required? string? price
    let time ← required? int64? time
    some ((Text.stripSuffix? currency pair).map (fun symbol =>
      ⟨symbol, price, Timestamp.ofMillis? time⟩))
  | _ => none

/-- The tick in a frame, if it has one; none for a frame that is no message. -/
def decode? (j : Json) : Option (Option FeedTick) := do
  match ← j.fields? ["data"] with
  | [data] => (← required? some data) |> decodeTrade?
  | _ => none

end Binance

end Bourse
