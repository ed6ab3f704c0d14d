import Bourse.Feed.Basic
import Bourse.Json.Decode
import Bourse.Json.Printer
import Bourse.Text.Suffix

/-!
# The Ticker of Coinbase

Products are named by a symbol and the currency behind it. One message asks for the
ticker of some products; from then on each frame of type `ticker` carries a price.
Frames of other types, and products in other currencies, are passed over.

## Main definitions

* `Coinbase.subscription`: the message that asks for some symbols.
* `Coinbase.decode?`: the tick in a frame.
* `FeedTick`: a tick as it is found in a frame.
-/

namespace Bourse

/-- A tick as it is found in a frame; one without a time counts as sent when it came. -/
structure FeedTick where
  symbol : String
  price : String
  time : Option Timestamp
deriving DecidableEq, Repr

namespace Coinbase

open Json

/-- What stands behind the symbol in the name of a product. -/
def currency : String := "-USD"

/-- The message that asks for the ticker of some symbols. -/
def subscription (symbols : List String) : Json :=
  ofMembers
    [("type", ofString "subscribe"),
     ("product_ids", ofList (fun s => ofString (s ++ currency)) symbols),
     ("channels", ofList ofString ["ticker"])]

/-- The tick in a frame, if it has one; none for a frame that is no message. -/
def decode? (j : Json) : Option (Option FeedTick) := do
  if j.isShort 4 then none
  else match ← j.fields? ["type", "product_id", "price", "time"] with
    | [kind, product, price, time] =>
      let kind ← required? string? kind
      let product ← withDefault? "" string? product
      let price ← withDefault? "" string? price
      let time ← withDefault? none (optional? timestamp?) time
      if kind = "ticker" then
        some ((Text.stripSuffix? currency product).map (fun symbol => ⟨symbol, price, time⟩))
      else some none
    | _ => none

end Coinbase

end Bourse
