import Bourse.Config
import Bourse.Feed.Binance

/-!
# Providers

How each provider is connected to, and how its frames are read.

## Main definitions

* `FeedRequest`: where to connect, and what to send first.
* `FeedProvider.request`: the request for some symbols.
* `FeedProvider.connect`: the request, if its address answers.
* `FeedProvider.decode?`: the tick in a frame.
-/

namespace Bourse

/-- Where to connect, and the message to send first. -/
structure FeedRequest where
  address : String
  message : Option String
deriving DecidableEq, Repr

namespace FeedProvider

/-- The request for some symbols at an address; there must be at least one. -/
def request (p : FeedProvider) (base : String) (symbols : List String) :
    Except FeedError FeedRequest :=
  if symbols.isEmpty then .error .noSymbols
  else match p with
    | .coinbase => .ok ⟨base, some (Coinbase.subscription symbols).text⟩
    | .binance => .ok ⟨Binance.address base symbols, none⟩

/-- The request for some symbols, if its address is among those that answer. -/
def connect (p : FeedProvider) (base : String) (symbols : List String)
    (answers : String → Bool) : Except FeedError FeedRequest :=
  match p.request base symbols with
  | .error e => .error e
  | .ok r =>
    if answers r.address then .ok r else .error (.connect ("no answer from " ++ r.address))

/-- The tick in a text frame, if it has one; none for a frame that is no message. -/
def decode? (p : FeedProvider) (frame : String) : Option (Option FeedTick) :=
  (Json.parse frame).bind (match p with
    | .coinbase => Coinbase.decode?
    | .binance => Binance.decode?)

end FeedProvider

end Bourse
