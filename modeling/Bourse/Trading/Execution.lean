import Bourse.Config
import Bourse.Ledger.Progress
import Bourse.Trading.Request

/-!
# The Execution of a Trade

A trade is checked, priced, committed and booked.

*Pricing* waits for a recent price, up to a deadline. *Committing* reads the user's
document, applies the trade to the copy, and stores the copy if the document is
still the one that was read; another deadline covers both calls. If anything fails
until here, nothing has been written. A document that changed meanwhile makes the
trade fail and is not tried again, so no trade is ever applied to a portfolio other
than the one that was read.

*Booking* appends the trade to the log, makes the cached history invalid, and now
and then prunes the log. The trade stands whether or not that succeeds.

## Main definitions

* `Execution`: a trade under way.
* `Execution.start`: a trade after its check.
* `Execution.next`: what it does next.
* `Execution.amend`: the document with the trade applied.
-/

namespace Bourse

/-- How far a trade has got. -/
inductive Execution.Phase where
  /-- It waits for a price. -/
  | pricing (due : Nat)
  /-- It has a price and is about to read the clocks. -/
  | timing (price : Amount)
  /-- It is about to read the document. -/
  | reading (price : Amount) (moment : Moment)
  /-- It is about to store the new document in place of the version read. -/
  | storing (price : Amount) (moment : Moment) (version : Nat) (user : User)
  /-- The trade is committed and about to be logged. -/
  | logging (outcome : TradeOutcome)
  | invalidating (outcome : TradeOutcome)
  | pruning (outcome : TradeOutcome)
  | finished (result : Except TradeError TradeOutcome)
deriving Repr

/-- A trade under way. -/
structure Execution where
  user : String
  request : TradeRequest
  quantity : Amount
  config : TradingConfig
  /-- Whether the trade prunes the log. -/
  prunes : Bool
  phase : Execution.Phase
deriving Repr

namespace Execution

/-- A trade at some time, refused at once if its request has a fault. -/
def start (config : TradingConfig) (now : Nat) (user : String) (request : TradeRequest)
    (prunes : Bool) : Execution :=
  match request.validate config.supportedSymbols with
  | .ok quantity =>
    { user, request, quantity, config, prunes, phase := .pricing (now + config.quoteDeadlineMs) }
  | .error e =>
    { user, request, quantity := .zero, config, prunes, phase := .finished (.error e) }

/-- The same trade in another phase. -/
def enter (x : Execution) (p : Phase) : Execution := { x with phase := p }

/-- The trade given up with an error. -/
def fail (x : Execution) (e : TradeError) : Execution := x.enter (.finished (.error e))

/-- The document with the trade applied and counted. -/
def amend (x : Execution) (price : Amount) (time : Timestamp) (u : User) :
    Except PortfolioError User :=
  match u.portfolio.applyTrade x.request.side x.request.symbol price x.quantity with
  | .ok p => .ok { u with portfolio := p, tradeStats := u.tradeStats.record time }
  | .error e => .error e

/-- The outcome of a committed trade. -/
def outcome (x : Execution) (price : Amount) (time : Timestamp) (portfolio : Portfolio) :
    TradeOutcome :=
  { side := x.request.side, symbol := x.request.symbol, quantity := x.quantity, price,
    timestamp := time, portfolio }

/-- When the commit has to be through. -/
def commitDeadline (x : Execution) (m : Moment) : Deadline Execution :=
  some (m.now + x.config.tradeDeadlineMs,
    x.fail (.unavailable "trade could not be completed in time"))

/-- The trade after the price came, or the error in its place. -/
def priced (x : Execution) : Except QuoteError Amount → Execution
  | .ok price => x.enter (.timing price)
  | .error e => x.fail (.ofQuote e)

/-- The trade after the document was read. -/
def read (x : Execution) (price : Amount) (m : Moment) :
    Except StoreError (Option (Versioned User)) → Execution
  | .error e => x.fail (.ofStore e)
  | .ok none => x.fail (.internal ("user " ++ x.user ++ " not found"))
  | .ok (some current) =>
    match x.amend price m.time current.value with
    | .ok u => x.enter (.storing price m current.version u)
    | .error e => x.fail (.ofPortfolio e)

/-- The trade after the new document was stored. -/
def stored (x : Execution) (price : Amount) (m : Moment) :
    Except StoreError (Versioned User) → Execution
  | .ok v => x.enter (.logging (x.outcome price m.time v.value.portfolio))
  | .error e => x.fail (.ofStore e)

/-- What a trade does next. -/
def next (x : Execution) : Progress κ Execution (Except TradeError TradeOutcome) :=
  match x.phase with
  | .pricing due =>
    .pricing x.request.symbol x.config.maxQuoteAgeMs
      (some (due, x.fail (.unavailable
        ("could not get a fresh " ++ x.request.symbol ++ " quote in time"))))
      x.priced
  | .timing price => .reading (fun m => x.enter (.reading price m))
  | .reading price m => .calling (.readUser x.user) (x.commitDeadline m) (x.read price m)
  | .storing price m version u =>
    .calling (.replaceUser x.user version u) (x.commitDeadline m) (x.stored price m)
  -- From here on the trade stands, whatever the answers are.
  | .logging o =>
    .calling (.appendTrade x.user o.record) none (fun _ => x.enter (.invalidating o))
  | .invalidating o =>
    .calling (.invalidateHistory x.user) none
      (fun _ => x.enter (if x.prunes then .pruning o else .finished (.ok o)))
  | .pruning o =>
    .calling (.pruneTrades x.user x.config.maxTradeHistory) none
      (fun _ => x.enter (.finished (.ok o)))
  | .finished r => .finished r

end Execution

end Bourse
