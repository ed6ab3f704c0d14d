import Bourse.Ledger.Basic
import Bourse.Market.Watch
import Bourse.Service.Error
import Bourse.Service.Warmer
import Bourse.Text.Suffix

/-!
# The Service

The service is a market and a ledger that trades at its prices, with two things going
on beside the callers: the cache is kept warm, and the valuation job makes its runs.
Callers show a token, trade, read their account, and watch prices.

Time is virtual, and the time of day is set from outside.

## Main definitions

* `Service`: all parts of it.
* `Service.start`: the service of a configuration over a feed.
* `Service.authenticate`, `trade`, `portfolio`, `history`, `snapshots`: what callers ask of the
  ledger.
* `Service.watch`, `poll?`, `drop`: what callers ask of the market.
* `Service.heed?`: the valuation job heeds the stop signal.
* `Service.shutdown`: stops what goes on beside the callers.
* `PricePoint`: what a watcher gets.
-/

namespace Bourse

/-- A market and a ledger that trades at its prices. -/
structure Service where
  config : Config
  registry : Registry
  exchange : Exchange
  ledger : Ledger
  /-- The time of day. -/
  time : Timestamp
  warmer : Warmer
  /-- The task of the valuation job. -/
  job : Nat
  /-- Whether the stop signal has fired. -/
  stopped : Bool

/-- One price on its way to a watcher. -/
structure PricePoint where
  timestamp : Timestamp
  price : Amount
deriving DecidableEq, Repr

namespace PricePoint

/-- The price of a quote. -/
def ofQuote (q : Quote) : PricePoint := ⟨q.observedAt, q.price⟩

/-- A price as it is sent to a watcher. -/
def toJson (p : PricePoint) : Json :=
  .ofMembers [("timestamp", .ofTimestamp p.timestamp), ("price", Document.encodeAmount p.price)]

end PricePoint

/-- A symbol without blanks around it and without the currency that some write behind it. -/
def normalizedSymbol (s : String) : String :=
  let s := Text.trimmed s
  (Text.stripSuffix? "-USD" s).getD s

namespace Service

/-- The market of the service. -/
def market (s : Service) : Market := s.exchange.market

/-- The service with another market. -/
def setMarket (s : Service) (market : Market) : Service :=
  { s with exchange := { s.exchange with market } }

/-- The running time. -/
def now (s : Service) : Nat := s.market.now

/-- What the tasks of the ledger see. -/
def surroundings (s : Service) : Surroundings := ⟨⟨s.now, s.time⟩, s.market.cache⟩

/-- The valuation job ends where it heeds the stop signal, once that has fired. -/
def heed? (s : Service) : Option Service :=
  if s.stopped then (s.ledger.heed? s.job).map (fun ledger => { s with ledger }) else none

/-- One turn of anything that can go on: the market, the keeper of the cache, the valuation job that
has been told to stop, a task. -/
def step? (s : Service) : Option Service :=
  (s.market.step?.map s.setMarket)
    <|> ((s.warmer.step? s.config.quotes.resubscribeBackoffMs s.stopped s.market).map
          (fun (warmer, m) => { s.setMarket m with warmer }))
    <|> s.heed?
    <|> ((s.ledger.ready? s.surroundings).map (fun id =>
          { s with ledger := Ledger.runTask s.surroundings id s.ledger.enough s.ledger }))

/-- The service after at most `fuel` turns. -/
def run : (fuel : Nat) → Service → Service
  | 0, s => s
  | fuel + 1, s =>
    match s.step? with
    | some s => run fuel s
    | none => s

/-- More turns than can be taken before time has to pass. -/
def enough (s : Service) : Nat := 2 * s.market.enough + s.ledger.enough + 16

/-- The service after all that needs no time. -/
def settle (s : Service) : Service := run s.enough s

/-- When something is due next. -/
def next? (s : Service) : Option Nat :=
  earlier s.market.next? (earlier s.ledger.next? s.warmer.due?)

/-- The service at another time. -/
def moved (t : Nat) (s : Service) : Service := s.setMarket (s.market.moved t)

/-- The service in virtual time. -/
def virtual : Virtual Service := ⟨now, settle, next?, moved⟩

/-- Time passes. -/
def wait (s : Service) (ms : Nat) : Service := virtual.wait ms s

/-- Sets the time of day. -/
def setTime (s : Service) (time : Timestamp) : Service := { s with time }

/-- The settings that the configuration has for ingestors. -/
def ingestorSettings (c : Config) : IngestorSettings :=
  { symbols := c.trading.supportedSymbols, backoff := c.feed.reconnectBackoffMs,
    buffer := c.feed.buffer }

/-- The service of a configuration over a feed, at a time of day. -/
def start (c : Config) (feed : StagedFeed) (time : Timestamp) : Service :=
  let (warmer, market) :=
    Warmer.start (.create (ingestorSettings c) feed c.quotes.busCapacity)
  let ledger := Ledger.create c.trading c.valuation
  let (job, ledger) := ledger.spawn (ledger.valuationJob c.valuation.interval 0)
  { config := c, registry := .ofEntries c.identities, exchange := .create market, ledger, time,
    warmer, job, stopped := false }

/-- The longest wait for an operation: that for a price and that for the store. -/
def patience (s : Service) : Nat :=
  s.config.trading.quoteDeadlineMs + s.config.trading.tradeDeadlineMs + 1

/-- Starts an operation and waits for its result. -/
def perform (s : Service) (x : Operation) : Option Outcome × Service :=
  let (id, ledger) := s.ledger.spawn x
  let s := { s with ledger }
  let s := virtual.await (fun s => (s.ledger.result? id).isSome) s.patience s
  ((s.ledger.result? id).join, s)

/-- The account that a token stands for, opened if need be. -/
def authenticate (s : Service) (token : String) : Except ServiceError User × Service :=
  match s.registry.authenticate token with
  | .error e => (.error (.unauthenticated e), s)
  | .ok identity =>
    match s.perform (s.ledger.opening identity) with
    | (some (.opening r), s) => (r.mapError .ofTrade, s)
    | (_, s) => (.error (.internal "broken off"), s)

/-- The portfolio of a user. -/
def portfolio (s : Service) (user : String) : Except ServiceError Portfolio × Service :=
  match s.perform (.portfolio (.reading user)) with
  | (some (.portfolio r), s) => (r.mapError .ofTrade, s)
  | (_, s) => (.error (.internal "broken off"), s)

/-- Makes a trade. -/
def trade (s : Service) (user : String) (r : TradeRequest) :
    Except ServiceError TradeOutcome × Service :=
  let r := { r with symbol := normalizedSymbol r.symbol }
  match s.perform (s.ledger.execution s.now user r) with
  | (some (.execution r), s) => (r.mapError .ofTrade, s)
  | (_, s) => (.error (.internal "broken off"), s)

/-- The trades of a user, newest first. -/
def history (s : Service) (user : String) : Except ServiceError (List TradeRecord) × Service :=
  match s.perform (.history (.looking user)) with
  | (some (.history r), s) => (r.mapError .ofTrade, s)
  | (_, s) => (.error (.internal "broken off"), s)

/-- The snapshots of a user, oldest first. -/
def snapshots (s : Service) (user : String) : Except ServiceError (List Snapshot) × Service :=
  match s.perform (.snapshots (.reading user)) with
  | (some (.snapshots r), s) => (r.mapError .ofTrade, s)
  | (_, s) => (.error (.internal "broken off"), s)

/-- How an attempt to watch ends. -/
inductive Watched where
  | watching
  | refused (error : ServiceError)
  /-- A buffer was asked for that nobody can make. -/
  | crashed

/-- Watches a symbol under a name. The watch is over when the session is. -/
def watch (s : Service) (name symbol : String) : Watched × Service :=
  let symbol := normalizedSymbol symbol
  let supported := s.config.trading.supportedSymbols
  if isSupported supported symbol then
    let session := s.config.quotes.session
    let rate := s.config.quotes.watchMaxRateMs
    let (ticket, market) := s.market.request
    let s := s.setMarket market
    let s := virtual.await (fun s => (s.market.grant? ticket).isSome) s.market.longestTurn s
    match s.market.grant? ticket with
    | some (.seated seat) =>
      let w := Watch.ofSymbol symbol rate (some (s.now + session)) seat
      (.watching, { s with exchange := s.exchange.place name w })
    | some (.failed e) => (.refused (.ofFeed e), s)
    | _ => (.crashed, s)
  else
    (.refused (.validation ("only supported tickers are " ++ Text.quotedList supported)), s)

/-- The prices that have come for the watch of a name; none without one. -/
def poll? (s : Service) (name : String) : Option (Drained PricePoint × Service) :=
  (s.exchange.drain? name none).map (fun (d, exchange) =>
    (⟨d.items.map .ofQuote, d.stop⟩, { s with exchange }))

/-- Gives up the watch of a name; whether there was one. -/
def drop (s : Service) (name : String) : Bool × Service :=
  let (r, exchange) := s.exchange.drop name
  (r, { s with exchange })

/-- Fires the stop signal, and waits until the keeper of the cache and the valuation job have ended.
Each of them stops where it heeds the signal. -/
def shutdown (s : Service) : Service :=
  let s := { s with stopped := true }
  virtual.await (fun s => decide (s.warmer = .stopped) && (s.ledger.result? s.job).isSome)
    s.market.longestTurn s

end Service

end Bourse
