import Bourse.Document
import Bourse.Json.Reader
import Bourse.Json.Printer
import Bourse.Identity
import Bourse.Text.Quoted

/-!
# Configuration

The settings of the program, in five groups. They are read from JSON, where
everything has a default, so an empty object is a configuration. Two variables of the
environment override the feed and the symbols. A configuration without symbols is
refused.

Durations are kept as the whole numbers they are written as; the functions on them
give milliseconds.

## Main definitions

* `FeedConfig`, `QuoteConfig`, `TradingConfig`, `ValuationConfig`: the groups.
* `Config`: all settings.
* `Config.ofJson`: reads a configuration.
* `Config.withOverrides`: applies the environment.
* `Config.toJson`: writes a configuration.
* `ConfigError`: why there is no configuration.
-/

namespace Bourse

open Json Document

/-- Why a configuration was refused. -/
inductive ConfigError where
  | unreadable
  | malformed
  | unknownProvider (name : String)
  | noSymbols
deriving DecidableEq, Repr

/-- The wording of an error whose text is this library's own. -/
def ConfigError.message? : ConfigError → Option String
  | .unreadable | .malformed => none
  | .unknownProvider s => some ("Unknown feed provider: " ++ s)
  | .noSymbols => some "No supported symbols configured"

/-- Where prices come from. -/
inductive FeedProvider where
  | coinbase
  | binance
deriving DecidableEq, Repr, Inhabited

namespace FeedProvider

/-- The name of a provider. -/
def name : FeedProvider → String
  | .coinbase => "coinbase"
  | .binance => "binance"

/-- The providers by name. -/
def names : List (String × FeedProvider) :=
  [("coinbase", .coinbase), ("binance", .binance)]

/-- The public address of a provider. -/
def defaultUrl : FeedProvider → String
  | .coinbase => "wss://ws-feed.exchange.coinbase.com"
  | .binance => "wss://stream.binance.com:9443"

/-- The provider of a name in either case and with blanks around it. -/
def parse (s : String) : Except ConfigError FeedProvider :=
  let name := Text.lowerAscii (Text.trimmed s)
  match names.lookup name with
  | some p => .ok p
  | none => .error (.unknownProvider name)

end FeedProvider

/-- The connection to the feed. -/
structure FeedConfig where
  provider : FeedProvider
  /-- An address to use instead of the provider's own. -/
  url : Option String
  reconnectBackoffMs : Nat
  /-- Quotes held between the feed and the bus. -/
  buffer : Nat
deriving DecidableEq, Repr

namespace FeedConfig

/-- The settings when nothing is given. -/
def standard : FeedConfig :=
  { provider := .coinbase, url := none, reconnectBackoffMs := 100, buffer := 256 }

/-- The address to connect to. -/
def address (c : FeedConfig) : String := c.url.getD c.provider.defaultUrl

def decode? (j : Json) : Option FeedConfig := do
  match ← j.fields? ["provider", "url", "reconnect_backoff_ms", "buffer"] with
  | [provider, url, backoff, buffer] =>
    some
      { provider := ← withDefault? standard.provider (choice? FeedProvider.names) provider
        url := ← withDefault? none (optional? string?) url
        reconnectBackoffMs := ← withDefault? standard.reconnectBackoffMs nat? backoff
        buffer := ← withDefault? standard.buffer nat? buffer }
  | _ => none

def toJson (c : FeedConfig) : Json :=
  ofMembers
    [("provider", ofString c.provider.name), ("url", ofOption ofString c.url),
     ("reconnect_backoff_ms", ofNat c.reconnectBackoffMs), ("buffer", ofNat c.buffer)]

end FeedConfig

/-- How quotes reach those who watch. -/
structure QuoteConfig where
  /-- Quotes held for each subscriber. -/
  busCapacity : Nat
  /-- The least time between two prices sent to one watcher. -/
  watchMaxRateMs : Nat
  /-- How long a watch lasts. -/
  sessionSecs : Nat
  /-- The pause before the quote cache subscribes again. -/
  resubscribeBackoffMs : Nat
deriving DecidableEq, Repr

namespace QuoteConfig

/-- The settings when nothing is given. -/
def standard : QuoteConfig :=
  { busCapacity := 64, watchMaxRateMs := 100, sessionSecs := 900, resubscribeBackoffMs := 1000 }

/-- How long a watch lasts, in milliseconds. -/
def session (c : QuoteConfig) : Nat := c.sessionSecs * 1000

def decode? (j : Json) : Option QuoteConfig := do
  match ← j.fields?
      ["bus_capacity", "watch_max_rate_ms", "session_secs", "resubscribe_backoff_ms"] with
  | [capacity, rate, session, backoff] =>
    some
      { busCapacity := ← withDefault? standard.busCapacity nat? capacity
        watchMaxRateMs := ← withDefault? standard.watchMaxRateMs nat? rate
        sessionSecs := ← withDefault? standard.sessionSecs nat? session
        resubscribeBackoffMs := ← withDefault? standard.resubscribeBackoffMs nat? backoff }
  | _ => none

def toJson (c : QuoteConfig) : Json :=
  ofMembers
    [("bus_capacity", ofNat c.busCapacity), ("watch_max_rate_ms", ofNat c.watchMaxRateMs),
     ("session_secs", ofNat c.sessionSecs),
     ("resubscribe_backoff_ms", ofNat c.resubscribeBackoffMs)]

end QuoteConfig

/-- How trades are made. -/
structure TradingConfig where
  /-- The symbols that may be traded; a new portfolio has a position in each. -/
  supportedSymbols : List String
  /-- The cash of a new portfolio. -/
  startingCash : Amount
  /-- The longest wait for a price. -/
  quoteDeadlineMs : Nat
  /-- The longest time for reading, changing and storing a portfolio. -/
  tradeDeadlineMs : Nat
  /-- Only a younger price is traded at. -/
  maxQuoteAgeMs : Nat
  /-- Entries of a log that pruning keeps. -/
  maxTradeHistory : Nat
  /-- The chance that a trade prunes the log. -/
  historyPruneProbability : Float
  /-- How long a cached history is served. -/
  tradeHistoryTtlSecs : Nat
deriving Repr

namespace TradingConfig

/-- The settings when nothing is given. -/
def standard : TradingConfig :=
  { supportedSymbols := ["BTC", "ETH", "DOGE"]
    startingCash := .ofUnits 100000
    quoteDeadlineMs := 2000
    tradeDeadlineMs := 1000
    maxQuoteAgeMs := 10000
    maxTradeHistory := 300
    historyPruneProbability := 0.01
    tradeHistoryTtlSecs := 21600 }

/-- How long a cached history is served, in milliseconds. -/
def tradeHistoryTtl (c : TradingConfig) : Nat := c.tradeHistoryTtlSecs * 1000

/-- Whether every trade prunes the log. A chance below one is left to luck, and luck says no. -/
def alwaysPrunes (c : TradingConfig) : Bool := 1.0 <= c.historyPruneProbability

def decode? (j : Json) : Option TradingConfig := do
  match ← j.fields?
      ["supported_symbols", "starting_cash", "quote_deadline_ms", "trade_deadline_ms",
       "max_quote_age_ms", "max_trade_history", "history_prune_probability",
       "trade_history_ttl_secs"] with
  | [symbols, cash, quoteDeadline, tradeDeadline, age, history, prune, ttl] =>
    some
      { supportedSymbols := ← withDefault? standard.supportedSymbols (list? string?) symbols
        startingCash := ← withDefault? standard.startingCash decodeAmount? cash
        quoteDeadlineMs := ← withDefault? standard.quoteDeadlineMs nat? quoteDeadline
        tradeDeadlineMs := ← withDefault? standard.tradeDeadlineMs nat? tradeDeadline
        maxQuoteAgeMs := ← withDefault? standard.maxQuoteAgeMs nat? age
        maxTradeHistory := ← withDefault? standard.maxTradeHistory nat? history
        historyPruneProbability := ← withDefault? standard.historyPruneProbability double? prune
        tradeHistoryTtlSecs := ← withDefault? standard.tradeHistoryTtlSecs nat? ttl }
  | _ => none

def toJson (c : TradingConfig) : Json :=
  ofMembers
    [("supported_symbols", ofList ofString c.supportedSymbols),
     ("starting_cash", encodeAmount c.startingCash),
     ("quote_deadline_ms", ofNat c.quoteDeadlineMs),
     ("trade_deadline_ms", ofNat c.tradeDeadlineMs),
     ("max_quote_age_ms", ofNat c.maxQuoteAgeMs),
     ("max_trade_history", ofNat c.maxTradeHistory),
     ("history_prune_probability", ofDouble c.historyPruneProbability),
     ("trade_history_ttl_secs", ofNat c.tradeHistoryTtlSecs)]

end TradingConfig

/-- How portfolios are valued every so often. -/
structure ValuationConfig where
  /-- The time from one run to the next. -/
  intervalSecs : Nat
  /-- The pause after a run that failed as a whole. -/
  retryBackoffSecs : Nat
  /-- Older snapshots are removed; the number may be below zero. -/
  maxHistoryHours : Int
  /-- Users valued at a time. -/
  parallelism : Nat
  /-- Users fetched at a time. -/
  pageSize : Nat
  /-- The longest wait for each price. -/
  quoteDeadlineMs : Nat
  /-- Only a younger price is used. -/
  maxQuoteAgeMs : Nat
deriving DecidableEq, Repr

namespace ValuationConfig

/-- The settings when nothing is given. -/
def standard : ValuationConfig :=
  { intervalSecs := 3600, retryBackoffSecs := 60, maxHistoryHours := 744, parallelism := 10,
    pageSize := 100, quoteDeadlineMs := 2000, maxQuoteAgeMs := 10000 }

/-- The time from one run to the next, in milliseconds. -/
def interval (c : ValuationConfig) : Nat := c.intervalSecs * 1000

/-- The pause after a failed run, in milliseconds. -/
def retryBackoff (c : ValuationConfig) : Nat := c.retryBackoffSecs * 1000

/-- The longest span whose milliseconds 64 bits hold. -/
def longestSpanMs : Int := Int64.maxValue.toInt

/-- The age past which snapshots are removed, in milliseconds, where it is a span. -/
def maxHistoryMs? (c : ValuationConfig) : Option Int :=
  let ms := c.maxHistoryHours * 3600000
  if -longestSpanMs ≤ ms ∧ ms ≤ longestSpanMs then some ms else none

def decode? (j : Json) : Option ValuationConfig := do
  match ← j.fields?
      ["interval_secs", "retry_backoff_secs", "max_history_hours", "parallelism", "page_size",
       "quote_deadline_ms", "max_quote_age_ms"] with
  | [interval, retry, history, parallelism, page, deadline, age] =>
    some
      { intervalSecs := ← withDefault? standard.intervalSecs nat? interval
        retryBackoffSecs := ← withDefault? standard.retryBackoffSecs nat? retry
        maxHistoryHours := ← withDefault? standard.maxHistoryHours int64? history
        parallelism := ← withDefault? standard.parallelism nat? parallelism
        pageSize := ← withDefault? standard.pageSize nat? page
        quoteDeadlineMs := ← withDefault? standard.quoteDeadlineMs nat? deadline
        maxQuoteAgeMs := ← withDefault? standard.maxQuoteAgeMs nat? age }
  | _ => none

def toJson (c : ValuationConfig) : Json :=
  ofMembers
    [("interval_secs", ofNat c.intervalSecs), ("retry_backoff_secs", ofNat c.retryBackoffSecs),
     ("max_history_hours", ofInt c.maxHistoryHours), ("parallelism", ofNat c.parallelism),
     ("page_size", ofNat c.pageSize), ("quote_deadline_ms", ofNat c.quoteDeadlineMs),
     ("max_quote_age_ms", ofNat c.maxQuoteAgeMs)]

end ValuationConfig

namespace IdentityEntry

def decode? (j : Json) : Option IdentityEntry := do
  match ← j.fields? ["token", "key", "display_name", "profile_url"] with
  | [token, key, displayName, profileUrl] =>
    some
      { token := ← required? string? token
        identity :=
          { key := ← required? string? key
            displayName := ← required? string? displayName
            profileUrl := ← withDefault? "" string? profileUrl } }
  | _ => none

def toJson (e : IdentityEntry) : Json :=
  ofMembers
    [("token", ofString e.token), ("key", ofString e.identity.key),
     ("display_name", ofString e.identity.displayName),
     ("profile_url", ofString e.identity.profileUrl)]

end IdentityEntry

/-- All settings. -/
structure Config where
  feed : FeedConfig
  quotes : QuoteConfig
  trading : TradingConfig
  valuation : ValuationConfig
  identities : List IdentityEntry
deriving Repr

namespace Config

/-- The settings when nothing is given. -/
def standard : Config :=
  { feed := .standard, quotes := .standard, trading := .standard, valuation := .standard,
    identities := [] }

def decode? (j : Json) : Option Config := do
  match ← j.fields? ["feed", "quotes", "trading", "valuation", "identities"] with
  | [feed, quotes, trading, valuation, identities] =>
    some
      { feed := ← withDefault? .standard FeedConfig.decode? feed
        quotes := ← withDefault? .standard QuoteConfig.decode? quotes
        trading := ← withDefault? .standard TradingConfig.decode? trading
        valuation := ← withDefault? .standard ValuationConfig.decode? valuation
        identities := ← withDefault? [] (list? IdentityEntry.decode?) identities }
  | _ => none

/-- All settings as JSON. -/
def toJson (c : Config) : Json :=
  ofMembers
    [("feed", c.feed.toJson), ("quotes", c.quotes.toJson), ("trading", c.trading.toJson),
     ("valuation", c.valuation.toJson), ("identities", ofList IdentityEntry.toJson c.identities)]

/-- A configuration with at least one symbol, or the error. -/
def validate (c : Config) : Except ConfigError Config :=
  if c.trading.supportedSymbols.isEmpty then .error .noSymbols else .ok c

/-- Reads a configuration. -/
def ofJson (text : String) : Except ConfigError Config :=
  match (Json.parse text).bind decode? with
  | none => .error .malformed
  | some c => c.validate

/-- The symbols in a list with commas, in upper case and without empty ones. -/
def symbolList (s : String) : List String :=
  ((s.splitOn ",").map (fun p => Text.upperAscii (Text.trimmed p))).filter (fun p => !p.isEmpty)

/-- The configuration with the provider and the symbols that the environment names. -/
def withOverrides (c : Config) (var : String → Option String) : Except ConfigError Config :=
  match (var "FEED").mapM FeedProvider.parse with
  | .error e => .error e
  | .ok provider =>
    validate
      { c with
        feed := { c.feed with provider := provider.getD c.feed.provider }
        trading := { c.trading with
          supportedSymbols := ((var "SYMBOLS").map symbolList).getD c.trading.supportedSymbols } }

end Config

end Bourse
