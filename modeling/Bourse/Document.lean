import Bourse.Json.Decode
import Bourse.Quote
import Bourse.User

/-!
# Documents as JSON

How the data of the library is kept as JSON, and how it is read back. Each kind has
an encoder and a decoder side by side. Fields are written in the order in which
their record names them, positions in the order of their symbols, sides by name and
timestamps in textual form. A user without statistics counts as one who never
traded.

## Main definitions

* `encodeAmount`, `encodePortfolio`, `encodeUser` and so on: the encoders.
* `decodeAmount?`, `decodePortfolio?`, `decodeUser?` and so on: the decoders.
-/

namespace Bourse.Document

open Json

/-- An amount as its two parts. -/
def encodeAmount (a : Amount) : Json :=
  ofMembers [("units", ofInt a.units.toInt), ("nanos", ofInt a.nanos.toInt)]

/-- Reads an amount, valid or not. -/
def decodeAmount? (j : Json) : Option Amount := do
  match ← j.fields? ["units", "nanos"] with
  | [units, nanos] =>
    let units ← required? int64? units
    let nanos ← required? (int? Int32.minValue.toInt Int32.maxValue.toInt) nanos
    some ⟨Int64.ofInt units, Int32.ofInt nanos⟩
  | _ => none

/-- A portfolio with its positions by symbol. -/
def encodePortfolio (p : Portfolio) : Json :=
  ofMembers
    [("cash", encodeAmount p.cash),
     ("positions", ofMembers (p.positions.entries.map (fun e => (e.1, encodeAmount e.2))))]

/-- Reads a portfolio. -/
def decodePortfolio? (j : Json) : Option Portfolio := do
  match ← j.fields? ["cash", "positions"] with
  | [cash, positions] =>
    let cash ← required? decodeAmount? cash
    let positions ← required? (table? decodeAmount?) positions
    some ⟨cash, .ofList positions⟩
  | _ => none

/-- A side by its name. -/
def encodeSide (s : Side) : Json := ofString s.name

/-- Reads a side. -/
def decodeSide? (j : Json) : Option Side := j.choice? Side.names

/-- The statistics of a user. -/
def encodeStats (s : TradeStats) : Json :=
  ofMembers [("last_trade", ofOption ofTimestamp s.lastTrade), ("count", ofNat s.count)]

/-- Reads statistics; in an object the time of the last trade may be left out. -/
def decodeStats? (j : Json) : Option TradeStats := do
  match ← j.fields? ["last_trade", "count"] with
  | [lastTrade, count] =>
    let lastTrade ← withDefault? none (optional? timestamp?) lastTrade
    let count ← required? nat? count
    some ⟨lastTrade, count⟩
  | _ => none

/-- An entry of a trade log. -/
def encodeRecord (r : TradeRecord) : Json :=
  ofMembers
    [("timestamp", ofTimestamp r.timestamp), ("symbol", ofString r.symbol),
     ("action", encodeSide r.side), ("size", encodeAmount r.size),
     ("price", encodeAmount r.price)]

/-- Reads an entry of a trade log. -/
def decodeRecord? (j : Json) : Option TradeRecord := do
  match ← j.fields? ["timestamp", "symbol", "action", "size", "price"] with
  | [timestamp, symbol, side, size, price] =>
    some
      { timestamp := ← required? timestamp? timestamp
        symbol := ← required? string? symbol
        side := ← required? decodeSide? side
        size := ← required? decodeAmount? size
        price := ← required? decodeAmount? price }
  | _ => none

/-- The document of a user. -/
def encodeUser (u : User) : Json :=
  ofMembers
    [("id", ofString u.id), ("display_name", ofString u.displayName),
     ("profile_url", ofString u.profileUrl), ("created_at", ofTimestamp u.createdAt),
     ("portfolio", encodePortfolio u.portfolio), ("trade_stats", encodeStats u.tradeStats)]

/-- Reads the document of a user. -/
def decodeUser? (j : Json) : Option User := do
  match ← j.fields?
      ["id", "display_name", "profile_url", "created_at", "portfolio", "trade_stats"] with
  | [id, displayName, profileUrl, createdAt, portfolio, tradeStats] =>
    some
      { id := ← required? string? id
        displayName := ← required? string? displayName
        profileUrl := ← required? string? profileUrl
        createdAt := ← required? timestamp? createdAt
        portfolio := ← required? decodePortfolio? portfolio
        tradeStats := ← withDefault? .empty decodeStats? tradeStats }
  | _ => none

/-- A quote. -/
def encodeQuote (q : Quote) : Json :=
  ofMembers
    [("symbol", ofString q.symbol), ("price", encodeAmount q.price),
     ("observed_at", ofTimestamp q.observedAt)]

/-- Reads a quote. -/
def decodeQuote? (j : Json) : Option Quote := do
  match ← j.fields? ["symbol", "price", "observed_at"] with
  | [symbol, price, observedAt] =>
    some
      { symbol := ← required? string? symbol
        price := ← required? decodeAmount? price
        observedAt := ← required? timestamp? observedAt }
  | _ => none

/-- A snapshot. -/
def encodeSnapshot (s : Snapshot) : Json :=
  ofMembers [("timestamp", ofTimestamp s.timestamp), ("value", encodeAmount s.value)]

/-- Reads a snapshot. -/
def decodeSnapshot? (j : Json) : Option Snapshot := do
  match ← j.fields? ["timestamp", "value"] with
  | [timestamp, value] =>
    some ⟨← required? timestamp? timestamp, ← required? decodeAmount? value⟩
  | _ => none

end Bourse.Document
