import Bourse.Config
import Bourse.Ledger.Progress

/-!
# Accounts

An account is opened the first time its owner is seen, with the cash and the symbols
of the configuration and a snapshot of what that is worth. Two who open the same
account at once both get the one that was stored first.

The portfolio and the snapshots are read from the store as they are. The trade
history is read through the history cache; if the cache fails, the log is read
instead and nothing is saved.

## Main definitions

* `AccountOpening`: the account of an identity, opened if need be.
* `PortfolioReading`, `HistoryReading`, `SnapshotReading`: the three readings.
-/

namespace Bourse

/-- How far the opening of an account has got. -/
inductive AccountOpening.Phase where
  /-- It is about to look for the account. -/
  | looking
  /-- There is none, and it is about to read the clocks. -/
  | timing
  | creating (user : User)
  /-- The account is there and its first snapshot is about to be written. -/
  | recording (user : User)
  /-- Somebody else has opened the account, which is about to be read. -/
  | rereading
  | finished (result : Except TradeError User)
deriving Repr

/-- The opening of an account that may exist already. -/
structure AccountOpening where
  identity : Identity
  startingCash : Amount
  symbols : List String
  phase : AccountOpening.Phase
deriving Repr

namespace AccountOpening

/-- The opening of the account of an identity. -/
def start (config : TradingConfig) (identity : Identity) : AccountOpening :=
  { identity, startingCash := config.startingCash, symbols := config.supportedSymbols,
    phase := .looking }

/-- The same opening in another phase. -/
def enter (x : AccountOpening) (p : Phase) : AccountOpening := { x with phase := p }

/-- The opening given up with an error. -/
def fail (x : AccountOpening) (e : TradeError) : AccountOpening := x.enter (.finished (.error e))

/-- The account as it is opened at a time. -/
def account (x : AccountOpening) (time : Timestamp) : User :=
  .opened x.identity.key x.identity.displayName x.identity.profileUrl time
    (.seeded x.startingCash x.symbols)

/-- The snapshot written beside a new account. -/
def firstSnapshot (x : AccountOpening) (u : User) : Snapshot :=
  ⟨u.createdAt.startOfHour, x.startingCash⟩

/-- The opening after the first look. -/
def looked (x : AccountOpening) : Except StoreError (Option (Versioned User)) → AccountOpening
  | .ok (some v) => x.enter (.finished (.ok v.value))
  | .ok none => x.enter .timing
  | .error e => x.fail (.ofStore e)

/-- The opening after the account was to be created. -/
def created (x : AccountOpening) : Except StoreError (Versioned User) → AccountOpening
  | .ok v => x.enter (.recording v.value)
  | .error (.alreadyExists _) => x.enter .rereading
  | .error e => x.fail (.ofStore e)

/-- The opening after the account of somebody else was read. -/
def reread (x : AccountOpening) : Except StoreError (Option (Versioned User)) → AccountOpening
  | .ok (some v) => x.enter (.finished (.ok v.value))
  | .ok none => x.fail (.internal ("account " ++ x.identity.key ++ " vanished"))
  | .error e => x.fail (.ofStore e)

/-- What an opening does next. -/
def next (x : AccountOpening) : Progress κ AccountOpening (Except TradeError User) :=
  match x.phase with
  | .looking => .calling (.readUser x.identity.key) none x.looked
  | .timing => .reading (fun m => x.enter (.creating (x.account m.time)))
  | .creating u => .calling (.createUser u) none x.created
  -- The account is there, with or without its first snapshot.
  | .recording u =>
    .calling (.putSnapshot x.identity.key (x.firstSnapshot u)) none
      (fun _ => x.enter (.finished (.ok u)))
  | .rereading => .calling (.readUser x.identity.key) none x.reread
  | .finished r => .finished r

end AccountOpening

/-- The reading of a portfolio. -/
inductive PortfolioReading where
  | reading (user : String)
  | finished (result : Except TradeError Portfolio)
deriving Repr

namespace PortfolioReading

/-- The portfolio in what was read. -/
def result (user : String) :
    Except StoreError (Option (Versioned User)) → Except TradeError Portfolio
  | .ok (some v) => .ok v.value.portfolio
  | .ok none => .error (.validation ("no account for " ++ user))
  | .error e => .error (.ofStore e)

/-- What the reading does next. -/
def next : PortfolioReading → Progress κ PortfolioReading (Except TradeError Portfolio)
  | reading user => .calling (.readUser user) none (fun r => .finished (result user r))
  | finished r => .finished r

end PortfolioReading

/-- The reading of a trade history. -/
inductive HistoryReading where
  /-- It is about to look into the cache. -/
  | looking (user : String)
  /-- It is about to read the log; with the generation of a miss, unless the cache failed. -/
  | listing (user : String) (generation : Option Nat)
  /-- It is about to save what it read. -/
  | saving (user : String) (generation : Nat) (trades : List TradeRecord)
  | finished (result : Except TradeError (List TradeRecord))
deriving Repr

namespace HistoryReading

/-- The reading after the look into the cache. -/
def looked (user : String) : Except StoreError HistoryLookup → HistoryReading
  | .ok (.hit trades) => .finished (.ok trades)
  | .ok (.miss generation) => .listing user (some generation)
  | .error _ => .listing user none

/-- The reading after the log was read. -/
def listed (user : String) (generation : Option Nat) :
    Except StoreError (List TradeRecord) → HistoryReading
  | .error e => .finished (.error (.ofStore e))
  | .ok trades =>
    match generation with
    | some g => .saving user g trades
    | none => .finished (.ok trades)

/-- What the reading does next. -/
def next : HistoryReading → Progress κ HistoryReading (Except TradeError (List TradeRecord))
  | looking user => .calling (.lookUpHistory user) none (looked user)
  | listing user generation => .calling (.listTrades user) none (listed user generation)
  | saving user generation trades =>
    .calling (.saveHistory user generation trades) none (fun _ => .finished (.ok trades))
  | finished r => .finished r

end HistoryReading

/-- The reading of the snapshots. -/
inductive SnapshotReading where
  | reading (user : String)
  | finished (result : Except TradeError (List Snapshot))
deriving Repr

namespace SnapshotReading

/-- The snapshots in what was read. -/
def result : Except StoreError (List Snapshot) → Except TradeError (List Snapshot)
  | .ok l => .ok l
  | .error e => .error (.ofStore e)

/-- What the reading does next. -/
def next : SnapshotReading → Progress κ SnapshotReading (Except TradeError (List Snapshot))
  | reading user => .calling (.listSnapshots user) none (fun r => .finished (result r))
  | finished r => .finished r

end SnapshotReading

end Bourse
