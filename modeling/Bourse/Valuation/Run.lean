import Bourse.Config
import Bourse.Ledger.Progress

/-!
# Valuation Runs

A run values every user at the start of the current hour. It first gets a price for
each symbol, each within a deadline. Then it goes through the users page by page and
starts a valuation for each, so many at a time. A valuation writes the user's
snapshot of the hour, in place of one written earlier in it, and removes the
snapshots that are too old.

A run fails as a whole if a price or a page cannot be had, and then gives up the
valuations still under way. The failure of a single valuation is only counted.

## Main definitions

* `UserValuation`: the valuation of one user.
* `ValuationRun`: a run under way.
* `ValuationRun.next`: what it does next.
* `ValuationReport`: how a run went.
-/

namespace Bourse

/-- How far the valuation of one user has got. -/
inductive UserValuation.Phase where
  | writing (value : Amount)
  | sweeping
  | finished (result : Except TradeError Nat)
deriving Repr

/-- The valuation of one user. -/
structure UserValuation where
  user : String
  /-- The hour of the snapshot. -/
  hour : Timestamp
  /-- Earlier snapshots are removed. -/
  cutoff : Timestamp
  phase : UserValuation.Phase
deriving Repr

namespace UserValuation

/-- The valuation of a user at some prices. -/
def start (u : User) (prices : Table String Amount) (hour cutoff : Timestamp) : UserValuation :=
  { user := u.id, hour, cutoff
    phase := match u.portfolio.valuation prices with
      | .ok value => .writing value
      | .error e => .finished (.error (.ofAmount e)) }

/-- The same valuation in another phase. -/
def enter (x : UserValuation) (p : Phase) : UserValuation := { x with phase := p }

/-- The valuation after the snapshot was written. -/
def written (x : UserValuation) : Except StoreError Unit → UserValuation
  | .ok () => x.enter .sweeping
  | .error e => x.enter (.finished (.error (.ofStore e)))

/-- The valuation after the old snapshots were removed. -/
def swept (x : UserValuation) : Except StoreError Nat → UserValuation
  | .ok n => x.enter (.finished (.ok n))
  | .error e => x.enter (.finished (.error (.ofStore e)))

/-- What a valuation does next; the result is the number of snapshots removed. -/
def next (x : UserValuation) : Progress κ UserValuation (Except TradeError Nat) :=
  match x.phase with
  | .writing value => .calling (.putSnapshot x.user ⟨x.hour, value⟩) none x.written
  | .sweeping => .calling (.deleteSnapshots x.user x.cutoff) none x.swept
  | .finished r => .finished r

end UserValuation

/-- How a run went. -/
structure ValuationReport where
  valued : Nat
  failed : Nat
  /-- Snapshots removed. -/
  pruned : Nat
deriving DecidableEq, Repr

namespace ValuationReport

/-- The report before the first valuation. -/
def empty : ValuationReport := ⟨0, 0, 0⟩

/-- The report after one more valuation, which removed some snapshots or failed. -/
def record (r : ValuationReport) : Option Nat → ValuationReport
  | some n => { r with valued := r.valued + 1, pruned := r.pruned + n }
  | none => { r with failed := r.failed + 1 }

end ValuationReport

/-- How far a run has got. -/
inductive ValuationRun.Phase where
  /-- It is about to ask for the price of the first of some symbols. -/
  | asking (missing : List String)
  /-- It waits for the price of a symbol. -/
  | pricing (symbol : String) (due : Nat) (missing : List String)
  /-- It goes through a page; past it there may be more, from some cursor on. -/
  | visiting (page : List User) (more : Option String)
  | finished (result : Except TradeError ValuationReport)
  /-- It cannot be run at all. -/
  | broken
deriving Repr

/-- A valuation run under way. -/
structure ValuationRun where
  config : ValuationConfig
  hour : Timestamp
  cutoff : Timestamp
  prices : Table String Amount
  /-- Valuations under way. -/
  running : Nat
  report : ValuationReport
  phase : ValuationRun.Phase
deriving Repr

namespace ValuationRun

/-- The age past which snapshots are removed, counted back from an hour. -/
def cutoff? (config : ValuationConfig) (hour : Timestamp) : Option Timestamp :=
  config.maxHistoryMs?.bind (fun ms => hour.shift? (-(ms * 1000000)))

/-- A run at some time. It cannot be run if there is no time to remove snapshots before. -/
def start (config : ValuationConfig) (symbols : List String) (time : Timestamp) : ValuationRun :=
  let hour := time.startOfHour
  let cutoff := cutoff? config hour
  { config, hour, cutoff := cutoff.getD hour, prices := .empty, running := 0, report := .empty,
    phase := if cutoff.isSome then .asking symbols else .broken }

/-- The same run in another phase. -/
def enter (x : ValuationRun) (p : Phase) : ValuationRun := { x with phase := p }

/-- The run given up with an error. -/
def fail (x : ValuationRun) (e : TradeError) : ValuationRun := x.enter (.finished (.error e))

/-- Users fetched at a time. -/
def pageSize (x : ValuationRun) : Nat := max x.config.pageSize 1

/-- Users valued at a time. -/
def parallelism (x : ValuationRun) : Nat := max x.config.parallelism 1

/-- The run after the price of a symbol came, or the error in its place. -/
def priced (x : ValuationRun) (symbol : String) (missing : List String) :
    Except QuoteError Amount → ValuationRun
  | .ok price => { x with prices := x.prices.insert symbol price, phase := .asking missing }
  | .error e => x.fail (.ofQuote e)

/-- The run after a page was fetched; a full page is followed by another. -/
def listed (x : ValuationRun) : Except StoreError (List User) → ValuationRun
  | .error e => x.fail (.ofStore e)
  | .ok page =>
    x.enter (.visiting page
      (if page.length = x.pageSize then (page.getLast?).map (·.id) else none))

/-- The run after a valuation has ended, with the number of snapshots removed unless it failed. -/
def ended (x : ValuationRun) (removed : Option Nat) : ValuationRun :=
  { x with running := x.running - 1, report := x.report.record removed }

/-- Fetches the users past a cursor. -/
def list (x : ValuationRun) (after : Option String) :
    Progress UserValuation ValuationRun (Except TradeError ValuationReport) :=
  .calling (.listUsers after x.pageSize) none x.listed

/-- The largest number of users that can be valued at a time, which has 61 bits. -/
def largestParallelism : Nat := 2305843009213693951

/-- What a run does next. -/
def next (x : ValuationRun) :
    Progress UserValuation ValuationRun (Except TradeError ValuationReport) :=
  match x.phase with
  | .asking [] => if x.parallelism ≤ largestParallelism then x.list none else .crashing
  | .asking (symbol :: missing) =>
    .reading (fun m => x.enter (.pricing symbol (m.now + x.config.quoteDeadlineMs) missing))
  | .pricing symbol due missing =>
    .pricing symbol x.config.maxQuoteAgeMs
      (some (due, x.fail (.unavailable ("no fresh " ++ symbol ++ " quote for valuation"))))
      (x.priced symbol missing)
  | .visiting (u :: page) more =>
    if x.running < x.parallelism then
      .starting (.start u x.prices x.hour x.cutoff)
        { x with running := x.running + 1, phase := .visiting page more }
    else .joining
  | .visiting [] (some last) => x.list (some last)
  | .visiting [] none => if x.running = 0 then .finished (.ok x.report) else .joining
  | .finished r => .finished r
  | .broken => .crashing

end ValuationRun

end Bourse
