import Bourse.Ingestor.Basic
import Bourse.Time.Virtual

/-!
# The Intake

The intake is a staged feed, a clock and all ingestors ever started on the feed.
Opening makes a first connection and, if that works, starts an ingestor on it; only
this first attempt can fail for the one who opens.

## Main definitions

* `Intake`: the feed, the clock, the ingestors and the warnings.
* `Intake.step?`: one step of an ingestor.
* `Intake.settle`: all steps that need no time.
* `Intake.attempt`: the end of the first attempt.
* `Opening`: how an opening ends.
-/

namespace Bourse

/-- A feed, a clock and the ingestors on the feed. -/
structure Intake where
  settings : IngestorSettings
  feed : StagedFeed
  now : Nat
  ingestors : List Ingestor
  /-- The warnings given so far, oldest first. -/
  warnings : List String
deriving DecidableEq, Repr

/-- How an opening ends. -/
inductive Opening where
  /-- An ingestor was started, with this number. -/
  | opened (ingestor : Nat)
  | failed (error : FeedError)
  /-- A buffer was asked for that nobody can make. -/
  | crashed
deriving DecidableEq, Repr

namespace Intake

/-- An intake before the first opening. -/
def create (settings : IngestorSettings) (feed : StagedFeed) : Intake :=
  { settings, feed, now := 0, ingestors := [], warnings := [] }

/-- Changes one ingestor. -/
def change (m : Intake) (i : Nat) (f : Ingestor → Ingestor) : Intake :=
  { m with ingestors := m.ingestors.modify i f }

/-- The step of one ingestor. -/
def stepAt? (m : Intake) (i : Nat) : Option Intake := do
  let moved ← (← m.ingestors[i]?).step? m.settings m.now m.feed
  some
    { m with
      feed := moved.feed
      ingestors := m.ingestors.set i moved.ingestor
      warnings := m.warnings ++ moved.warning.toList }

/-- The step of the first ingestor that can take one. -/
def step? (m : Intake) : Option Intake :=
  (List.range m.ingestors.length).findSome? m.stepAt?

/-- The intake after at most `fuel` steps. -/
def run : (fuel : Nat) → Intake → Intake
  | 0, m => m
  | fuel + 1, m =>
    match m.step? with
    | some m => run fuel m
    | none => m

/-- More steps than the ingestors can take before time has to pass: a tick takes two, a failed
attempt takes two, and each ingestor has a few of its own. -/
def enough (m : Intake) : Nat :=
  2 * m.feed.underWay + 2 * m.feed.failures + 8 * m.ingestors.length

/-- The intake after all steps that need no time. -/
def settle (m : Intake) : Intake := run m.enough m

/-- When the next ingestor that waits goes on. -/
def next? (m : Intake) : Option Nat := earliest (m.ingestors.map (·.due?))

/-- The intake in virtual time. -/
def virtual : Virtual Intake where
  now := (·.now)
  settle := settle
  next? := next?
  moved t m := { m with now := t }

/-- The end of the first attempt of an opening. -/
def attempt (m : Intake) (stopped : Bool) : Opening × Intake :=
  if 0 < m.feed.failures || isBufferSize m.feed.buffer then
    match m.feed.connect with
    | (.error e, feed) => (.failed e, { m with feed })
    | (.ok c, feed) =>
      if isBufferSize m.settings.buffer then
        (.opened m.ingestors.length,
          { m with feed, ingestors := m.ingestors ++ [.start c stopped] })
      else (.crashed, { m with feed := feed.release c })
  else (.crashed, { m with feed := { m.feed with attempts := m.feed.attempts + 1 } })

/-- Opens: without symbols at once in vain, else by an attempt, which takes its time. -/
def openStream (m : Intake) (stopped : Bool) : Opening × Intake :=
  if m.settings.symbols.isEmpty then (.failed .noSymbols, m)
  else (virtual.wait m.feed.delay m).attempt stopped

/-- Takes the next quote of one ingestor. -/
def receive (m : Intake) (i : Nat) : Received Quote × Intake :=
  match m.ingestors[i]? with
  | none => (.ended, m)
  | some w =>
    let (r, w) := w.receive
    (r, { m with ingestors := m.ingestors.set i w })

end Intake

end Bourse
