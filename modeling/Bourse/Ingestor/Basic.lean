import Bourse.Feed.Staged
import Bourse.Stream

/-!
# Ingestors

An ingestor keeps a connection to the feed, decodes the ticks that come through it,
and puts the quotes into a buffer for one consumer. When the connection ends it
waits a while, connects again, and goes on doing so for as long as connecting fails.
It stops only if it is told to or if its consumer leaves.

```text
connecting ──► streaming ──► disconnected ──► connecting ──► ...
     │              │              │
     └──────────────┴──────────────┴──► terminated
```

A quote that finds the buffer full is held back until the consumer has taken
another, and the ticks behind it wait in the connection.

## Main definitions

* `Ingestor`: the phase, the buffer, the counters, and who is still interested.
* `Ingestor.step?`: the next step, where one can be taken.
* `Ingestor.due?`: when an ingestor that waits goes on.
* `IngestorState`: the state that is shown.
-/

namespace Bourse

/-- The state that an ingestor shows. -/
inductive IngestorState where
  | disconnected
  | connecting
  | streaming
  /-- The ingestor has stopped for good. -/
  | terminated
deriving DecidableEq, Repr

/-- The counters of an ingestor. -/
structure IngestorStats where
  /-- Attempts that made a connection. -/
  connects : Nat
  /-- Attempts that failed. -/
  failed : Nat
  /-- Connections that ended. -/
  disconnects : Nat
  /-- Quotes put into the buffer. -/
  quotes : Nat
  /-- Ticks dropped. -/
  rejected : Nat
deriving DecidableEq, Repr

/-- What an ingestor is busy with. -/
inductive Ingestor.Phase where
  /-- Taking ticks from a connection. -/
  | streaming (connection : Nat)
  /-- Waiting for room for a quote from a connection. -/
  | sending (connection : Nat) (quote : Quote)
  /-- Waiting to connect again. -/
  | waiting (due : Nat)
  /-- An attempt to connect is under way. -/
  | connecting (due : Nat)
  | terminated
deriving DecidableEq, Repr

/-- One ingestor and the buffer in front of its consumer. -/
structure Ingestor where
  phase : Ingestor.Phase
  /-- The quotes not yet taken, oldest first. -/
  output : List Quote
  stats : IngestorStats
  /-- Whether the ingestor has been told to stop. -/
  stopped : Bool
  /-- Whether there is a consumer. -/
  consumed : Bool
deriving DecidableEq, Repr

/-- What an ingestor works by. -/
structure IngestorSettings where
  symbols : List String
  /-- The pause before an attempt to connect again. -/
  backoff : Nat
  /-- Quotes held in front of the consumer. -/
  buffer : Nat
deriving DecidableEq, Repr

namespace IngestorSettings

/-- The pause if nothing else is said. -/
def standardBackoff : Nat := 100

/-- The room in the buffer if nothing else is said. -/
def standardBuffer : Nat := 256

end IngestorSettings

namespace Ingestor

/-- An ingestor that has just made its first connection. -/
def start (connection : Nat) (stopped : Bool) : Ingestor :=
  { phase := .streaming connection, output := [], stats := ⟨1, 0, 0, 0, 0⟩, stopped,
    consumed := true }

/-- The state of an ingestor. -/
def state (w : Ingestor) : IngestorState :=
  match w.phase with
  | .streaming _ | .sending .. => .streaming
  | .waiting _ => .disconnected
  | .connecting _ => .connecting
  | .terminated => .terminated

/-- Whether nobody wants the ingestor to go on. -/
def isUnwanted (w : Ingestor) : Bool := w.stopped || !w.consumed

/-- The connection that an ingestor has. -/
def connection? (w : Ingestor) : Option Nat :=
  match w.phase with
  | .streaming c | .sending c _ => some c
  | _ => none

/-- An ingestor and its feed after a step, and the warning given in it. -/
structure Moved where
  ingestor : Ingestor
  feed : StagedFeed
  warning : Option String
deriving DecidableEq, Repr

/-- The end of an ingestor, which lets go of its connection. -/
def terminate (w : Ingestor) (f : StagedFeed) : Moved :=
  let f := match w.connection? with
    | some c => f.release c
    | none => f
  ⟨{ w with phase := .terminated }, f, none⟩

/-- Takes the next tick of a connection: a quote goes on to the buffer, anything else is counted
and dropped. -/
def takeTick (w : Ingestor) (symbols : List String) (f : StagedFeed) (c : Nat) (t : RawTick) :
    Moved :=
  let f := f.take c
  match t.decode symbols with
  | .ok q => ⟨{ w with phase := .sending c q }, f, none⟩
  | .error e =>
    ⟨{ w with stats := { w.stats with rejected := w.stats.rejected + 1 } }, f,
      some (e.warning StagedFeed.name)⟩

/-- The end of a connection. -/
def disconnect (w : Ingestor) (backoff now : Nat) (f : StagedFeed) (c : Nat) : Moved :=
  ⟨{ w with
      phase := .waiting (now + backoff)
      stats := { w.stats with disconnects := w.stats.disconnects + 1 } },
    f.release c, none⟩

/-- The end of an attempt to connect. -/
def reconnect (w : Ingestor) (backoff now : Nat) (f : StagedFeed) : Moved :=
  match f.connect with
  | (.ok c, f) =>
    ⟨{ w with
        phase := .streaming c
        stats := { w.stats with connects := w.stats.connects + 1 } }, f, none⟩
  | (.error _, f) =>
    ⟨{ w with
        phase := .waiting (now + backoff)
        stats := { w.stats with failed := w.stats.failed + 1 } }, f, none⟩

/-- The next step of an ingestor, where one can be taken. Whether anybody wants it to go on is
looked at first; a full buffer and an attempt under way are left as soon as it is told to stop, and
only the attempt goes on for a consumer who has left. -/
def step? (s : IngestorSettings) (now : Nat) (f : StagedFeed) (w : Ingestor) : Option Moved :=
  match w.phase with
  | .streaming c =>
    if w.isUnwanted then some (w.terminate f)
    else match f.peek? c with
      | some t => some (w.takeTick s.symbols f c t)
      | none => if f.isOver c then some (w.disconnect s.backoff now f c) else none
  | .sending c q =>
    if w.isUnwanted then some (w.terminate f)
    else if w.output.length < s.buffer then
      some
        ⟨{ w with
            phase := .streaming c
            output := w.output ++ [q]
            stats := { w.stats with quotes := w.stats.quotes + 1 } }, f, none⟩
    else none
  | .waiting due =>
    if w.isUnwanted then some (w.terminate f)
    else if due ≤ now then some ⟨{ w with phase := .connecting (now + f.delay) }, f, none⟩
    else none
  | .connecting due =>
    if w.stopped then some (w.terminate f)
    else if due ≤ now then some (w.reconnect s.backoff now f)
    else none
  | .terminated => none

/-- When an ingestor that waits goes on. -/
def due? (w : Ingestor) : Option Nat :=
  match w.phase with
  | .waiting due | .connecting due => some due
  | _ => none

/-- Takes the next quote out of the buffer. -/
def receive (w : Ingestor) : Received Quote × Ingestor :=
  match w.output with
  | q :: rest => (.item q, { w with output := rest })
  | [] => (if w.phase = .terminated then .ended else .pending, w)

end Ingestor

end Bourse
