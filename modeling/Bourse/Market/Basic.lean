import Bourse.Bus
import Bourse.Ingestor.Intake
import Bourse.QuoteCache

/-!
# The Market

The market shares one stream of quotes among all who want it. Each *line* is an
ingestor and the bus that its quotes are dispatched to. The first subscriber has a
line opened; later ones join it while its bus is open. When the last one leaves, the
bus closes and the ingestor is told to stop, and the next subscriber has another
line opened. So a line is in use only while somebody listens.

Subscribing is done in turns. A subscriber who has to open a line keeps the turn
while the attempt to connect takes its time, and the others wait behind; nobody
opens a second line meanwhile. The line is there before its first subscriber is: what
its ingestor brings until then goes to nobody.

The quotes of some subscriptions are entered into the quote cache as they come.

## Main definitions

* `Market`: the lines, the turns and the cache.
* `Market.request`: asks for a subscription; `Market.grant?` is the answer.
* `Market.step?`: one step of anything that can take one.
* `Market.leave`: gives a subscription up.
* `Market.isActive`, `count`: what is shown of the line in use.
-/

namespace Bourse

/-- A subscription, by its line and its number on the bus. -/
structure Seat where
  line : Nat
  id : Nat
deriving DecidableEq, Repr

/-- The bus in front of the ingestor of the same number. -/
structure Line where
  bus : Bus
  /-- Whether somebody takes quotes from the ingestor to the bus. -/
  dispatching : Bool
deriving DecidableEq, Repr

/-- The answer to a request for a subscription. -/
inductive Grant where
  | seated (seat : Seat)
  | failed (error : FeedError)
  /-- A buffer was asked for that nobody can make. -/
  | crashed
deriving DecidableEq, Repr

/-- An attempt to open a line for one of the requests. -/
structure LineAttempt where
  ticket : Nat
  /-- When the attempt to connect ends. -/
  due : Nat
  /-- The line, once there is a connection. -/
  line : Option Nat
deriving DecidableEq, Repr

/-- One stream of quotes, shared. -/
structure Market where
  intake : Intake
  /-- The room in front of each subscriber. -/
  capacity : Nat
  /-- The line of each ingestor. -/
  lines : List Line
  /-- The line that was opened last. -/
  current : Option Nat
  /-- The attempt under way, whose subscriber has the turn. -/
  attempt : Option LineAttempt
  /-- The requests that wait for their turn, first come first. -/
  waiting : List Nat
  /-- The answers, by request. -/
  grants : Table Nat Grant
  /-- The number of requests so far. -/
  requests : Nat
  cache : QuoteCache
  /-- The subscriptions whose quotes go to the cache. -/
  feeders : List Seat
deriving DecidableEq, Repr

namespace Market

/-- A market before the first subscriber. -/
def create (settings : IngestorSettings) (feed : StagedFeed) (capacity : Nat) : Market :=
  { intake := .create settings feed, capacity, lines := [], current := none, attempt := none,
    waiting := [], grants := .empty, requests := 0, cache := .empty, feeders := [] }

/-- The time. -/
def now (m : Market) : Nat := m.intake.now

/-- Tells the ingestor of a line to stop. -/
def stopIngestor (m : Market) (i : Nat) : Market :=
  { m with intake := m.intake.change i (fun w => { w with stopped := true }) }

/-- Changes the bus of a line; one that is closed by it tells its ingestor to stop. -/
def changeBus (m : Market) (i : Nat) (f : Bus → Bus) : Market :=
  let m := { m with lines := m.lines.modify i (fun l => { l with bus := f l.bus }) }
  if ((m.lines[i]?).map (·.bus.closed)).getD false then m.stopIngestor i else m

/-- Gives a subscription up. -/
def leave (m : Market) (s : Seat) : Market := m.changeBus s.line (·.drop s.id)

/-- Ends the dispatch of a line, which leaves its ingestor without a consumer. -/
def endDispatch (m : Market) (i : Nat) : Market :=
  { m with
    lines := m.lines.modify i (fun l => { l with dispatching := false })
    intake := m.intake.change i (fun w => { w with consumed := false }) }

/-- Gives up a line that nobody is on: its dispatch ends, and its ingestor is told to stop. -/
def giveUp (m : Market) (i : Nat) : Market :=
  { m with
    lines := m.lines.modify i (fun l => { l with dispatching := false })
    intake := m.intake.change i (fun w => { w with stopped := true, consumed := false }) }

/-- A step of the dispatch of a line: it ends at a closed bus, takes a quote to the bus, or closes
the bus at the end of the quotes. -/
def dispatchAt? (m : Market) (i : Nat) : Option Market := do
  let l ← m.lines[i]?
  if !l.dispatching then none
  else if l.bus.closed then some (m.endDispatch i)
  else match m.intake.receive i with
    | (.item q, intake) => some ({ m with intake }.changeBus i (·.publish q))
    | (.ended, _) => some ((m.changeBus i (·.close)).endDispatch i)
    | (.pending, _) => none

/-- A step of the dispatch of the first line that can take one. -/
def dispatch? (m : Market) : Option Market :=
  (List.range m.lines.length).findSome? m.dispatchAt?

/-- Takes the next quote of a subscription. -/
def receive (m : Market) (s : Seat) : Received Quote × Market :=
  match m.lines[s.line]? with
  | none => (.ended, m)
  | some l =>
    let (r, bus) := l.bus.receive s.id
    (r, { m with lines := m.lines.set s.line { l with bus } })

/-- Takes the quotes of a subscription to the cache from now on. -/
def addFeeder (m : Market) (s : Seat) : Market := { m with feeders := m.feeders ++ [s] }

/-- Gives up a subscription whose quotes go to the cache. -/
def removeFeeder (m : Market) (s : Seat) : Market :=
  { m with feeders := m.feeders.filter (· ≠ s) }.leave s

/-- Takes the next quote of a subscription to the cache, or gives up one that has ended. -/
def feed? (m : Market) (s : Seat) : Option Market :=
  match m.receive s with
  | (.item q, m) => some { m with cache := m.cache.update m.now q }
  | (.ended, m) => some (m.removeFeeder s)
  | (.pending, _) => none

/-- Asks for a subscription: the number of the request. -/
def request (m : Market) : Nat × Market :=
  (m.requests, { m with waiting := m.waiting ++ [m.requests], requests := m.requests + 1 })

/-- Answers a request. -/
def answer (m : Market) (ticket : Nat) (g : Grant) : Market :=
  { m with grants := m.grants.insert ticket g }

/-- Joins the bus of a line, where it is open. -/
def join? (m : Market) (i : Nat) : Option (Grant × Market) := do
  let (id, bus) ← (← m.lines[i]?).bus.subscribe
  some
    (if bus.hasBuffers then .seated ⟨i, id⟩ else .crashed,
      m.changeBus i (fun _ => bus))

/-- Joins the line in use, if there is one. -/
def joinCurrent? (m : Market) : Option (Grant × Market) := m.current.bind m.join?

/-- Gives the turn to the next request: it joins the line in use or begins to open one. -/
def nextTurn? (m : Market) : Option Market :=
  match m.attempt, m.waiting with
  | none, ticket :: waiting =>
    let m := { m with waiting }
    match m.joinCurrent? with
    | some (g, m) => some (m.answer ticket g)
    | none =>
      if m.intake.settings.symbols.isEmpty then some (m.answer ticket (.failed .noSymbols))
      else some { m with attempt := some ⟨ticket, m.now + m.intake.feed.delay, none⟩ }
  | _, _ => none

/-- Ends the attempt to connect once it is due. With a connection there is a line, and nobody on it
yet. -/
def endAttempt? (m : Market) : Option Market := do
  let a ← m.attempt
  if a.line.isNone && a.due ≤ m.now then
    let (r, intake) := m.intake.attempt false
    let m := { m with intake }
    match r with
    | .opened i => some { m with
        lines := m.lines ++ [Line.mk (.create m.capacity) true]
        attempt := some { a with line := some i } }
    | .failed e => some ({ m with attempt := none }.answer a.ticket (.failed e))
    | .crashed => some ({ m with attempt := none }.answer a.ticket .crashed)
  else none

/-- Seats the first subscriber of a line, which is in use from then on. A line whose subscriber cannot
be seated is given up. -/
def takeSeat? (m : Market) : Option Market := do
  let a ← m.attempt
  let i ← a.line
  let m := { m with attempt := none }
  match m.join? i with
  | some (.seated s, m) => some ({ m with current := some i }.answer a.ticket (.seated s))
  | some _ => some ((m.giveUp i).answer a.ticket .crashed)
  | none =>
    some (m.answer a.ticket (.failed (.connect "upstream closed before first subscriber")))

/-- One step of anything that can take one. -/
def step? (m : Market) : Option Market :=
  -- Here whoever has a line opened is on it before the first quote comes.
  m.takeSeat?
    -- Quotes come before requests, so who joins misses what was on its way.
    <|> (m.intake.step?.map (fun intake => { m with intake }))
    <|> m.dispatch?
    <|> m.feeders.findSome? m.feed?
    <|> m.endAttempt?
    <|> m.nextTurn?

/-- The market after at most `fuel` steps. -/
def run : (fuel : Nat) → Market → Market
  | 0, m => m
  | fuel + 1, m =>
    match m.step? with
    | some m => run fuel m
    | none => m

/-- The quotes and ticks that are somewhere on their way. -/
def underWay (m : Market) : Nat :=
  m.intake.feed.underWay + (m.intake.ingestors.map (·.output.length)).foldl (· + ·) 0
    + (m.feeders.map (fun s => ((m.lines[s.line]?).map (·.bus.buffered s.id)).getD 0)).foldl
      (· + ·) 0

/-- More steps than can be taken before time has to pass. -/
def enough (m : Market) : Nat :=
  (m.underWay + 1) * (m.feeders.length + 4) + m.intake.enough + 4 * m.lines.length
    + 4 * m.waiting.length + 8

/-- The market after all steps that need no time. -/
def settle (m : Market) : Market := run m.enough m

/-- When something is due next. -/
def next? (m : Market) : Option Nat :=
  earlier m.intake.next? (m.attempt.map (·.due))

/-- The market at another time. -/
def moved (t : Nat) (m : Market) : Market := { m with intake := { m.intake with now := t } }

/-- The market in virtual time. -/
def virtual : Virtual Market := ⟨now, settle, next?, moved⟩

/-- The answer to a request, once there is one. -/
def grant? (m : Market) (ticket : Nat) : Option Grant := m.grants.get? ticket

/-- Longer than a request made now can take. -/
def longestTurn (m : Market) : Nat :=
  (m.waiting.length + 2) * (m.intake.feed.delay + 1)

/-- Asks for a subscription and waits for the answer. -/
def subscribe (m : Market) : Option Grant × Market :=
  let (ticket, m) := m.request
  let m := virtual.await (fun m => (m.grant? ticket).isSome) m.longestTurn m
  (m.grant? ticket, m)

/-- The bus of the line in use. -/
def currentBus? (m : Market) : Option Bus := m.current.bind (fun i => (m.lines[i]?).map (·.bus))

/-- Whether there is an open line. -/
def isActive (m : Market) : Bool := (m.currentBus?.map (fun b => !b.closed)).getD false

/-- The number of subscribers of the line in use. -/
def count (m : Market) : Nat := (m.currentBus?.map (·.count)).getD 0

/-- Asks for a price of less than some age; none if it does not come in time. -/
def ask (m : Market) (symbol : String) (maxAge timeout : Nat) :
    Option (Except QuoteError Amount) × Market :=
  let reader := QuoteReader.start m.cache symbol maxAge
  let found (m : Market) := (reader.settle m.cache m.now false).result?
  let m := virtual.await (fun m => (found m).isSome) timeout m
  (found m, m)

end Market

end Bourse
