import Bourse.Account
import Bourse.QuoteCache
import Bourse.Ledger.Fault
import Bourse.Time.Virtual
import Bourse.Trading.Execution
import Bourse.Valuation.Job

/-!
# Tasks

A task is an operation under way together with what it waits for. Its steps are
those of the operation; each is atomic, and between two of them any other task may
take steps.

## Main definitions

* `Operation`: the operations of the ledger.
* `Outcome`: their results.
* `Surroundings`: what tasks see beside the books.
* `Task`: an operation and what it waits for.
* `Task.step?`: the next step of a task, where it can take one.
-/

namespace Bourse

/-- The operations of the ledger. -/
inductive Operation where
  | execution (x : Execution)
  | opening (x : AccountOpening)
  | portfolio (x : PortfolioReading)
  | history (x : HistoryReading)
  | snapshots (x : SnapshotReading)
  | valuation (x : ValuationRun)
  | userValuation (x : UserValuation)
  | job (x : ValuationJob)

/-- The results of the operations. -/
inductive Outcome where
  | execution (result : Except TradeError TradeOutcome)
  | opening (result : Except TradeError User)
  | portfolio (result : Except TradeError Portfolio)
  | history (result : Except TradeError (List TradeRecord))
  | snapshots (result : Except TradeError (List Snapshot))
  | valuation (result : Except TradeError ValuationReport)
  | userValuation (result : Except TradeError Nat)
  | job

namespace Operation

/-- What an operation does next. -/
def next : Operation → Progress UserValuation Operation Outcome
  | execution x => x.next.map .execution .execution
  | opening x => x.next.map .opening .opening
  | portfolio x => x.next.map .portfolio .portfolio
  | history x => x.next.map .history .history
  | snapshots x => x.next.map .snapshots .snapshots
  | valuation x => x.next.map .valuation .valuation
  | userValuation x => x.next.map .userValuation .userValuation
  | job x => x.next.map .job (fun _ => .job)

/-- An operation after a valuation that it started has ended. -/
def ended (removed : Option Nat) : Operation → Operation
  | valuation x => .valuation (x.ended removed)
  | job x => .job (x.ended removed)
  | x => x

/-- Whether an operation heeds the stop signal where it is; only the job ever does. -/
def heeds : Operation → Bool
  | job x => x.heeds
  | _ => false

end Operation

/-- The snapshots that a valuation removed, unless it failed. -/
def Outcome.removed : Outcome → Option Nat
  | userValuation (.ok n) => some n
  | _ => none

/-- What tasks see beside the books. -/
structure Surroundings where
  moment : Moment
  quotes : QuoteCache

/-- What a task waits for. -/
inductive Hold where
  /-- Nothing; its next step has not begun. -/
  | free
  /-- A time, after which its call is made. -/
  | delayed (due : Nat)
  /-- Something that never comes. -/
  | stalled
  /-- The release of the answer to its call, after which it goes on from another state. -/
  | withheld (method : Method) (next : Operation)
  /-- A price. -/
  | reader (r : QuoteReader)

/-- An operation and what it waits for. -/
structure Task where
  id : Nat
  /-- The task that started this one. -/
  parent : Option Nat
  operation : Operation
  hold : Hold

/-- What all tasks share: the books, and how calls on them go. -/
structure Shared where
  books : Books
  faults : List Fault
  /-- Methods of which the next answer withheld is released at once. -/
  released : List Method

/-- What becomes of a task in a step. -/
inductive Stepped where
  | went (task : Task)
  /-- It has started another operation. -/
  | started (task : Task) (child : UserValuation)
  /-- It has given up those it had started. -/
  | abandoned (task : Task)
  /-- It has ended, with a result unless it broke off. -/
  | ended (outcome : Option Outcome)

namespace Task

/-- The task in another state, waiting for nothing. -/
def goOn (t : Task) (x : Operation) : Stepped := .went { t with operation := x, hold := .free }

/-- The task waiting for something. -/
def wait (t : Task) (h : Hold) : Stepped := .went { t with hold := h }

/-- The task after the deadline of what it waits for, if that has passed. -/
def late? (t : Task) (now : Nat) (deadline : Deadline Operation) : Option Stepped :=
  match deadline with
  | some (due, x) => if due ≤ now then some (t.goOn x) else none
  | none => none

/-- A wait for a price begins, or what a fault makes of it. -/
def beginPricing (t : Task) (env : Surroundings) (d : Shared) (symbol : String) (maxAge : Nat)
    (resume : Except QuoteError Amount → Operation) : Stepped × Shared :=
  let (fault, faults) := Fault.take .price symbol d.faults
  let d := { d with faults }
  match fault with
  | some (.unpriced e) => (t.goOn (resume (.error (e symbol))), d)
  | some .crashing => (.ended none, d)
  | some .stalling => (t.wait .stalled, d)
  | some (.delaying ms) => (t.wait (.delayed (env.moment.now + ms)), d)
  | _ => (t.wait (.reader (.start env.quotes symbol maxAge)), d)

/-- The answer to a call, which the task goes on with. -/
def makeCall (t : Task) (env : Surroundings) (d : Shared) (c : Call)
    (resume : Except StoreError c.Result → Operation) : Stepped × Shared :=
  let (r, books) := c.perform d.books env.moment.now
  (t.goOn (resume r), { d with books })

/-- A call is made, or what a fault makes of it. -/
def beginCall (t : Task) (env : Surroundings) (d : Shared) (c : Call)
    (resume : Except StoreError c.Result → Operation) : Stepped × Shared :=
  let (fault, faults) := Fault.take c.method c.subject d.faults
  let d := { d with faults }
  match fault with
  | some (.failing e) => (t.goOn (resume (.error (e c.subject))), d)
  | some .crashing => (.ended none, d)
  | some .stalling => (t.wait .stalled, d)
  | some (.delaying ms) => (t.wait (.delayed (env.moment.now + ms)), d)
  -- The call is made, and only its answer is kept back.
  | some .holding =>
    let (r, books) := c.perform d.books env.moment.now
    (t.wait (.withheld c.method (resume r)), { d with books })
  -- Somebody else comes first, and the call finds what they left.
  | some .racing => t.makeCall env { d with books := c.preempt d.books } c resume
  | _ => t.makeCall env d c resume

/-- The next step of a task that waits for nothing. -/
def begin? (t : Task) (env : Surroundings) (d : Shared) : Option (Stepped × Shared) :=
  match t.operation.next with
  | .finished r => some (.ended (some r), d)
  | .crashing => some (.ended none, d)
  | .reading resume => some (t.goOn (resume env.moment), d)
  | .pricing symbol maxAge _ resume => some (t.beginPricing env d symbol maxAge resume)
  | .calling c _ resume => some (t.beginCall env d c resume)
  | .sleeping due x => if due ≤ env.moment.now then some (t.goOn x, d) else none
  | .starting child x => some (.started { t with operation := x } child, d)
  | .joining => none
  | .abandoning x => some (.abandoned { t with operation := x }, d)

/-- What a task that was delayed does in the end. -/
def resume (t : Task) (env : Surroundings) (d : Shared) : Stepped × Shared :=
  match t.operation.next with
  | .pricing symbol maxAge _ _ => (t.wait (.reader (.start env.quotes symbol maxAge)), d)
  | .calling c _ resume => t.makeCall env d c resume
  | _ => (t.wait .free, d)

/-- The step of a task that waits for a price. -/
def read? (t : Task) (env : Surroundings) (r : QuoteReader) : Option Stepped :=
  match r.result? with
  | some result =>
    match t.operation.next with
    | .pricing _ _ _ resume => some (t.goOn (resume result))
    | _ => some (t.wait .free)
  | none => (r.step env.quotes env.moment.now false).map (fun r => t.wait (.reader r))

/-- The deadline of what a task waits for. -/
def deadline (t : Task) : Deadline Operation :=
  match t.operation.next with
  | .pricing _ _ d _ => d
  | .calling _ d _ => d
  | _ => none

/-- The next step of a task, where it can take one. What it waits for is looked at before its
deadline. -/
def step? (t : Task) (env : Surroundings) (d : Shared) : Option (Stepped × Shared) :=
  let late := (t.late? env.moment.now t.deadline).map (·, d)
  match t.hold with
  | .free => t.begin? env d
  | .delayed due => if due ≤ env.moment.now then some (t.resume env d) else late
  | .stalled => late
  | .withheld m x =>
    if d.released.contains m then some (t.goOn x, { d with released := d.released.erase m })
    else late
  | .reader r => ((t.read? env r).map (·, d)) <|> late

/-- When a task goes on by itself. -/
def due? (t : Task) : Option Nat :=
  let own := match t.hold with
    | .delayed due => some due
    | _ => none
  earlier own t.operation.next.due?

end Task

end Bourse
