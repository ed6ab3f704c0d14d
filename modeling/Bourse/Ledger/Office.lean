import Bourse.Ledger.Basic

/-!
# The Office

An office is a ledger in virtual time, with a quote cache, a calendar that is moved by
hand, and names for the tasks that run aside.

Whoever wants an operation done waits for its result, but not for ever: an operation
that nothing will finish is given up.

## Main definitions

* `Office`: the ledger, the clocks, the cache and the names.
* `Office.perform`: starts an operation and waits for its result.
* `Office.spawn`, `join`, `isDone?`, `cancel`: operations that run aside.
* `Office.startJob`, `stopJob`: the job of valuation runs.
-/

namespace Bourse

/-- A ledger in virtual time. -/
structure Office where
  ledger : Ledger
  moment : Moment
  quotes : QuoteCache
  /-- The tasks that run aside, by name. -/
  names : Table String Nat
  /-- The task of the valuation job. -/
  job : Option Nat

/-- What became of an operation that somebody waited for. -/
inductive Performed where
  | done (outcome : Outcome)
  /-- It broke off. -/
  | crashed
  /-- Nothing would have finished it. -/
  | stuck

namespace Office

/-- An office at the start of a time of day. -/
def create (ledger : Ledger) (time : Timestamp) : Office :=
  { ledger, moment := ⟨0, time⟩, quotes := .empty, names := .empty, job := none }

/-- What the tasks see. -/
def surroundings (o : Office) : Surroundings := ⟨o.moment, o.quotes⟩

/-- All that needs no time happens. -/
def settle (o : Office) : Office := { o with ledger := o.ledger.settle o.surroundings }

/-- The office at another time. -/
def moved (t : Nat) (o : Office) : Office := { o with moment := { o.moment with now := t } }

/-- The office in virtual time. -/
def virtual : Virtual Office := ⟨(·.moment.now), settle, (·.ledger.next?), moved⟩

/-- Time passes, and not the time of day. -/
def wait (o : Office) (ms : Nat) : Office := virtual.wait ms o

/-- Sets the time of day. -/
def setTime (o : Office) (time : Timestamp) : Office :=
  { o with moment := { o.moment with time } }

/-- Moves the time of day on or back, unless that leads past the end of time. -/
def advance? (o : Office) (ms : Int) : Option Office :=
  (o.moment.time.shift? (ms * 1000000)).map o.setTime

/-- A quote comes in. -/
def update (o : Office) (q : Quote) : Office :=
  { o with quotes := o.quotes.update o.moment.now q }

/-- The longest wait for an operation, in milliseconds. -/
def patience : Nat := 600000

/-- Waits for the result of a task. -/
def await (o : Office) (id : Nat) : Performed × Office :=
  let o := virtual.await (fun o => (o.ledger.result? id).isSome) patience o
  match o.ledger.result? id with
  | some (some outcome) => (.done outcome, o)
  | some none => (.crashed, o)
  | none => (.stuck, o)

/-- Starts an operation and waits for its result; one that is stuck is given up. -/
def perform (o : Office) (x : Operation) : Performed × Office :=
  let (id, ledger) := o.ledger.spawn x
  let (r, o) := { o with ledger }.await id
  (r, { o with ledger := o.ledger.cancel id })

/-- Starts an operation aside under a name. -/
def spawn (o : Office) (name : String) (x : Operation) : Office :=
  let (id, ledger) := o.ledger.spawn x
  { o with ledger, names := o.names.insert name id }

/-- Forgets a name. -/
def forget (o : Office) (name : String) : Office :=
  { o with names := o.names.filter (fun k _ => k ≠ name) }

/-- Waits for the result of the task of a name, and forgets the name. -/
def join (o : Office) (name : String) : Option (Performed × Office) :=
  (o.names.get? name).map (fun id => (o.forget name).await id)

/-- Whether the task of a name has ended. -/
def isDone? (o : Office) (name : String) : Option Bool :=
  (o.names.get? name).map (fun id => (o.ledger.result? id).isSome)

/-- Gives up the task of a name. -/
def cancel (o : Office) (name : String) : Office :=
  match o.names.get? name with
  | none => o
  | some id => { o.forget name with ledger := o.ledger.cancel id }

/-- Tells the job of valuation runs to stop, which it heeds in whatever it waits for; whether there
was one. -/
def stopJob (o : Office) : Bool × Office :=
  match o.job with
  | none => (false, o)
  | some id => (true, { o with ledger := (o.ledger.heed? id).getD o.ledger, job := none })

/-- Starts the job of valuation runs, in place of one that was started before. -/
def startJob (o : Office) (interval : Nat) : Office :=
  let o := o.stopJob.2
  let (id, ledger) := o.ledger.spawn (o.ledger.valuationJob interval o.moment.now)
  { o with ledger, job := some id }

end Office

end Bourse
