import Bourse.Ledger.Task
import Bourse.Time.Virtual

/-!
# The Ledger

The ledger runs tasks over the books. A task runs until it has to wait, and then the
next one in line runs. A task that has to wait goes to the end of the line, so those
that wait for the same thing go on in the order in which they came to it.

A task that ends takes along the tasks that it started. Its result is kept until
somebody asks for it. One that heeds the stop signal ends in whatever it is busy with.

## Main definitions

* `Ledger`: the books, the settings, the tasks and their results.
* `Ledger.spawn`: starts an operation; `Ledger.result?` is its result.
* `Ledger.stepAt?`: a step of one task.
* `Ledger.heed?`: a task heeds the stop signal.
* `Ledger.settle`: all that needs no time.
-/

namespace Bourse

/-- The books, the settings, and the tasks over them. -/
structure Ledger where
  shared : Shared
  trading : TradingConfig
  valuation : ValuationConfig
  /-- The tasks, the next in line first. -/
  tasks : List Task
  nextId : Nat
  /-- The results, by task; none for a task that broke off. -/
  results : Table Nat (Option Outcome)

namespace Ledger

/-- A ledger with empty books. -/
def create (trading : TradingConfig) (valuation : ValuationConfig) : Ledger :=
  { shared := ⟨⟨.empty, .empty trading.tradeHistoryTtl⟩, [], []⟩, trading, valuation, tasks := [],
    nextId := 0, results := .empty }

/-- The books. -/
def books (l : Ledger) : Books := l.shared.books

/-- Changes the books directly. -/
def setBooks (l : Ledger) (books : Books) : Ledger := { l with shared := { l.shared with books } }

/-- Puts a fault into the queue. -/
def addFault (l : Ledger) (f : Fault) : Ledger :=
  { l with shared := { l.shared with faults := l.shared.faults ++ [f] } }

/-- Releases an answer withheld of a method, now or later. -/
def release (l : Ledger) (m : Method) : Ledger :=
  { l with shared := { l.shared with
      released := if l.shared.released.contains m then l.shared.released else m :: l.shared.released } }

/-- Starts an operation at the end of the line. -/
def add (l : Ledger) (parent : Option Nat) (x : Operation) : Ledger :=
  { l with tasks := l.tasks ++ [⟨l.nextId, parent, x, .free⟩], nextId := l.nextId + 1 }

/-- Starts an operation; also the number of its task. -/
def spawn (l : Ledger) (x : Operation) : Nat × Ledger := (l.nextId, l.add none x)

/-- Gives up the tasks that a task has started. -/
def orphan (l : Ledger) (id : Nat) : Ledger :=
  { l with tasks := l.tasks.filter (fun t => t.parent ≠ some id) }

/-- Gives up a task and those it has started. -/
def cancel (l : Ledger) (id : Nat) : Ledger :=
  ({ l with tasks := l.tasks.filter (fun t => t.id ≠ id) }).orphan id

/-- Tells a task that a valuation it started has ended. -/
def tell (l : Ledger) (parent : Nat) (removed : Option Nat) : Ledger :=
  { l with tasks := l.tasks.map (fun t =>
      if t.id = parent then { t with operation := t.operation.ended removed } else t) }

/-- Records the end of a task: its result is kept, or told to the task that started it. -/
def finish (l : Ledger) (t : Task) (outcome : Option Outcome) : Ledger :=
  let l := l.cancel t.id
  match t.parent with
  | some parent => l.tell parent (outcome.bind (·.removed))
  | none => { l with results := l.results.insert t.id outcome }

/-- Takes a changed task back. -/
def put (l : Ledger) (t : Task) : Ledger :=
  { l with tasks := l.tasks.map (fun x => if x.id = t.id then t else x) }

/-- The step of one task. -/
def stepTask? (l : Ledger) (env : Surroundings) (t : Task) : Option Ledger := do
  let (stepped, shared) ← t.step? env l.shared
  let l := { l with shared }
  match stepped with
  | .went t => some (l.put t)
  | .started t child => some ((l.put t).add (some t.id) (.userValuation child))
  | .abandoned t => some ((l.put t).orphan t.id)
  | .ended outcome => some (l.finish t outcome)

/-- A task by its number. -/
def task? (l : Ledger) (id : Nat) : Option Task := l.tasks.find? (fun t => t.id = id)

/-- The step of the task of a number. -/
def stepAt? (l : Ledger) (env : Surroundings) (id : Nat) : Option Ledger :=
  (l.task? id).bind (l.stepTask? env)

/-- The task of a number ends where it heeds the stop signal. -/
def heed? (l : Ledger) (id : Nat) : Option Ledger :=
  (l.task? id).bind (fun t =>
    if t.operation.heeds then some (l.finish t (some .job)) else none)

/-- Puts a task to the end of the line. -/
def moveBack (l : Ledger) (id : Nat) : Ledger :=
  match l.task? id with
  | none => l
  | some t => { l with tasks := l.tasks.filter (fun x => x.id ≠ id) ++ [t] }

/-- Lets a task run until it has to wait, for at most `fuel` steps. -/
def runTask (env : Surroundings) (id : Nat) : (fuel : Nat) → Ledger → Ledger
  | 0, l => l.moveBack id
  | fuel + 1, l =>
    match l.stepAt? env id with
    | some l => runTask env id fuel l
    | none => l.moveBack id

/-- The next task in line that can take a step. -/
def ready? (l : Ledger) (env : Surroundings) : Option Nat :=
  (l.tasks.find? (fun t => (t.step? env l.shared).isSome)).map (·.id)

/-- More than the steps of one task, and than the turns of all, before time has to pass: a run takes
a few steps for each symbol and each user. -/
def enough (l : Ledger) : Nat :=
  8 * (l.tasks.length + 2)
    * (l.books.store.users.size + l.trading.supportedSymbols.length + 4)

/-- The ledger after at most `turns` turns of tasks. -/
def run (env : Surroundings) : (turns : Nat) → Ledger → Ledger
  | 0, l => l
  | turns + 1, l =>
    match l.ready? env with
    | some id => run env turns (runTask env id l.enough l)
    | none => l

/-- The ledger after all that needs no time. -/
def settle (env : Surroundings) (l : Ledger) : Ledger := run env l.enough l

/-- When the next task goes on by itself. -/
def next? (l : Ledger) : Option Nat := earliest (l.tasks.map (·.due?))

/-- The result of a task that has ended, or none in it if it broke off. -/
def result? (l : Ledger) (id : Nat) : Option (Option Outcome) := l.results.get? id

/-- A trade by a user. Whether it prunes the log is left to the configuration. -/
def execution (l : Ledger) (now : Nat) (user : String) (r : TradeRequest) : Operation :=
  .execution (.start l.trading now user r l.trading.alwaysPrunes)

/-- The account of an identity. -/
def opening (l : Ledger) (i : Identity) : Operation := .opening (.start l.trading i)

/-- A valuation run at some time. -/
def valuationRun (l : Ledger) (time : Timestamp) : Operation :=
  .valuation (.start l.valuation l.trading.supportedSymbols time)

/-- The job of valuation runs. -/
def valuationJob (l : Ledger) (interval now : Nat) : Operation :=
  .job (.start l.valuation l.trading.supportedSymbols interval now)

end Ledger

end Bourse
