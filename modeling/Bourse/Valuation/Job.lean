import Bourse.Time.Instant
import Bourse.Valuation.Run

/-!
# The Valuation Job

The job makes a valuation run at once and then one every interval, counted from the
start of the run before. After a run that failed as a whole it waits for a shorter
time only, counted from the failure. Where the time of the next run is no instant, the
job breaks off.

The job goes on until it is told to stop. It heeds that while it waits for a run and in
the middle of one, which it then abandons; between the two it only reads the clocks.

## Main definitions

* `ValuationJob`: the job and the run it is busy with.
* `ValuationJob.next`: what it does next.
* `ValuationJob.heeds`: whether it heeds the stop signal where it is.
-/

namespace Bourse

/-- What the job is busy with. -/
inductive ValuationJob.Phase where
  /-- Waiting for the next run. -/
  | resting (due : Nat)
  /-- About to read the clocks for a run. -/
  | timing
  /-- Busy with a run that started at some time. -/
  | running (started : Nat) (run : ValuationRun)
  /-- The run has failed, and the clock is about to be read for the next try. -/
  | failing
  /-- There is no time for the next try. -/
  | broken
deriving Repr

/-- The job that makes valuation runs. -/
structure ValuationJob where
  config : ValuationConfig
  symbols : List String
  interval : Nat
  phase : ValuationJob.Phase
deriving Repr

namespace ValuationJob

/-- The job before its first run. -/
def start (config : ValuationConfig) (symbols : List String) (interval now : Nat) : ValuationJob :=
  { config, symbols, interval, phase := .resting now }

/-- The same job in another phase. -/
def enter (x : ValuationJob) (p : Phase) : ValuationJob := { x with phase := p }

/-- The pause after a run that failed. -/
def retry (x : ValuationJob) : Nat := min x.config.retryBackoff x.interval

/-- What the job does next, within a run or between two of them. -/
def next (x : ValuationJob) : Progress UserValuation ValuationJob Unit :=
  match x.phase with
  | .resting due => .sleeping due (x.enter .timing)
  | .timing =>
    .reading (fun m => x.enter (.running m.now (.start x.config x.symbols m.time)))
  | .running started run =>
    match run.next with
    | .finished (.ok _) =>
      if isInstant (started + x.interval) then .sleeping (started + x.interval) (x.enter .timing)
      else .crashing
    | .finished (.error _) => .abandoning (x.enter .failing)
    | p => p.map (fun run => x.enter (.running started run)) (fun _ => ())
  | .failing =>
    .reading (fun m => x.enter
      (if isInstant (m.now + x.retry) then .resting (m.now + x.retry) else .broken))
  | .broken => .crashing

/-- Whether the job heeds the stop signal where it is. -/
def heeds (x : ValuationJob) : Bool :=
  match x.phase with
  | .resting _ | .running .. => true
  | _ => false

/-- The job after a valuation of its run has ended. -/
def ended (x : ValuationJob) (removed : Option Nat) : ValuationJob :=
  match x.phase with
  | .running started run => x.enter (.running started (run.ended removed))
  | _ => x

end ValuationJob

end Bourse
