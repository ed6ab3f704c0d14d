import Bourse.Table

/-!
# Stop Signals

A *signal* tells those who watch it to stop. It is made together with a *handle*,
which fires it. Handles and signals can be copied and given up. A signal counts as
fired also when every handle of it is gone, so nobody goes on working for an owner
who has left. A signal made without a handle never fires: each copy of it keeps
alive what a handle would have been.

A signal can be asked whether it has fired, and it can be waited on. A *waiter* does
not ask again and again. It looks once, goes to sleep, and looks again after a firing
it has not seen yet, and it ends when nobody is left who could fire.

## Main definitions

* `Signals`: handles, signals and waiters by name.
* `Signals.hasSender`: whether anybody is left who could fire a source.
* `Signals.signalCancelled`: whether a signal has fired, by a handle or for lack of one.
* `SignalPhase.next?`, `Signals.turn?`: the next step of a waiter.
* `Signals.settle`: lets every waiter go as far as it can.
* `SignalAction`, `Signals.act?`: what can be done with handles and signals.
-/

namespace Bourse

/-- What a handle and a signal have in common. -/
structure SignalSource where
  fired : Bool
  /-- How many times it was fired. -/
  firings : Nat
  /-- Made without a handle, so that it never fires. -/
  eternal : Bool
deriving DecidableEq, Repr

/-- The source after a firing. Each one counts, also when it is not the first. -/
def SignalSource.fire (src : SignalSource) : SignalSource :=
  { src with fired := true, firings := src.firings + 1 }

/-- How far a waiter has come. -/
inductive SignalPhase where
  /-- About to look whether the signal has fired. -/
  | looking
  /-- Waits for a firing after those it has seen. -/
  | waiting (seen : Nat)
  | done
deriving DecidableEq, Repr

/-- How far a waiter has come after its next step, if it has one. `sender` says whether anybody is
left who could fire. -/
def SignalPhase.next? (src : SignalSource) (sender : Bool) : SignalPhase → Option SignalPhase
  | looking => some (if src.fired then done else waiting src.firings)
  | waiting seen =>
    -- A firing comes first, and what it left is looked at even if nobody is there any more.
    if src.firings ≠ seen then some looking else if sender then none else some done
  | done => none

/-- Someone who waits on a signal. -/
structure SignalWaiter where
  source : Nat
  phase : SignalPhase
deriving DecidableEq, Repr

/-- Handles, signals and waiters by name; each belongs to one of the sources. -/
structure Signals where
  sources : List SignalSource
  handles : Table String Nat
  signals : Table String Nat
  waiters : Table String SignalWaiter
deriving DecidableEq, Repr

namespace Signals

/-- Nothing yet. -/
def empty : Signals := ⟨[], .empty, .empty, .empty⟩

/-- Whether any handle of a source is left. -/
def hasHandle (s : Signals) (source : Nat) : Bool :=
  s.handles.entries.any (fun e => e.2 = source)

/-- Whether a signal of a source is left, be it in the hands of someone who waits on it. -/
def hasSignal (s : Signals) (source : Nat) : Bool :=
  s.signals.entries.any (fun e => e.2 = source) ||
    s.waiters.entries.any (fun e => e.2.source = source && e.2.phase ≠ .done)

/-- Whether a handle of a source was used to fire. -/
def hasFired (s : Signals) (source : Nat) : Bool :=
  (s.sources[source]?).any (·.fired)

/-- Whether anybody is left who could fire a source. Where there was no handle, the signals
themselves keep it alive. -/
def hasSender (s : Signals) (source : Nat) : Bool :=
  s.hasHandle source || ((s.sources[source]?).any (·.eternal) && s.hasSignal source)

/-- Whether a source has fired, by a handle or for lack of one, as those see it who hold a signal
of it. -/
def isCancelled (s : Signals) (source : Nat) : Bool :=
  match s.sources[source]? with
  | none => false
  | some src => src.fired || (!src.eternal && !s.hasHandle source)

/-- Makes a handle and its signal. -/
def create (s : Signals) (handle signal : String) : Signals :=
  let i := s.sources.length
  { s with
    sources := s.sources ++ [⟨false, 0, false⟩]
    handles := s.handles.insert handle i
    signals := s.signals.insert signal i }

/-- Makes a signal that never fires. -/
def never (s : Signals) (signal : String) : Signals :=
  { s with
    sources := s.sources ++ [⟨false, 0, true⟩]
    signals := s.signals.insert signal s.sources.length }

/-- Copies a handle. -/
def cloneHandle (s : Signals) (old new : String) : Option Signals :=
  (s.handles.get? old).map (fun i => { s with handles := s.handles.insert new i })

/-- Copies a signal. -/
def cloneSignal (s : Signals) (old new : String) : Option Signals :=
  (s.signals.get? old).map (fun i => { s with signals := s.signals.insert new i })

/-- Makes another signal of a handle. -/
def subscribe (s : Signals) (handle signal : String) : Option Signals :=
  (s.handles.get? handle).map (fun i => { s with signals := s.signals.insert signal i })

/-- Fires the signals of a handle. -/
def trigger (s : Signals) (handle : String) : Option Signals :=
  (s.handles.get? handle).map (fun i =>
    { s with sources := s.sources.modify i .fire })

/-- Gives up a handle. -/
def dropHandle (s : Signals) (handle : String) : Option Signals :=
  (s.handles.get? handle).map (fun _ =>
    { s with handles := s.handles.filter (fun k _ => k ≠ handle) })

/-- Gives up a signal. -/
def dropSignal (s : Signals) (signal : String) : Option Signals :=
  (s.signals.get? signal).map (fun _ =>
    { s with signals := s.signals.filter (fun k _ => k ≠ signal) })

/-- Whether a handle was used to fire, itself or another of the same source. -/
def isTriggered (s : Signals) (handle : String) : Option Bool :=
  (s.handles.get? handle).map s.hasFired

/-- Whether a signal has fired. -/
def signalCancelled (s : Signals) (signal : String) : Option Bool :=
  (s.signals.get? signal).map (fun i => s.hasFired i || !s.hasSender i)

/-- Lets someone wait on a signal. -/
def spawn (s : Signals) (signal waiter : String) : Option Signals :=
  (s.signals.get? signal).map (fun i =>
    { s with waiters := s.waiters.insert waiter ⟨i, .looking⟩ })

/-- Whether a waiter has ended. -/
def isWoken (s : Signals) (waiter : String) : Option Bool :=
  (s.waiters.get? waiter).map (fun w => w.phase = .done)

/-- The signals after the next step of a waiter, if it has one. -/
def turn? (s : Signals) (waiter : String) : Option Signals :=
  (s.waiters.get? waiter).bind (fun w =>
    (s.sources[w.source]?).bind (fun src =>
      (w.phase.next? src (s.hasSender w.source)).map (fun phase =>
        { s with waiters := s.waiters.insert waiter { w with phase } })))

/-- The signals after the next step of a waiter, or as they are without one. -/
def goOn (s : Signals) (waiter : String) : Signals :=
  (s.turn? waiter).getD s

/-- Lets a waiter go as far as it can. It wakes, looks, and goes to sleep or ends. -/
def finish (s : Signals) (waiter : String) : Signals :=
  ((s.goOn waiter).goOn waiter).goOn waiter

/-- Lets every waiter go as far as it can. -/
def settle (s : Signals) : Signals :=
  s.waiters.keys.foldl finish s

end Signals

/-- What can be done with handles and signals. -/
inductive SignalAction where
  | create (handle signal : String)
  | never (signal : String)
  | cloneHandle (old new : String)
  | cloneSignal (old new : String)
  | subscribe (handle signal : String)
  | trigger (handle : String)
  | dropHandle (handle : String)
  | dropSignal (signal : String)

/-- The signals after something was done with them, where it can be. -/
def Signals.act? (s : Signals) : SignalAction → Option Signals
  | .create handle signal => some (s.create handle signal)
  | .never signal => some (s.never signal)
  | .cloneHandle old new => s.cloneHandle old new
  | .cloneSignal old new => s.cloneSignal old new
  | .subscribe handle signal => s.subscribe handle signal
  | .trigger handle => s.trigger handle
  | .dropHandle handle => s.dropHandle handle
  | .dropSignal signal => s.dropSignal signal

end Bourse
