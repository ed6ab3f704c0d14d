import Bourse.Ledger.Books
import Bourse.Trading.Error

/-!
# Progress of an Operation

An operation of the ledger is a state, and what it does next follows from the state
alone: it makes a call, waits for a price or for a time, reads the clock, or is
done. Each comes with the state that an answer leads to. So an operation can be
stopped between any two of its steps, and others can go on there.

A wait may have a deadline. If there is no answer by then, the operation goes on
without it; an answer that is there at the deadline still counts.

## Main definitions

* `Moment`: the two clocks read at once.
* `Progress`: what an operation does next.
* `Progress.map`: the same for an operation within another.
-/

namespace Bourse

/-- The running time, for waits, and the time of day, for records. -/
structure Moment where
  now : Nat
  time : Timestamp
deriving DecidableEq, Repr

/-- A time, and the state that is left to an operation whose answer is not there by then. -/
abbrev Deadline (σ : Type) := Option (Nat × σ)

/-- What an operation with states `σ` and results `ρ` does next; `κ` are the operations it can
start beside itself. -/
inductive Progress (κ σ ρ : Type) where
  | finished (result : ρ)
  /-- The operation breaks off without a result. -/
  | crashing
  /-- It reads the clocks. -/
  | reading (resume : Moment → σ)
  /-- It waits for a price of a symbol of less than some age. -/
  | pricing (symbol : String) (maxAge : Nat) (deadline : Deadline σ)
      (resume : Except QuoteError Amount → σ)
  /-- It makes a call. -/
  | calling (call : Call) (deadline : Deadline σ) (resume : Except StoreError call.Result → σ)
  /-- It waits for a time. -/
  | sleeping (due : Nat) (next : σ)
  /-- It starts another operation beside itself. -/
  | starting (child : κ) (next : σ)
  /-- It waits until an operation that it started has ended. -/
  | joining
  /-- It gives up the operations that it has started. -/
  | abandoning (next : σ)

namespace Progress

/-- The progress of an operation within another. -/
def map (f : σ → τ) (g : ρ → ρ') : Progress κ σ ρ → Progress κ τ ρ'
  | finished r => .finished (g r)
  | crashing => .crashing
  | reading k => .reading (fun m => f (k m))
  | pricing s a d k => .pricing s a (d.map (fun d => (d.1, f d.2))) (fun r => f (k r))
  | calling c d k => .calling c (d.map (fun d => (d.1, f d.2))) (fun r => f (k r))
  | sleeping t s => .sleeping t (f s)
  | starting c s => .starting c (f s)
  | joining => .joining
  | abandoning s => .abandoning (f s)

/-- When the state changes by itself: a deadline or a time waited for. -/
def due? : Progress κ σ ρ → Option Nat
  | pricing _ _ d _ => d.map (·.1)
  | calling _ d _ => d.map (·.1)
  | sleeping t _ => some t
  | _ => none

end Progress

end Bourse
