import Bourse.Market.Basic

/-!
# Keeping the Cache Warm

The quote cache is kept warm by a subscription of its own, so that a trade finds a
recent price even if nobody watches. When the subscription ends, or cannot be had,
the keeper rests for a while and asks again, until it is stopped. It heeds the stop
signal while it feeds the cache and while it rests; an answer it has asked for it
waits for.

## Main definitions

* `Warmer`: what the keeper is busy with.
* `Warmer.step?`: its next step, where it can take one.
-/

namespace Bourse

/-- What the keeper of the cache is busy with. -/
inductive Warmer where
  /-- Waiting for the answer to a request. -/
  | asking (ticket : Nat)
  /-- Feeding the cache from a subscription. -/
  | feeding (seat : Seat)
  /-- Resting before it asks again. -/
  | resting (due : Nat)
  | stopped
deriving DecidableEq, Repr

namespace Warmer

/-- The keeper at its first request. -/
def start (m : Market) : Warmer × Market :=
  let (ticket, m) := m.request
  (.asking ticket, m)

/-- The next step of the keeper, where it can take one. -/
def step? (w : Warmer) (backoff : Nat) (stop : Bool) (m : Market) : Option (Warmer × Market) :=
  match w with
  | .asking ticket =>
    match m.grant? ticket with
    | none => none
    | some (.seated s) => some (.feeding s, m.addFeeder s)
    | some (.failed _) => some (.resting (m.now + backoff), m)
    | some .crashed => some (.stopped, m)
  | .feeding s =>
    if stop then some (.stopped, m.removeFeeder s)
    else if m.feeders.contains s then none
    else some (.resting (m.now + backoff), m)
  | .resting due =>
    if stop then some (.stopped, m)
    else if due ≤ m.now then some (start m)
    else none
  | .stopped => none

/-- When the keeper goes on by itself. -/
def due? : Warmer → Option Nat
  | .resting due => some due
  | _ => none

end Warmer

end Bourse
