import Bourse.Quote
import Bourse.Stream

/-!
# The Quote Bus

A bus hands each quote to all its subscribers. A subscriber has a buffer of its own;
a quote that finds it full is lost on that subscriber alone, so nobody slows anybody
down. Subscribers are numbered from zero and numbers are not used again.

The bus closes when the stream it dispatches ends or when its last subscriber
leaves, and never opens again. When it closes, every subscription ends once its
buffer is drained, and the hook for the owner of the stream runs, once.

A *broadcast* is a bus together with the stream that it dispatches.

## Main definitions

* `Subscription`: a buffer, and whether quotes still come in.
* `Bus`: the subscriptions and whether the bus is closed.
* `Bus.subscribe`, `unsubscribe`, `drop`, `publish`, `close`, `receive`: the operations.
* `Broadcast`: a bus and its stream.
* `Broadcast.dispatch?`: takes one quote of the stream.
-/

namespace Bourse

/-- One subscriber's buffer. -/
structure Subscription where
  id : Nat
  /-- The quotes not yet taken, oldest first. -/
  buffer : List Quote
  /-- Whether quotes still come in. -/
  joined : Bool
deriving DecidableEq, Repr

/-- The subscriptions that are held, and the state of the bus. -/
structure Bus where
  capacity : Nat
  subscriptions : List Subscription
  nextId : Nat
  closed : Bool
  /-- How many times the hook has run. -/
  teardowns : Nat
deriving DecidableEq, Repr

namespace Bus

/-- An open bus without subscribers; every buffer holds at least one quote. -/
def create (capacity : Nat) : Bus := ⟨max capacity 1, [], 0, false, 0⟩

/-- Whether a buffer of the capacity can be made for a subscriber. -/
def hasBuffers (b : Bus) : Bool := isBufferSize b.capacity

/-- The number of subscribers. -/
def count (b : Bus) : Nat := (b.subscriptions.filter (·.joined)).length

/-- A subscription that is held. -/
def find? (b : Bus) (id : Nat) : Option Subscription :=
  b.subscriptions.find? (fun s => s.id = id)

/-- Whether quotes come in for a subscription. -/
def isJoined (b : Bus) (id : Nat) : Bool :=
  b.subscriptions.any (fun s => s.id = id && s.joined)

/-- Opens a subscription and gives its number; none once the bus is closed. -/
def subscribe (b : Bus) : Option (Nat × Bus) :=
  if b.closed then none
  else some (b.nextId,
    { b with
      subscriptions := b.subscriptions ++ [⟨b.nextId, [], true⟩]
      nextId := b.nextId + 1 })

/-- Closes the bus: no subscription goes on and the hook runs. A closed bus stays as it is. -/
def close (b : Bus) : Bus :=
  if b.closed then b
  else
    { b with
      subscriptions := b.subscriptions.map (fun s => { s with joined := false })
      closed := true
      teardowns := b.teardowns + 1 }

/-- Ends a subscription; the last one to go closes the bus. -/
def unsubscribe (b : Bus) (id : Nat) : Bus :=
  if b.isJoined id then
    let b := { b with
      subscriptions := b.subscriptions.map (fun s =>
        if s.id = id then { s with joined := false } else s) }
    if b.count = 0 then b.close else b
  else b

/-- Gives a subscription up, which ends it first. -/
def drop (b : Bus) (id : Nat) : Bus :=
  let b := b.unsubscribe id
  { b with subscriptions := b.subscriptions.filter (fun s => s.id ≠ id) }

/-- Puts a quote into a buffer that takes quotes and has room. -/
def deliver (capacity : Nat) (q : Quote) (s : Subscription) : Subscription :=
  if s.joined && s.buffer.length < capacity then { s with buffer := s.buffer ++ [q] } else s

/-- Hands a quote to all subscribers. -/
def publish (b : Bus) (q : Quote) : Bus :=
  if b.closed then b
  else { b with subscriptions := b.subscriptions.map (deliver b.capacity q) }

/-- Takes the next quote of a subscription. -/
def receive (b : Bus) (id : Nat) : Received Quote × Bus :=
  match b.find? id with
  | none => (.ended, b)
  | some s =>
    match s.buffer with
    | q :: rest =>
      (.item q,
        { b with subscriptions := b.subscriptions.map (fun x =>
            if x.id = id then { x with buffer := rest } else x) })
    | [] => (if s.joined then .pending else .ended, b)

/-- The number of quotes that a subscription has in its buffer. -/
def buffered (b : Bus) (id : Nat) : Nat :=
  ((b.find? id).map (·.buffer.length)).getD 0

/-- Leaves the bus without an owner: subscriptions end, and the hook does not run. -/
def abandon (b : Bus) : Bus :=
  { b with subscriptions := b.subscriptions.map (fun s => { s with joined := false }) }

end Bus

/-- A bus and the stream that it dispatches. -/
structure Broadcast where
  bus : Bus
  /-- Quotes of the stream not yet dispatched. -/
  awaiting : List Quote
  /-- Whether the stream may bring more. -/
  isOpen : Bool
  /-- Whether somebody dispatches. -/
  dispatching : Bool
  /-- Whether the bus still has an owner. -/
  owned : Bool
deriving DecidableEq, Repr

namespace Broadcast

/-- An open bus at the start of an open stream. -/
def create (capacity : Nat) : Broadcast :=
  { bus := .create capacity, awaiting := [], isOpen := true, dispatching := true, owned := true }

/-- One step of the dispatch, where there is one: it stops at a closed bus, hands on a quote, or
closes the bus at the end of the stream. -/
def dispatch? (b : Broadcast) : Option Broadcast :=
  if !b.dispatching then none
  else if b.bus.closed then some { b with dispatching := false, awaiting := [] }
  else match b.awaiting with
    | q :: rest => some { b with bus := b.bus.publish q, awaiting := rest }
    | [] =>
      if b.isOpen then none
      else some { b with bus := b.bus.close, dispatching := false }

/-- The broadcast after at most `fuel` steps of the dispatch. -/
def run : (fuel : Nat) → Broadcast → Broadcast
  | 0, b => b
  | fuel + 1, b =>
    match b.dispatch? with
    | some b => run fuel b
    | none => b

/-- The broadcast after all steps that its dispatch can take. -/
def settle (b : Broadcast) : Broadcast := b.run (b.awaiting.length + 2)

/-- Brings quotes to the stream; whether somebody was there for each. -/
def send (b : Broadcast) (quotes : List Quote) : List Bool × Broadcast :=
  if b.dispatching then
    (quotes.map (fun _ => true), { b with awaiting := b.awaiting ++ quotes })
  else (quotes.map (fun _ => false), b)

/-- Ends the stream. -/
def finish (b : Broadcast) : Broadcast := { b with isOpen := false }

/-- Opens a subscription, while the bus has an owner and is open. -/
def subscribe (b : Broadcast) : Option (Nat × Broadcast) :=
  if b.owned then b.bus.subscribe.map (fun (id, bus) => (id, { b with bus })) else none

/-- Ends a subscription, while the bus has an owner. -/
def unsubscribe (b : Broadcast) (id : Nat) : Broadcast :=
  if b.owned then { b with bus := b.bus.unsubscribe id } else b

/-- Gives a subscription up. -/
def drop (b : Broadcast) (id : Nat) : Broadcast :=
  { b with bus := b.bus.drop id }

/-- Takes the next quote of a subscription. -/
def receive (b : Broadcast) (id : Nat) : Received Quote × Broadcast :=
  let (r, bus) := b.bus.receive id
  (r, { b with bus })

/-- Takes all quotes of a subscription, or some of them. -/
def drain (b : Broadcast) (id : Nat) (limit : Option Nat) : Drained Quote × Broadcast :=
  Bourse.drain (fun b => b.receive id) (b.bus.buffered id + 1) limit b

/-- Gives the bus up; nobody dispatches any more. -/
def abandon (b : Broadcast) : Broadcast :=
  { b with bus := b.bus.abandon, owned := false, dispatching := false, awaiting := [] }

end Broadcast

end Bourse
