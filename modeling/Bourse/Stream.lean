/-!
# Streams

A stream brings items from time to time and may end. Whoever looks at it finds an
item, nothing yet, or the end. Draining takes all items that are there; while it
goes on, producers that waited for room may add to them.

Between a producer and its consumer stands a buffer for a limited number of items.

## Main definitions

* `Received`: what one look at a stream finds.
* `Drained`: items taken and how the taking ended.
* `drain`: takes items for as long as there are some.
* `isBufferSize`: the numbers of items that a buffer can be made for.
-/

namespace Bourse

/-- The largest number of items that a buffer can be made for, which has 61 bits. -/
def largestBuffer : Nat := 2305843009213693951

/-- Whether there can be a buffer for so many items. -/
def isBufferSize (n : Nat) : Bool := 0 < n && n ≤ largestBuffer

/-- What someone finds who looks for the next item of a stream. -/
inductive Received (α : Type) where
  | item (value : α)
  /-- Nothing yet. -/
  | pending
  /-- Nothing any more. -/
  | ended
deriving DecidableEq, Repr

/-- How the taking of items ends. -/
inductive DrainEnd where
  | pending
  | ended
  /-- There may be more, but no more was asked for. -/
  | more
deriving DecidableEq, Repr

/-- The items taken, in order, and how the taking ended. -/
structure Drained (α : Type) where
  items : List α
  stop : DrainEnd
deriving DecidableEq, Repr

/-- Takes items until none is there or `limit` are taken, and at most `fuel` of them. -/
def drain (next : σ → Received α × σ) :
    (fuel : Nat) → (limit : Option Nat) → σ → Drained α × σ
  | 0, _, s => (⟨[], .pending⟩, s)
  | fuel + 1, limit, s =>
    if limit = some 0 then (⟨[], .more⟩, s)
    else match next s with
      | (.item a, s) =>
        let (d, s) := drain next fuel (limit.map (· - 1)) s
        ({ d with items := a :: d.items }, s)
      | (.pending, s) => (⟨[], .pending⟩, s)
      | (.ended, s) => (⟨[], .ended⟩, s)

end Bourse
