import Bourse.Market.Basic
import Bourse.Throttle

/-!
# Watching the Market

A watcher has a subscription and may want one symbol only, at most so often, and
only for so long. Quotes of other symbols are passed over before the rate is looked
at, so they use none of it up. What passes is decided when the watcher looks, not
when the quote came in.

## Main definitions

* `Watch`: a subscription and what passes.
* `Watch.next`: the next quote that passes.
* `Exchange`: a market and its watchers by name.
-/

namespace Bourse

/-- A subscription and what of it passes. -/
structure Watch where
  seat : Seat
  /-- The symbol wanted; none for all. -/
  symbol : Option String
  throttle : Option Throttle
  /-- When the watch is over. -/
  ends : Option Nat
deriving DecidableEq, Repr

namespace Watch

/-- A watch of all quotes. -/
def all (seat : Seat) : Watch := ⟨seat, none, none, none⟩

/-- A watch of one symbol at a limited rate. -/
def ofSymbol (symbol : String) (interval : Nat) (ends : Option Nat) (seat : Seat) : Watch :=
  ⟨seat, some symbol, some (.fresh interval), ends⟩

/-- Whether the watch is over. -/
def isOver (w : Watch) (now : Nat) : Bool := (w.ends.map (fun t => decide (t ≤ now))).getD false

/-- Whether a quote is of the symbol wanted. -/
def wants (w : Watch) (q : Quote) : Bool := (w.symbol.map (fun s => decide (q.symbol = s))).getD true

/-- Whether a quote passes, and the watch after it. -/
def offer (w : Watch) (now : Nat) (q : Quote) : Bool × Watch :=
  if w.wants q then
    match w.throttle with
    | none => (true, w)
    | some t =>
      let (passes, t) := t.offer now
      (passes, { w with throttle := some t })
  else (false, w)

/-- The next quote that passes, among at most `fuel` quotes. -/
def next : (fuel : Nat) → Watch → Market → Received Quote × Watch × Market
  | 0, w, m => (.pending, w, m)
  | fuel + 1, w, m =>
    if w.isOver m.now then (.ended, w, m)
    else match m.receive w.seat with
      | (.item q, m) =>
        match w.offer m.now q with
        | (true, w) => (.item q, w, m)
        | (false, w) => next fuel w m
      | (r, m) => (r, w, m)

/-- The quotes in front of a watcher. -/
def buffered (w : Watch) (m : Market) : Nat :=
  ((m.lines[w.seat.line]?).map (·.bus.buffered w.seat.id)).getD 0

end Watch

/-- A market and its watchers by name. -/
structure Exchange where
  market : Market
  watches : Table String Watch
deriving DecidableEq, Repr

namespace Exchange

/-- A market without watchers. -/
def create (m : Market) : Exchange := ⟨m, .empty⟩

/-- All that needs no time happens. -/
def settle (x : Exchange) : Exchange := { x with market := x.market.settle }

/-- Gives a watch up; whether there was one. -/
def drop (x : Exchange) (name : String) : Bool × Exchange :=
  match x.watches.get? name with
  | none => (false, x)
  | some w =>
    (true, { x with market := x.market.leave w.seat, watches := x.watches.filter (fun k _ => k ≠ name) })

/-- Takes a watch under a name; one that had the name is given up. -/
def place (x : Exchange) (name : String) (w : Watch) : Exchange :=
  let x := (x.drop name).2
  { x with watches := x.watches.insert name w }

/-- Subscribes and takes the watch under a name. -/
def watch (x : Exchange) (name : String) (w : Seat → Watch) : Option Grant × Exchange :=
  let (g, market) := x.market.subscribe
  let x := { x with market }
  match g with
  | some (.seated seat) => (g, x.place name (w seat))
  | _ => (g, x)

/-- Subscribes for the cache. -/
def feedCache (x : Exchange) : Option Grant × Exchange :=
  let (g, market) := x.market.subscribe
  match g with
  | some (.seated seat) => (g, { x with market := market.addFeeder seat })
  | _ => (g, { x with market })

/-- Takes all quotes that pass a watch, or some of them; none without a watch of the name. -/
def drain? (x : Exchange) (name : String) (limit : Option Nat) :
    Option (Drained Quote × Exchange) := do
  let w ← x.watches.get? name
  let fuel := w.buffered x.market + 1
  let step (s : Watch × Market) :=
    let (r, w, m) := s.1.next fuel s.2
    (r, (w, m))
  let (d, w, market) := Bourse.drain step fuel limit (w, x.market)
  some (d, { market, watches := x.watches.insert name w })

/-- Time passes. -/
def wait (x : Exchange) (ms : Nat) : Exchange :=
  { x with market := Market.virtual.wait ms x.market }

end Exchange

end Bourse
