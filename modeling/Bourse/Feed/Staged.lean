import Bourse.Feed.Basic
import Bourse.Stream

/-!
# A Staged Feed

A feed that plays what it is told. Each attempt to connect takes some time, and
then either fails as told or makes a connection, numbered in order. A *controller*
takes the sending ends of the connections one after the other and sends ticks
through them; without a controller every attempt fails.

A connection holds a limited number of ticks not yet taken. It is over for the
sender when the receiver is gone, and over for the receiver when the sender is gone
and all ticks are taken.

## Main definitions

* `Connection`: the ticks under way and which ends are left.
* `StagedFeed`: the connections and what the next attempts will do.
* `StagedFeed.connect`: an attempt.
* `StagedFeed.accept`, `send`, `close`: what the controller does.
* `StagedFeed.take`: the receiver takes a tick.
-/

namespace Bourse

/-- One connection of the feed. -/
structure Connection where
  /-- The ticks sent and not yet taken, oldest first. -/
  ticks : List RawTick
  /-- Whether the sending end is left. -/
  sending : Bool
  /-- Whether the receiving end is left. -/
  receiving : Bool
deriving DecidableEq, Repr

/-- A feed that plays what it is told. -/
structure StagedFeed where
  /-- Ticks that a connection holds. -/
  buffer : Nat
  /-- How long an attempt takes. -/
  delay : Nat
  connections : List Connection
  /-- How many sending ends the controller has taken. -/
  accepted : Nat
  /-- How many of the next attempts fail. -/
  failures : Nat
  /-- How many attempts there were. -/
  attempts : Nat
  /-- Whether there is a controller. -/
  controlled : Bool
deriving DecidableEq, Repr

/-- What the sender of a tick learns. -/
inductive Sent where
  | sent
  /-- The connection holds as many ticks as it can. -/
  | full
  /-- The receiver has left. -/
  | closed
  /-- There is no such sending end. -/
  | gone
deriving DecidableEq, Repr

namespace StagedFeed

/-- The name that the feed goes by. -/
def name : String := "channel"

/-- A feed before the first attempt. -/
def create (buffer delay failures : Nat) : StagedFeed :=
  { buffer, delay, connections := [], accepted := 0, failures, attempts := 0, controlled := true }

/-- The end of an attempt: the number of the new connection, or the error. -/
def connect (f : StagedFeed) : Except FeedError Nat × StagedFeed :=
  let f := { f with attempts := f.attempts + 1 }
  if 0 < f.failures then
    (.error (.connect "scripted failure"), { f with failures := f.failures - 1 })
  else if f.controlled then
    (.ok f.connections.length, { f with connections := f.connections ++ [⟨[], true, true⟩] })
  else (.error (.connect "controller dropped"), f)

/-- Changes one connection. -/
def change (f : StagedFeed) (c : Nat) (g : Connection → Connection) : StagedFeed :=
  { f with connections := f.connections.modify c g }

/-- The connection whose sending end the controller has. -/
def held? (f : StagedFeed) (c : Nat) : Option Connection :=
  if c < f.accepted then (f.connections[c]?).filter (·.sending) else none

/-- Takes the sending end of the next connection, if there is one. -/
def accept (f : StagedFeed) : Option Nat × StagedFeed :=
  if f.accepted < f.connections.length then
    (some f.accepted, { f with accepted := f.accepted + 1 })
  else (none, f)

/-- Sends a tick through a connection. -/
def send (f : StagedFeed) (c : Nat) (t : RawTick) : Sent × StagedFeed :=
  match f.held? c with
  | none => (.gone, f)
  | some x =>
    if !x.receiving then (.closed, f)
    else if x.ticks.length < f.buffer then
      (.sent, f.change c (fun x => { x with ticks := x.ticks ++ [t] }))
    else (.full, f)

/-- Gives up the sending end of a connection. -/
def close (f : StagedFeed) (c : Nat) : StagedFeed :=
  f.change c (fun x => { x with sending := false })

/-- Lets the next attempts fail, while there is a controller to say so. -/
def fail (f : StagedFeed) (n : Nat) : StagedFeed :=
  if f.controlled then { f with failures := n } else f

/-- Gives up the controller, and with it the sending ends it has not taken. -/
def dropController (f : StagedFeed) : StagedFeed :=
  { f with
    controlled := false
    connections := f.connections.mapIdx (fun i x =>
      if i < f.accepted then x else { x with sending := false }) }

/-- Gives up the receiving end of a connection, with the ticks under way. -/
def release (f : StagedFeed) (c : Nat) : StagedFeed :=
  f.change c (fun x => { x with receiving := false, ticks := [] })

/-- The next tick of a connection, if there is one. -/
def peek? (f : StagedFeed) (c : Nat) : Option RawTick :=
  (f.connections[c]?).bind (·.ticks.head?)

/-- Removes the next tick of a connection. -/
def take (f : StagedFeed) (c : Nat) : StagedFeed :=
  f.change c (fun x => { x with ticks := x.ticks.tail })

/-- Whether a connection brings no more ticks. -/
def isOver (f : StagedFeed) (c : Nat) : Bool :=
  match f.connections[c]? with
  | none => true
  | some x => x.ticks.isEmpty && !x.sending

/-- The number of ticks under way. -/
def underWay (f : StagedFeed) : Nat :=
  (f.connections.map (·.ticks.length)).foldl (· + ·) 0

end StagedFeed

end Bourse
