import Bourse.Table
import Bourse.Trade

/-!
# The History Cache

Reading a trade log goes through a cache. Each user has a *generation*, which counts
the times the user's list was made invalid. A reader that finds nothing is told the
generation, reads the log, and may save what it read only if the generation is still
the same; so a list read before an invalidation is never served after it.

A list is served for a limited time. Expired lists are swept out when asked and on
every 256th save. A user whose list was never invalidated is forgotten then, which
nobody can tell from generation zero.

## Main definitions

* `HistoryCache`: the slots of the users.
* `HistoryCache.get`, `save`, `invalidate`, `purge`: the operations.
* `HistoryLookup`: a list, or the generation of a miss.
-/

namespace Bourse

/-- A list and the time it was saved. -/
structure CachedHistory where
  trades : List TradeRecord
  savedAt : Nat
deriving DecidableEq, Repr

/-- What is kept for one user. -/
structure HistorySlot where
  /-- How many times the list was made invalid. -/
  generation : Nat
  cached : Option CachedHistory
deriving DecidableEq, Repr

/-- What a look into the cache finds. -/
inductive HistoryLookup where
  | hit (trades : List TradeRecord)
  | miss (generation : Nat)
deriving DecidableEq, Repr

/-- The slots of the users, how long a list is served, and the number of saves so far. -/
structure HistoryCache where
  slots : Table String HistorySlot
  ttl : Nat
  saves : Nat
deriving DecidableEq, Repr

namespace HistoryCache

/-- How long a list is served if nothing else is said: six hours. -/
def standardTtl : Nat := 21600000

/-- Every so many saves the expired lists are swept out. -/
def purgeEvery : Nat := 256

/-- The cache without lists. -/
def empty (ttl : Nat) : HistoryCache := ⟨.empty, ttl, 0⟩

/-- Whether a list is still served at a time. -/
def isFresh (c : HistoryCache) (now : Nat) (h : CachedHistory) : Bool :=
  now - h.savedAt < c.ttl

/-- Looks a user's list up; an expired one is dropped. -/
def get (c : HistoryCache) (now : Nat) (user : String) : HistoryLookup × HistoryCache :=
  match c.slots.get? user with
  | none => (.miss 0, c)
  | some slot =>
    match slot.cached with
    | none => (.miss slot.generation, c)
    | some h =>
      if c.isFresh now h then (.hit h.trades, c)
      else
        (.miss slot.generation,
          { c with slots := c.slots.insert user { slot with cached := none } })

/-- The number of lists that have expired. -/
def expired (c : HistoryCache) (now : Nat) : Nat :=
  (c.slots.entries.filter (fun e => match e.2.cached with
    | some h => !c.isFresh now h
    | none => false)).length

/-- Drops the expired lists and the slots that say nothing any more; also the number of lists
dropped. -/
def purge (c : HistoryCache) (now : Nat) : Nat × HistoryCache :=
  -- Without a list, generation zero says no more than a slot that is not there.
  let swept := c.slots.mapValues (fun _ s => { s with cached := s.cached.filter (c.isFresh now) })
  (c.expired now,
    { c with slots := swept.filter (fun _ s => s.cached.isSome || s.generation ≠ 0) })

/-- Saves a list under the generation it was read at, if that is still the user's; also whether it
was. -/
def store (c : HistoryCache) (now : Nat) (user : String) (generation : Nat)
    (trades : List TradeRecord) : Bool × HistoryCache :=
  let slot := (c.slots.get? user).getD ⟨0, none⟩
  if slot.generation = generation then
    (true, { c with slots := c.slots.insert user { slot with cached := some ⟨trades, now⟩ } })
  else (false, c)

/-- Saves a list as `store` does and counts the save, sweeping when it is time to. -/
def save (c : HistoryCache) (now : Nat) (user : String) (generation : Nat)
    (trades : List TradeRecord) : Bool × HistoryCache :=
  let (stored, c) := c.store now user generation trades
  let c := { c with saves := c.saves + 1 }
  (stored, if c.saves % purgeEvery = 0 then (c.purge now).2 else c)

/-- Makes a user's list invalid, whether there is one or not. -/
def invalidate (c : HistoryCache) (user : String) : HistoryCache :=
  let slot := (c.slots.get? user).getD ⟨0, none⟩
  { c with slots := c.slots.insert user ⟨slot.generation + 1, none⟩ }

/-- The number of lists, expired or not. -/
def size (c : HistoryCache) : Nat :=
  (c.slots.entries.filter (fun e => e.2.cached.isSome)).length

end HistoryCache

end Bourse
