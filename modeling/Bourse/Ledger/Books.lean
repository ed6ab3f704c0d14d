import Bourse.HistoryCache
import Bourse.Store.Basic

/-!
# The Books

The books are the store and the history cache in front of it. Everything that the
ledger does to them is a *call*, and each call is one atomic step; what happens
between two calls of one task is up to the others.

A call is answered by a result or by an error of the store. The type of the result
depends on the call.

## Main definitions

* `Books`: the store and the history cache.
* `Call`: what can be asked of the books.
* `Call.Result`: the type of a call's result.
* `Call.perform`: the answer to a call, and the books after it.
* `Method`: the kinds of calls.
-/

namespace Bourse

/-- The store and the history cache in front of it. -/
structure Books where
  store : Store
  histories : HistoryCache
deriving DecidableEq, Repr

/-- What can be asked of the books. -/
inductive Call where
  | readUser (id : String)
  | createUser (user : User)
  | replaceUser (id : String) (version : Nat) (user : User)
  | listUsers (after : Option String) (limit : Nat)
  | appendTrade (id : String) (record : TradeRecord)
  | listTrades (id : String)
  | pruneTrades (id : String) (keep : Nat)
  | putSnapshot (id : String) (snapshot : Snapshot)
  | listSnapshots (id : String)
  | deleteSnapshots (id : String) (cutoff : Timestamp)
  | lookUpHistory (id : String)
  | saveHistory (id : String) (generation : Nat) (trades : List TradeRecord)
  | invalidateHistory (id : String)
deriving DecidableEq, Repr

/-- The kinds of calls, and the wait for a price. -/
inductive Method where
  | readUser
  | createUser
  | replaceUser
  | listUsers
  | appendTrade
  | listTrades
  | pruneTrades
  | putSnapshot
  | listSnapshots
  | deleteSnapshots
  | lookUpHistory
  | saveHistory
  | invalidateHistory
  | price
deriving DecidableEq, Repr

namespace Call

/-- The type of a call's result. -/
abbrev Result : Call → Type
  | readUser _ => Option (Versioned User)
  | createUser _ | replaceUser .. => Versioned User
  | listUsers .. => List User
  | appendTrade .. | putSnapshot .. | invalidateHistory _ => Unit
  | listTrades _ => List TradeRecord
  | pruneTrades .. | deleteSnapshots .. => Nat
  | listSnapshots _ => List Snapshot
  | lookUpHistory _ => HistoryLookup
  | saveHistory .. => Bool

/-- The answer to a call at a time, and the books after it. -/
def perform (b : Books) (now : Nat) : (c : Call) → Except StoreError c.Result × Books
  | readUser id => (.ok (b.store.user? id), b)
  | createUser u =>
    let (r, store) := b.store.createUser u
    (r, { b with store })
  | replaceUser id version u =>
    let (r, store) := b.store.compareAndSet id version u
    (r, { b with store })
  | listUsers after limit => (.ok (b.store.listUsers after limit), b)
  | appendTrade id r => (.ok (), { b with store := b.store.appendTrade id r })
  | listTrades id => (.ok (b.store.trades id), b)
  | pruneTrades id keep =>
    let (n, store) := b.store.pruneTrades id keep
    (.ok n, { b with store })
  | putSnapshot id v => (.ok (), { b with store := b.store.putSnapshot id v })
  | listSnapshots id => (.ok (b.store.snapshots id), b)
  | deleteSnapshots id cutoff =>
    let (n, store) := b.store.deleteSnapshotsBefore id cutoff
    (.ok n, { b with store })
  | lookUpHistory id =>
    let (r, histories) := b.histories.get now id
    (.ok r, { b with histories })
  | saveHistory id generation trades =>
    let (r, histories) := b.histories.save now id generation trades
    (.ok r, { b with histories })
  | invalidateHistory id => (.ok (), { b with histories := b.histories.invalidate id })

/-- The kind of a call. -/
def method : Call → Method
  | readUser _ => .readUser
  | createUser _ => .createUser
  | replaceUser .. => .replaceUser
  | listUsers .. => .listUsers
  | appendTrade .. => .appendTrade
  | listTrades _ => .listTrades
  | pruneTrades .. => .pruneTrades
  | putSnapshot .. => .putSnapshot
  | listSnapshots _ => .listSnapshots
  | deleteSnapshots .. => .deleteSnapshots
  | lookUpHistory _ => .lookUpHistory
  | saveHistory .. => .saveHistory
  | invalidateHistory _ => .invalidateHistory

/-- Whom a call is about: a user, or the cursor of a list of users. -/
def subject : Call → String
  | createUser u => u.id
  | listUsers after _ => after.getD ""
  | readUser id | replaceUser id .. | appendTrade id _ | listTrades id | pruneTrades id _
  | putSnapshot id _ | listSnapshots id | deleteSnapshots id _ | lookUpHistory id
  | saveHistory id .. | invalidateHistory id => id

end Call

end Bourse
