import Bourse.Portfolio.Basic

/-!
# Users

The document of one account: who it belongs to, when it was opened, its portfolio
and its trade statistics. A snapshot records what a portfolio was worth at the
start of an hour.

## Main definitions

* `User`: the document of an account.
* `User.opened`: a new account.
* `Snapshot`: the value of a portfolio at one time.
* `Versioned`: a document and the number of its writes.
-/

namespace Bourse

/-- The document of one account. -/
structure User where
  id : String
  displayName : String
  profileUrl : String
  createdAt : Timestamp
  portfolio : Portfolio
  tradeStats : TradeStats
deriving DecidableEq, Repr

/-- A new account, before its first trade. -/
def User.opened (id displayName profileUrl : String) (createdAt : Timestamp)
    (portfolio : Portfolio) : User :=
  { id, displayName, profileUrl, createdAt, portfolio, tradeStats := .empty }

/-- What a portfolio was worth at one time. -/
structure Snapshot where
  timestamp : Timestamp
  value : Amount
deriving DecidableEq, Repr

/-- A document and the number of its writes, which a writer must know to replace it. -/
structure Versioned (α : Type) where
  version : Nat
  value : α
deriving DecidableEq, Repr

end Bourse
