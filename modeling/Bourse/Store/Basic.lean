import Bourse.User

/-!
# The Store

The store keeps three kinds of data under the id of a user: the user's document
with its version, the trade log, and the history of snapshots. Each operation is one
atomic step. A document is replaced only by a writer that knows its version, so of
two writers that read the same version one fails.

The trade log is kept oldest first and listed newest first. A history has at most one
snapshot for each time and is in ascending order.

## Main definitions

* `Store`: documents, logs and histories.
* `Store.createUser`, `compareAndSet`, `listUsers`: documents.
* `Store.appendTrade`, `trades`, `pruneTrades`: logs.
* `Store.putSnapshot`, `snapshots`, `deleteSnapshotsBefore`: histories.
* `StoreError`: why an operation failed.
-/

namespace Bourse

/-- Why a store or a cache failed. -/
inductive StoreError where
  | notFound (id : String)
  | alreadyExists (id : String)
  /-- The document changed since it was read. -/
  | conflict (id : String)
  | backend (detail : String)
deriving DecidableEq, Repr

/-- The wording of an error. -/
def StoreError.message : StoreError → String
  | .notFound s => "not found: " ++ s
  | .alreadyExists s => "already exists: " ++ s
  | .conflict s => "version conflict on " ++ s
  | .backend s => "store backend error: " ++ s

/-- Documents, trade logs and snapshot histories by user. -/
structure Store where
  users : Table String (Versioned User)
  /-- Each log, oldest entry first. -/
  logs : Table String (List TradeRecord)
  histories : Table String (Table Timestamp Amount)
deriving DecidableEq, Repr

namespace Store

/-- The store without data. -/
def empty : Store := ⟨.empty, .empty, .empty⟩

/-- The document of a user. -/
def user? (s : Store) (id : String) : Option (Versioned User) :=
  s.users.get? id

/-- Stores a new document under its id, at version one. -/
def createUser (s : Store) (u : User) : Except StoreError (Versioned User) × Store :=
  match s.user? u.id with
  | some _ => (.error (.alreadyExists u.id), s)
  | none =>
    let stored : Versioned User := ⟨1, u⟩
    (.ok stored, { s with users := s.users.insert u.id stored })

/-- Replaces the document under an id if its version is the expected one. -/
def compareAndSet (s : Store) (id : String) (expected : Nat) (u : User) :
    Except StoreError (Versioned User) × Store :=
  match s.user? id with
  | none => (.error (.notFound id), s)
  | some current =>
    if current.version = expected then
      let stored : Versioned User := ⟨current.version + 1, u⟩
      (.ok stored, { s with users := s.users.insert id stored })
    else (.error (.conflict id), s)

/-- Whether a key comes after a cursor; every key comes after none. -/
def isPast (after : Option String) (key : String) : Bool :=
  match after with
  | none => true
  | some a => compare a key = .lt

/-- The first users past a cursor, by id. -/
def listUsers (s : Store) (after : Option String) (limit : Nat) : List User :=
  -- The cursor is compared with keys, and the page is ordered by the ids in the documents.
  let past := s.users.entries.filterMap (fun e => if isPast after e.1 then some e.2.value else none)
  (past.mergeSort (fun a b => (compare a.id b.id).isLE)).take limit

/-- The log of a user, oldest entry first. -/
def log (s : Store) (id : String) : List TradeRecord :=
  (s.logs.get? id).getD []

/-- Adds an entry to the log of a user. -/
def appendTrade (s : Store) (id : String) (r : TradeRecord) : Store :=
  { s with logs := s.logs.insert id (s.log id ++ [r]) }

/-- The log of a user, newest entry first. -/
def trades (s : Store) (id : String) : List TradeRecord :=
  (s.log id).reverse

/-- Keeps the newest entries of a log; also the number of entries removed. -/
def pruneTrades (s : Store) (id : String) (keep : Nat) : Nat × Store :=
  match s.logs.get? id with
  | none => (0, s)
  | some l =>
    let excess := l.length - keep
    (excess, { s with logs := s.logs.insert id (l.drop excess) })

/-- The history of a user by time. -/
def history (s : Store) (id : String) : Table Timestamp Amount :=
  (s.histories.get? id).getD .empty

/-- Adds a snapshot to the history of a user, in place of one of the same time. -/
def putSnapshot (s : Store) (id : String) (v : Snapshot) : Store :=
  { s with histories := s.histories.insert id ((s.history id).insert v.timestamp v.value) }

/-- The history of a user, oldest snapshot first. -/
def snapshots (s : Store) (id : String) : List Snapshot :=
  (s.history id).entries.map (fun e => ⟨e.1, e.2⟩)

/-- Removes the snapshots before a time; also the number of them. -/
def deleteSnapshotsBefore (s : Store) (id : String) (cutoff : Timestamp) : Nat × Store :=
  match s.histories.get? id with
  | none => (0, s)
  | some h =>
    let kept := h.filter (fun t _ => !t.before cutoff)
    (h.size - kept.size, { s with histories := s.histories.insert id kept })

end Store

end Bourse
