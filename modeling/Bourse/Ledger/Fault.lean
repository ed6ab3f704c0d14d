import Bourse.Ledger.Books
import Bourse.Trading.Error

/-!
# Faults

A fault is something that goes wrong with one call, or with one wait for a price, so
that a ledger can be watched coping with it. Faults wait in a queue. A call takes
the first one that is meant for its kind and for the one it is about.

## Main definitions

* `FaultKind`: what goes wrong.
* `Fault`: a kind, and which call it is for.
* `Fault.take`: the fault for a call, and the queue without it.
-/

namespace Bourse

/-- What goes wrong. -/
inductive FaultKind where
  /-- The store answers with an error about the one the call is about. -/
  | failing (error : String → StoreError)
  /-- There is no price. -/
  | unpriced (error : String → QuoteError)
  /-- No answer ever comes. -/
  | stalling
  /-- The caller breaks off. -/
  | crashing
  /-- The call is made only after a while. -/
  | delaying (ms : Nat)
  /-- The call is made, and the answer comes when it is released. -/
  | holding
  /-- Somebody else makes a call of the same kind first. -/
  | racing

/-- What goes wrong with the first call of a method, of one user if one is named. -/
structure Fault where
  method : Method
  subject : Option String
  kind : FaultKind

namespace Fault

/-- Whether a fault is for a call of a method about somebody. -/
def isFor (f : Fault) (m : Method) (subject : String) : Bool :=
  f.method = m && (f.subject.map (fun s => decide (s = subject))).getD true

/-- The first fault of a queue for a call, and the queue without it. -/
def take (m : Method) (subject : String) : List Fault → Option FaultKind × List Fault
  | [] => (none, [])
  | f :: rest =>
    if f.isFor m subject then (some f.kind, rest)
    else
      let (k, rest) := take m subject rest
      (k, f :: rest)

end Fault

namespace Call

/-- The books after somebody else got ahead of a call: a document was stored once more as it is, or
an account of the same id was opened under another name. -/
def preempt (b : Books) : Call → Books
  | replaceUser id .. =>
    match b.store.user? id with
    | none => b
    | some current =>
      { b with store := (b.store.compareAndSet id current.version current.value).2 }
  | createUser u => { b with store := (b.store.createUser { u with displayName := "racer" }).2 }
  | _ => b

end Call

end Bourse
