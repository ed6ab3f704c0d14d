import Bourse.Quote
import Bourse.Table
import Bourse.Trading.Error

/-!
# The Quote Cache

The cache holds the last quote of each symbol and the time it came in. Its age is
counted from then, not from the time the feed gave it, so a feed whose clock runs
ahead cannot make an old price look fresh.

A reader asks for a price of less than some age and waits until there is one. An
update enters the quote and then gives a *notice* to all who wait; these are two
steps. A reader notes the number of notices before it looks, so a notice given
between its look and its wait is not lost on it. A reader may be called off.

## Main definitions

* `QuoteCache`: the last quote of each symbol, and the number of notices.
* `QuoteCache.enter`, `notify`, `update`: a quote comes in.
* `QuoteCache.fresh?`: a price of less than some age.
* `QuoteReader`: a reader and where it stands.
* `QuoteReader.step`: its next step.

## Theorems

* `latest?_update`: the last quote after one came in.
-/

namespace Bourse

/-- A quote and the time it came in. -/
structure ReceivedQuote where
  quote : Quote
  receivedAt : Nat
deriving DecidableEq, Repr

/-- The last quote of each symbol, and the number of notices given so far. -/
structure QuoteCache where
  entries : Table String ReceivedQuote
  notices : Nat
deriving DecidableEq, Repr

namespace QuoteCache

/-- The cache before the first quote. -/
def empty : QuoteCache := ⟨.empty, 0⟩

/-- Enters a quote in place of the last one of its symbol. -/
def enter (c : QuoteCache) (now : Nat) (q : Quote) : QuoteCache :=
  { c with entries := c.entries.insert q.symbol ⟨q, now⟩ }

/-- Gives a notice to everyone who waits. -/
def notify (c : QuoteCache) : QuoteCache :=
  { c with notices := c.notices + 1 }

/-- Enters a quote and gives notice. -/
def update (c : QuoteCache) (now : Nat) (q : Quote) : QuoteCache :=
  (c.enter now q).notify

/-- The last quote of a symbol, however old. -/
def latest? (c : QuoteCache) (symbol : String) : Option Quote :=
  (c.entries.get? symbol).map (·.quote)

/-- The last price of a symbol if it came in less than `maxAge` ago. -/
def fresh? (c : QuoteCache) (now : Nat) (symbol : String) (maxAge : Nat) : Option Amount :=
  match c.entries.get? symbol with
  | none => none
  | some e => if now - e.receivedAt < maxAge then some e.quote.price else none

theorem latest?_update (c : QuoteCache) (now : Nat) (q : Quote) (symbol : String) :
    (c.update now q).latest? symbol
      = if compare symbol q.symbol = .eq then some q else c.latest? symbol := by
  unfold latest? update notify enter
  rw [Table.get?_insert]
  split <;> rfl

end QuoteCache

/-- Where a reader of the quote cache stands. -/
inductive QuoteReader.Phase where
  /-- It has noted the number of notices and is about to look. -/
  | looking (seen : Nat)
  /-- It found nothing and waits for a notice past those it noted. -/
  | waiting (seen : Nat)
  | done (result : Except QuoteError Amount)
deriving Repr

/-- A reader that wants a price of a symbol of less than some age. -/
structure QuoteReader where
  symbol : String
  maxAge : Nat
  phase : QuoteReader.Phase
deriving Repr

namespace QuoteReader

/-- A reader that has just noted the number of notices. -/
def start (c : QuoteCache) (symbol : String) (maxAge : Nat) : QuoteReader :=
  ⟨symbol, maxAge, .looking c.notices⟩

/-- The next step of a reader, where it has one. A reader that looks takes a fresh price or waits;
one that waits looks again after a notice, or ends if it is called off. -/
def step (r : QuoteReader) (c : QuoteCache) (now : Nat) (cancelled : Bool) :
    Option QuoteReader :=
  match r.phase with
  | .looking seen =>
    match c.fresh? now r.symbol r.maxAge with
    | some price => some { r with phase := .done (.ok price) }
    | none => some { r with phase := .waiting seen }
  | .waiting seen =>
    if seen ≠ c.notices then some { r with phase := .looking c.notices }
    else if cancelled then some { r with phase := .done (.error .cancelled) }
    else none
  | .done _ => none

/-- The reader after the steps it can take before anything else happens: a look, and one more
look after a notice, and the end if it is called off. -/
def settle (r : QuoteReader) (c : QuoteCache) (now : Nat) (cancelled : Bool) : QuoteReader :=
  let next (r : QuoteReader) := (r.step c now cancelled).getD r
  next (next (next (next r)))

/-- The result of a reader that has ended. -/
def result? (r : QuoteReader) : Option (Except QuoteError Amount) :=
  match r.phase with
  | .done result => some result
  | _ => none

end QuoteReader

end Bourse
