import Bourse.QuoteCache
import Bourse.Stream

/-!
# The Quote Desk

A desk is a quote cache together with a clock, a stop signal and the readers that
wait at it. Time passes only when somebody at the desk waits, and nothing comes in
meanwhile: a reader who does not get its price at once waits in vain.

## Main definitions

* `QuoteDesk`: the cache, the time, the signal and the readers by name.
* `QuoteDesk.ask`: wants a price and waits for it for a limited time.
* `QuoteDesk.spawn`, `poll`: a reader that waits aside, and its result.
-/

namespace Bourse

/-- A quote cache with a clock, a stop signal and readers. -/
structure QuoteDesk where
  cache : QuoteCache
  now : Nat
  stopped : Bool
  readers : Table String QuoteReader

namespace QuoteDesk

/-- A desk before the first quote. -/
def empty : QuoteDesk := ⟨.empty, 0, false, .empty⟩

/-- Lets every reader go on as far as it can. -/
def settle (d : QuoteDesk) : QuoteDesk :=
  { d with readers := d.readers.mapValues (fun _ r => r.settle d.cache d.now d.stopped) }

/-- Quotes come in, one after the other. -/
def update (d : QuoteDesk) (quotes : List Quote) : QuoteDesk :=
  settle { d with cache := quotes.foldl (fun c q => c.update d.now q) d.cache }

/-- Time passes. -/
def wait (d : QuoteDesk) (ms : Nat) : QuoteDesk := { d with now := d.now + ms }

/-- Calls every reader off, now and later. -/
def stop (d : QuoteDesk) : QuoteDesk := settle { d with stopped := true }

/-- Asks for a price of less than some age; none if it does not come in time. Whether the stop
signal ends the wait is up to the asker. -/
def ask (d : QuoteDesk) (symbol : String) (maxAge timeout : Nat) (heedsStop : Bool) :
    Option (Except QuoteError Amount) × QuoteDesk :=
  let r := (QuoteReader.start d.cache symbol maxAge).settle d.cache d.now (heedsStop && d.stopped)
  match r.result? with
  | some result => (some result, d)
  | none => (none, d.wait timeout)

/-- Lets a reader wait aside. -/
def spawn (d : QuoteDesk) (name symbol : String) (maxAge : Nat) : QuoteDesk :=
  settle { d with readers := d.readers.insert name (.start d.cache symbol maxAge) }

/-- What a reader that waits aside has got; a result is handed over once. -/
def poll (d : QuoteDesk) (name : String) : Received (Except QuoteError Amount) × QuoteDesk :=
  match d.readers.get? name with
  | none => (.ended, d)
  | some r =>
    match r.result? with
    | none => (.pending, d)
    | some result => (.item result, { d with readers := d.readers.filter (fun k _ => k ≠ name) })

end QuoteDesk

end Bourse
