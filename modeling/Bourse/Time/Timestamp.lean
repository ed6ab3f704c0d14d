/-!
# Points in Time

A timestamp is a second since the start of 1970 and nanoseconds within it. During
a leap second the nanoseconds run on past a billion, so the order of timestamps is
the order of the pairs.

Timestamps cover the years -262143 to 262142. Moving one past either end has no
result. A move out of a leap second counts from the end of the second it extends:
one that goes on leaves it behind, one that goes back first undoes it.

## Main definitions

* `Timestamp`: seconds and nanoseconds.
* `Timestamp.shift?`: moved by a span of nanoseconds.
* `Timestamp.sinceEpoch?`: the distance from 1970 in nanoseconds, in 64 bits.
* `Timestamp.startOfHour`: the start of the hour around a timestamp.

## Theorems

* `startOfHour_of_far`: a timestamp whose distance has more bits is its own start.
-/

namespace Bourse

/-- A second since 1970 and nanoseconds within it; past a billion during a leap second. -/
structure Timestamp where
  seconds : Int
  nanos : Nat
deriving DecidableEq, Repr, Inhabited

namespace Timestamp

/-- The first second there is. -/
def minSeconds : Int := -8334601228800

/-- The last second there is. -/
def maxSeconds : Int := 8210266876799

/-- Whether the second exists. -/
def inRange (seconds : Int) : Bool :=
  minSeconds ≤ seconds && seconds ≤ maxSeconds

instance : Ord Timestamp where
  compare := compareLex (compareOn Timestamp.seconds) (compareOn Timestamp.nanos)

instance : Std.TransOrd Timestamp :=
  inferInstanceAs (Std.TransCmp (compareLex (compareOn Timestamp.seconds) (compareOn Timestamp.nanos)))

instance : Std.LawfulEqOrd Timestamp where
  eq_of_compare {a b} h := by
    have h' : compareLex (compareOn Timestamp.seconds) (compareOn Timestamp.nanos) a b = .eq := h
    rw [compareLex_eq_eq] at h'
    have h1 : a.seconds = b.seconds := Std.LawfulEqCmp.eq_of_compare h'.1
    have h2 : a.nanos = b.nanos := Std.LawfulEqCmp.eq_of_compare h'.2
    cases a
    cases b
    simp_all
  compare_self := Std.ReflCmp.compare_self

/-- Whether `a` comes before `b`. -/
def before (a b : Timestamp) : Bool :=
  compare a b = .lt

/-- Moved by whole seconds and by less than a second of nanoseconds of the same sign. -/
def move (t : Timestamp) (seconds nanos : Int) : Timestamp :=
  let leap := (1000000000 : Int)
  -- A leap second is left at one of its ends, and the count goes on from the second there.
  let (s, n, stays) :=
    if t.nanos < 1000000000 then (t.seconds, (t.nanos : Int), false)
    else if 0 < seconds ∨ (0 < nanos ∧ 2 * leap - nanos ≤ t.nanos) then
      (t.seconds, t.nanos - leap, false)
    else if seconds < 0 then (t.seconds + 1, t.nanos - leap, false)
    else (t.seconds, (t.nanos : Int), true)
  let total := n + nanos
  if stays then ⟨s, total.toNat⟩
  else if total < 0 then ⟨s + seconds - 1, (total + leap).toNat⟩
  else if leap ≤ total then ⟨s + seconds + 1, (total - leap).toNat⟩
  else ⟨s + seconds, total.toNat⟩

/-- Moved by a span of nanoseconds, unless the result lies beyond the ends of time. -/
def shift? (t : Timestamp) (span : Int) : Option Timestamp :=
  let r := t.move (span.tdiv 1000000000) (span.tmod 1000000000)
  if inRange r.seconds then some r else none

/-- Whether a number fits 64 bits with a sign. -/
def fits (n : Int) : Bool :=
  Int64.minValue.toInt ≤ n && n ≤ Int64.maxValue.toInt

/-- The distance from the start of 1970 in nanoseconds, where 64 bits hold it. -/
def sinceEpoch? (t : Timestamp) : Option Int :=
  let whole := (if t.seconds < 0 then t.seconds + 1 else t.seconds) * 1000000000
  let total := t.seconds * 1000000000 + t.nanos
  if fits whole && fits total then some total else none

/-- Nanoseconds in one hour. -/
def hour : Int := 3600 * 1000000000

/-- The start of the hour around a timestamp. One too far from 1970 for its distance to be
counted in 64 bits is left as it is. -/
def startOfHour (t : Timestamp) : Timestamp :=
  match t.sinceEpoch? with
  | none => t
  | some n =>
    let past := n % hour
    if past = 0 then t else (t.shift? (-past)).getD t

theorem startOfHour_of_far {t : Timestamp} (h : t.sinceEpoch? = none) : t.startOfHour = t := by
  simp [startOfHour, h]

/-- The timestamp of a number of milliseconds since 1970, where it exists. -/
def ofMillis? (ms : Int) : Option Timestamp :=
  let s := ms / 1000
  if inRange s then some ⟨s, (ms % 1000).toNat * 1000000⟩ else none

end Timestamp

end Bourse
