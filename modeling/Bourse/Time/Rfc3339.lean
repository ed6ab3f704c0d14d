import Bourse.Text.Blank
import Bourse.Text.Numeral
import Bourse.Time.Calendar
import Bourse.Time.Timestamp

/-!
# Timestamps as Text

Timestamps are written in the form of RFC 3339, in UTC with the letter `Z`. The
fraction of a second has no digits, three, six or nine, as few as show it whole. A
leap second is second 60. A year outside 0 to 9999 has a sign and four digits or
more.

More is read than is written: fields of one digit, blanks before a field or a
separator, a blank instead of the `T`, an offset, the letters `UTC`, a year with a
sign, and fractional digits past the ninth, which are cut off.

## Main definitions

* `Timestamp.rfc3339`: the text of a timestamp.
* `Timestamp.ofRfc3339?`: the timestamp of a text.
-/

namespace Bourse.Timestamp

-- Powers are those of the core library, whatever else is imported.
attribute [local instance (high)] instPowNat

open Text Numeral

/-- A year in four digits, or with its sign if that is not enough. -/
def yearText (y : Int) : List Char :=
  if 0 ≤ y ∧ y ≤ 9999 then fixed 4 y.toNat
  else (if y < 0 then '-' else '+') :: padded 4 y.natAbs

/-- The fraction of a second in as few groups of three digits as show it whole. -/
def fractionText (nanos : Nat) : List Char :=
  if nanos = 0 then []
  else if nanos % 1000000 = 0 then '.' :: fixed 3 (nanos / 1000000)
  else if nanos % 1000 = 0 then '.' :: fixed 6 (nanos / 1000)
  else '.' :: fixed 9 nanos

/-- The text of a timestamp, in UTC. -/
def rfc3339 (t : Timestamp) : String :=
  let date := Date.ofDays (t.seconds / 86400)
  let s := (t.seconds % 86400).toNat
  let leap := 1000000000 ≤ t.nanos
  let second := if leap then s % 60 + 1 else s % 60
  let nanos := if leap then t.nanos - 1000000000 else t.nanos
  String.ofList (yearText date.year ++ '-' :: fixed 2 date.month ++ '-' :: fixed 2 date.day
    ++ 'T' :: fixed 2 (s / 3600) ++ ':' :: fixed 2 (s / 60 % 60) ++ ':' :: fixed 2 second
    ++ fractionText nanos ++ ['Z'])

/-- At least one digit and at most `width`, and the text after them. -/
def readField (width : Nat) (cs : List Char) : Option (Nat × List Char) :=
  let ds := (cs.takeWhile isDigit).take width
  if ds.isEmpty then none else some (value ds, cs.drop ds.length)

/-- A field of at most two digits behind any blanks. -/
def readPair (cs : List Char) : Option (Nat × List Char) :=
  readField 2 (trimStart cs)

/-- A year behind any blanks: with a sign any number of digits, without one at most four. -/
def readYear (cs : List Char) : Option (Int × List Char) :=
  match trimStart cs with
  | '-' :: rest => (readField rest.length rest).map (fun r => (-(r.1 : Int), r.2))
  | '+' :: rest => (readField rest.length rest).map (fun r => ((r.1 : Int), r.2))
  | rest => (readField 4 rest).map (fun r => ((r.1 : Int), r.2))

/-- The text after a separator behind any blanks. -/
def skipMark (mark : Char) (cs : List Char) : Option (List Char) :=
  match trimStart cs with
  | c :: rest => if c = mark then some rest else none
  | [] => none

/-- The fraction of a second in nanoseconds, zero if there is none. -/
def readFraction : List Char → Option (Nat × List Char)
  | '.' :: rest =>
    (readField 9 rest).map (fun r =>
      (r.1 * 10 ^ (9 - (rest.length - r.2.length)), r.2.dropWhile isDigit))
  | rest => some (0, rest)

/-- Exactly two digits. -/
def readTwo : List Char → Option (Nat × List Char)
  | a :: b :: rest =>
    if isDigit a && isDigit b then some (value [a, b], rest) else none
  | _ => none

/-- The offset from UTC in seconds: a `Z`, the letters `UTC`, or signed hours and minutes with
colons or blanks between them. -/
def readOffset (cs : List Char) : Option (Int × List Char) :=
  match cs with
  | 'Z' :: rest | 'z' :: rest => some (0, rest)
  | a :: b :: c :: rest =>
    if a.toUpper = 'U' ∧ b.toUpper = 'T' ∧ c.toUpper = 'C' then some (0, rest)
    else if a = '+' ∨ a = '-' ∨ a = '\u2212' then
      match readTwo (b :: c :: rest) with
      | none => none
      | some (hours, rest) =>
        match readTwo (rest.dropWhile (fun c => c = ':' || isBlank c)) with
        | none => none
        | some (minutes, rest) =>
          let s : Int := hours * 3600 + minutes * 60
          if minutes < 60 ∧ s < 86400 then some (if a = '+' then s else -s, rest) else none
    else none
  | _ => none

/-- Whether the mark between date and time is one of those read. -/
def isTimeMark (c : Char) : Bool := c = 't' || c = 'T' || c = ' '

/-- The timestamp of a text. -/
def ofRfc3339? (s : String) : Option Timestamp := do
  let (year, cs) ← readYear s.toList
  let cs ← skipMark '-' cs
  let (month, cs) ← readPair cs
  let cs ← skipMark '-' cs
  let (day, cs) ← readPair cs
  let cs ← match cs with
    | c :: rest => if isTimeMark c then some rest else none
    | [] => none
  let (hour, cs) ← readPair cs
  let cs ← skipMark ':' cs
  let (minute, cs) ← readPair cs
  let cs ← skipMark ':' cs
  let (second, cs) ← readPair cs
  let (nanos, cs) ← readFraction cs
  let (offset, cs) ← readOffset (trimStart cs)
  if !(trimStart cs).isEmpty then none
  let date : Date := { year, month, day }
  if !date.isValid || 23 < hour || 59 < minute || 60 < second then none
  -- A leap second is the one before it, with nanoseconds past a billion.
  let (second, nanos) := if second = 60 then (59, nanos + 1000000000) else (second, nanos)
  let here := date.toDays * 86400 + (hour * 3600 + minute * 60 + second : Nat)
  let utc := here - offset
  -- The time has to exist as it is written and in UTC.
  if inRange here && inRange utc then some ⟨utc, nanos⟩ else none

end Bourse.Timestamp
