import Bourse.Text.Numeral

/-!
# Shortest Decimals of Doubles

A finite double stands for all reals that round to it. Among the decimals in that
interval its shortest ones are those with the fewest digits, and of these the
nearest to the double is the one to write. The search is exact: an interval with
rational ends is scaled, for one digit, two digits and so on, to a grid of powers
of ten, and the two neighbours of the double on that grid are tried.

## Main definitions

* `Span`: a positive double between the ends of its interval, over one denominator.
* `shortest`: the digits and the decimal exponent of the nearest shortest decimal.
* `Style`: where positional notation ends, and how an exponent is written.
* `literal`: the parts of a double's text in a style.
* `text`: a double as text of its own.
-/

namespace Bourse.Binary64

-- Powers are those of the core library, whatever else is imported.
attribute [local instance (high)] instPowNat

/-- A positive value between the ends of the interval that rounds to it, as numerators over one
denominator. The ends themselves belong to the interval if `closed`. -/
structure Span where
  low : Nat
  value : Nat
  high : Nat
  den : Nat
  closed : Bool
deriving Repr

/-- The interval of the double with significand `m` and exponent `e`; the neighbour below is nearer
when the significand is the smallest of its exponent. -/
def Span.ofParts (m : Nat) (e : Int) (narrow : Bool) : Span :=
  let up := 2 ^ (e - 2).toNat
  let den := 2 ^ (2 - e).toNat
  { low := (4 * m - if narrow then 1 else 2) * up
    value := 4 * m * up
    high := (4 * m + 2) * up
    den
    closed := m % 2 = 0 }

/-- The interval of a positive finite double, from its bits without the sign. -/
def Span.ofBits (bits : Nat) : Span :=
  let fraction := bits % 2 ^ (52 : Nat)
  let exponent : Nat := bits / 2 ^ (52 : Nat)
  if exponent = 0 then .ofParts fraction (-1074) false
  else .ofParts (2 ^ (52 : Nat) + fraction) ((exponent : Int) - 1075) (fraction = 0 && 1 < exponent)

/-- The least `k` from a start on at which `num · 10 ^ k` reaches `den`, tried `fuel` times. -/
def lift (num den : Nat) : (fuel k : Nat) → Nat
  | 0, k => k
  | fuel + 1, k => if den ≤ num * 10 ^ k then k else lift num den fuel (k + 1)

/-- How many digits of `num / den` stand before the point; below zero for zeros behind it. A
positive double is above `10 ^ -324`. -/
def magnitude (num den : Nat) : Int :=
  let whole := num / den
  if 0 < whole then (Numeral.digits whole).length
  else 1 - (lift num den 325 1 : Int)

/-- Of the two neighbours of the value with `count` digits the nearer one inside the interval, as
digits and exponent. A tie goes to the even one. -/
def candidate? (s : Span) (point : Int) (count : Nat) : Option (Nat × Int) :=
  let k := point - count
  -- the grid of step `10 ^ k` over one denominator
  let step := 10 ^ k.toNat * s.den
  let up := 10 ^ (-k).toNat
  let below := s.value * up / step
  let inside (n : Nat) : Bool :=
    if s.closed then s.low * up ≤ n * step && n * step ≤ s.high * up
    else s.low * up < n * step && n * step < s.high * up
  let down := s.value * up - below * step
  let above := (below + 1) * step - s.value * up
  let low := inside below && 0 < below
  let high := inside (below + 1)
  -- the upper neighbour may be the next power of ten, which has one digit
  let next := if below + 1 = 10 ^ count then (1, point) else (below + 1, k)
  if low && high then
    if down < above || (down = above && below % 2 = 0) then some (below, k)
    else some next
  else if low then some (below, k)
  else if high then some next
  else none

/-- The first candidate with `count` digits or more, tried `fuel` times. -/
def search (s : Span) (point : Int) : (fuel count : Nat) → Nat × Int
  | 0, _ => (s.value / s.den, 0)
  | fuel + 1, count =>
    match candidate? s point count with
    | some r => r
    | none => search s point fuel (count + 1)

/-- The digits and the exponent of the shortest decimal, the nearest of them. Seventeen digits are
always enough. -/
def shortest (s : Span) : Nat × Int :=
  search s (magnitude s.value s.den) 17 1

/-- How a double is laid out as text. -/
structure Style where
  /-- The smallest exponent of the leading digit that is written positionally. -/
  lowest : Int
  /-- The largest exponent of the leading digit that is written positionally. -/
  highest : Int
deriving Repr

/-- A double as the parts of a literal: the digits on either side of the point and the exponent. A
positional literal has at least one fractional digit. -/
def parts (style : Style) (digits : Nat) (exponent : Int) :
    List Char × List Char × Option Int :=
  let ds := Numeral.digits digits
  let lead := exponent + ds.length - 1
  if style.lowest ≤ lead ∧ lead ≤ style.highest then
    if 0 ≤ exponent then (ds ++ List.replicate exponent.toNat '0', ['0'], none)
    else if 0 ≤ lead then
      (ds.take (lead + 1).toNat, ds.drop (lead + 1).toNat, none)
    else (['0'], List.replicate (-lead - 1).toNat '0' ++ ds, none)
  else (ds.take 1, ds.drop 1, some lead)

/-- The sign, and the parts of the literal, of a finite double. -/
def literal (style : Style) (x : Float) : Bool × List Char × List Char × Option Int :=
  let bits := x.toBits.toNat
  let negative := 2 ^ (63 : Nat) ≤ bits
  let positive := bits % 2 ^ (63 : Nat)
  if positive = 0 then (negative, ['0'], ['0'], none)
  else
    let (digits, exponent) := shortest (Span.ofBits positive)
    (negative, parts style digits exponent)

/-- A finite double as text of its own: positional from `10 ^ -4` to below `10 ^ 16`, and with an
exponent outside. -/
def text (x : Float) : String :=
  let (negative, whole, fraction, exponent) := literal ⟨-4, 15⟩ x
  let sign := if negative then ['-'] else []
  let point := if fraction.isEmpty then [] else '.' :: fraction
  let power := match exponent with
    | none => []
    | some e => 'e' :: Numeral.integer e
  String.ofList (sign ++ whole ++ point ++ power)

end Bourse.Binary64
