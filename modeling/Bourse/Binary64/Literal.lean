import Bourse.Json.Basic
import Bourse.Text.Numeral

/-!
# Doubles from Literals

A number literal becomes a double by three steps: its leading digits are taken into
a significand of 64 bits for as long as they fit, the digits left out and the
exponent make a power of ten, and the significand is multiplied or divided by that
power once, in double arithmetic. The result is the nearest double for every literal
of few digits and may be one off for a long one.

## Main definitions

* `absorb`: the digits that fit the significand.
* `scaled?`: a significand times a power of ten.
* `Number.toDouble?`: the double of a literal, unless it is too large.
-/

namespace Bourse

namespace Binary64

/-- Takes digits into a significand while it stays below `2 ^ 64`; also the number of digits
taken and the digits left. -/
def absorb : (significand taken : Nat) → List Char → Nat × Nat × List Char
  | s, n, [] => (s, n, [])
  | s, n, c :: rest =>
    let next := s * 10 + Numeral.digitValue c
    if next < UInt64.size then absorb next (n + 1) rest else (s, n, c :: rest)

/-- The double of a number of 64 bits. -/
def ofWord (n : Nat) : Float := (UInt64.ofNat n).toFloat

/-- The double nearest to a power of ten up to the 308th. -/
def powerOfTen (k : Nat) : Float := Float.ofScientific 1 false k

/-- A double times a power of ten. A large negative power is applied in parts; a result past the
largest double is none. -/
def scaled? (x : Float) (exponent : Int) : Option Float :=
  if 0 ≤ exponent then
    if exponent ≤ 308 then
      let y := x * powerOfTen exponent.toNat
      if y.isInf then none else some y
    else if x == 0.0 then some x
    else none
  else if -308 ≤ exponent then some (x / powerOfTen (-exponent).toNat)
  else if -616 ≤ exponent then
    some (x / powerOfTen 308 / powerOfTen (-exponent - 308).toNat)
  else some 0.0

end Binary64

open Binary64 in
/-- The double of a literal, unless it is too large for one. -/
def Number.toDouble? : Number → Option Float
  | .integer n =>
    if 0 ≤ n ∧ n < UInt64.size then some (ofWord n.toNat)
    else if n.natAbs < UInt64.size then some (-ofWord n.natAbs)
    else
      let (significand, _, rest) := absorb 0 0 (Numeral.digits n.natAbs)
      (scaled? (ofWord significand) rest.length).map (fun x => if n < 0 then -x else x)
  | .real negative whole fraction exponent =>
    let (head, _, rest) := absorb 0 0 whole
    let (significand, taken, _) := absorb head 0 fraction
    let power := (rest.length : Int) - taken + exponent.getD 0
    (scaled? (ofWord significand) power).map (fun x => if negative then -x else x)

end Bourse
