import Bourse.Text.Numeral

/-!
# Decimals

Decimal numbers of bounded precision: an integer coefficient of at most 96 bits
and a scale, the number of fractional digits, of at most 28. The scale belongs to
the number, so `2` and `2.00` are equal in value and differ in what is printed.

Every operation computes its exact result first and then *fits* it: among the
scales up to a maximum, the largest one at which the value, rounded once to the
nearest coefficient with a half going to the even neighbour, has a coefficient of
96 bits. Nothing else rounds, and an operation fails only if no scale fits.

## Main definitions

* `roundHalfEven`: a quotient rounded to the nearest integer.
* `Decimal`: coefficient and scale.
* `Decimal.fit?`: the decimal nearest to a quotient, at the largest scale that fits.
* `Decimal.add?`, `sub?`, `mul?`, `div?`: the arithmetic.
* `Decimal.truncatedAt`: the value in units of a power of ten, toward zero.
* `Decimal.text`: the decimal with all its fractional digits.
-/

namespace Bourse

-- Powers are those of the core library, whatever else is imported.
attribute [local instance (high)] instPowNat

/-- `num / den` rounded to the nearest integer, a half going to the even neighbour. -/
def roundHalfEven (num : Int) (den : Nat) : Int :=
  let q := num / den
  let r := num % den
  if 2 * r < den then q
  else if (den : Int) < 2 * r then q + 1
  else if q % 2 = 0 then q
  else q + 1

/-- The number `coefficient · 10 ^ -scale`. -/
structure Decimal where
  coefficient : Int
  scale : Nat
  /-- The coefficient has at most 96 bits. -/
  coefficient_lt : coefficient.natAbs < 2 ^ (96 : Nat) := by decide
  /-- There are at most 28 fractional digits. -/
  scale_le : scale ≤ 28 := by decide
deriving DecidableEq, Repr

namespace Decimal

/-- Zero without fractional digits. -/
def zero : Decimal := { coefficient := 0, scale := 0 }

instance : Inhabited Decimal := ⟨zero⟩

/-- A whole number, without fractional digits. -/
def whole (n : Int) (h : n.natAbs < 2 ^ (96 : Nat)) : Decimal :=
  { coefficient := n, scale := 0, coefficient_lt := h }

/-- The decimal of a coefficient and a scale, where both are in range. -/
def ofParts? (coefficient : Int) (scale : Nat) : Option Decimal :=
  if h : coefficient.natAbs < 2 ^ (96 : Nat) ∧ scale ≤ 28 then some ⟨coefficient, scale, h.1, h.2⟩
  else none

/-- The decimal nearest to `num / den` at the largest scale up to `scale` that has room for it. -/
def fit? (num : Int) (den : Nat) : (scale : Nat) → Option Decimal
  | 0 => ofParts? (roundHalfEven num den) 0
  | scale + 1 =>
    match ofParts? (roundHalfEven (num * 10 ^ (scale + 1)) den) (scale + 1) with
    | some d => some d
    | none => fit? num den scale

/-- Whether the value is zero, at whatever scale. -/
def isZero (d : Decimal) : Bool := d.coefficient = 0

/-- Whether the value is below zero. -/
def isNegative (d : Decimal) : Bool := d.coefficient < 0

/-- The opposite value at the same scale. -/
def neg (d : Decimal) : Decimal :=
  { coefficient := -d.coefficient
    scale := d.scale
    coefficient_lt := by rw [Int.natAbs_neg]; exact d.coefficient_lt
    scale_le := d.scale_le }

instance : Neg Decimal := ⟨neg⟩

/-- The sum. A zero leaves the other operand as it is, its scale included. -/
def add? (a b : Decimal) : Option Decimal :=
  if a.coefficient = 0 then some b
  else if b.coefficient = 0 then some a
  else
    -- Both coefficients over one denominator, which is exact.
    fit? (a.coefficient * 10 ^ b.scale + b.coefficient * 10 ^ a.scale)
      (10 ^ (a.scale + b.scale)) (max a.scale b.scale)

/-- The difference. -/
def sub? (a b : Decimal) : Option Decimal :=
  a.add? (-b)

/-- The product; a product with zero has no fractional digits. -/
def mul? (a b : Decimal) : Option Decimal :=
  if a.coefficient = 0 ∨ b.coefficient = 0 then some zero
  else
    fit? (a.coefficient * b.coefficient) (10 ^ (a.scale + b.scale)) (min (a.scale + b.scale) 28)

/-- The quotient, with as many digits as fit. There is none by zero. -/
def div? (a b : Decimal) : Option Decimal :=
  if b.coefficient = 0 then none
  else if a.coefficient = 0 then some zero
  else
    fit? (a.coefficient * 10 ^ b.scale * b.coefficient.sign)
      (b.coefficient.natAbs * 10 ^ a.scale) 28

/-- The order of the values. -/
def compare (a b : Decimal) : Ordering :=
  Ord.compare (a.coefficient * 10 ^ b.scale) (b.coefficient * 10 ^ a.scale)

/-- The value in units of `10 ^ -digits`, truncated toward zero. -/
def truncatedAt (digits : Nat) (d : Decimal) : Int :=
  (d.coefficient * 10 ^ digits).tdiv (10 ^ d.scale)

/-- The decimal with exactly `scale` fractional digits. -/
def text (d : Decimal) : String :=
  let m := d.coefficient.natAbs
  let sign := if d.coefficient < 0 then ['-'] else []
  let whole := Numeral.digits (m / 10 ^ d.scale)
  let fraction := if d.scale = 0 then [] else '.' :: Numeral.fixed d.scale m
  String.ofList (sign ++ whole ++ fraction)

end Decimal

end Bourse
