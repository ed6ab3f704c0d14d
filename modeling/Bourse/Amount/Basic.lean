import Bourse.Decimal

/-!
# Amounts

An amount of money or of a traded asset: whole units and billionths of a unit
(*nanos*), both carrying the sign of the value. An amount between minus one and
one keeps its sign in the nanos alone.

The two fields are machine integers, so the type also holds pairs that are no
regular amount: nanos past a billion, or parts of opposite signs. Those come in
from outside and are told apart by `isValid`; every result computed here is valid.

Arithmetic goes through `Decimal` and back, truncating toward zero at the ninth
fractional digit. `inNanos` is the exact value as one integer, which is what the
laws of the arithmetic are stated about.

## Main definitions

* `Amount`: units and nanos.
* `Amount.inNanos`: the exact value, in nanos.
* `Amount.isValid`: nanos in range and signs that agree.
* `Amount.toDecimal`, `Amount.ofDecimal`: the two conversions.
* `Amount.add`, `sub`, `mul`, `div`: checked arithmetic.
* `Amount.compare`: the order of the values.
* `AmountError`: why an amount could not be had.
-/

namespace Bourse

-- Powers are those of the core library, whatever else is imported.
attribute [local instance (high)] instPowNat

/-- Nanos in one unit. -/
def nanosPerUnit : Nat := 10 ^ (9 : Nat)

/-- Why an amount could not be read or computed. -/
inductive AmountError where
  /-- The text is no decimal number. -/
  | malformed (text : String)
  /-- The whole part does not fit the units. -/
  | outOfRange
  /-- The divisor was zero. -/
  | divisionByZero
deriving DecidableEq, Repr

/-- Whole units and billionths of a unit. -/
structure Amount where
  units : Int64
  nanos : Int32
deriving DecidableEq, Repr

namespace Amount

/-- No units and no nanos. -/
def zero : Amount := ⟨0, 0⟩

instance : Inhabited Amount := ⟨zero⟩

/-- A number of whole units. -/
def ofUnits (units : Int64) : Amount := ⟨units, 0⟩

/-- The exact value, in nanos. -/
def inNanos (a : Amount) : Int :=
  a.units.toInt * nanosPerUnit + a.nanos.toInt

/-- Whether both parts are zero. -/
def isZero (a : Amount) : Bool :=
  a.units = 0 && a.nanos = 0

/-- Whether either part is below zero. -/
def isNegative (a : Amount) : Bool :=
  a.units < 0 || a.nanos < 0

/-- Whether the nanos are less than one unit and both parts agree on the sign. -/
def isValid (a : Amount) : Bool :=
  a.nanos.toInt.natAbs < nanosPerUnit
    && !((0 < a.units && a.nanos < 0) || (a.units < 0 && 0 < a.nanos))

/-- The amount of a value in nanos, unless its whole part does not fit the units. -/
def ofNanos (n : Int) : Except AmountError Amount :=
  let units := n.tdiv nanosPerUnit
  if -(2 ^ (63 : Nat)) ≤ units ∧ units < 2 ^ (63 : Nat) then
    .ok ⟨Int64.ofInt units, Int32.ofInt (n.tmod nanosPerUnit)⟩
  else
    .error .outOfRange

/-- The units have room in a decimal. -/
theorem natAbs_units_lt (a : Amount) : a.units.toInt.natAbs < 2 ^ (96 : Nat) := by
  have hhigh := a.units.toInt_lt
  have hlow := a.units.le_toInt
  omega

/-- So has the value in nanos. -/
theorem natAbs_inNanos_lt (a : Amount) : a.inNanos.natAbs < 2 ^ (96 : Nat) := by
  have hhigh := a.units.toInt_lt
  have hlow := a.units.le_toInt
  have hnanosHigh := a.nanos.toInt_lt
  have hnanosLow := a.nanos.le_toInt
  unfold inNanos nanosPerUnit
  omega

/-- The decimal of the same value. It has nine fractional digits unless the nanos are zero
beside units that are not. -/
def toDecimal (a : Amount) : Decimal :=
  if a.nanos = 0 ∧ a.units ≠ 0 then .whole a.units.toInt a.natAbs_units_lt
  else
    { coefficient := a.inNanos, scale := 9, coefficient_lt := a.natAbs_inNanos_lt }

/-- The amount of a decimal, truncated toward zero at nine fractional digits. -/
def ofDecimal (d : Decimal) : Except AmountError Amount :=
  ofNanos (d.truncatedAt 9)

/-- The amount of a decimal result, where none means that it was out of range. -/
def ofResult : Option Decimal → Except AmountError Amount
  | none => .error .outOfRange
  | some d => ofDecimal d

/-- The sum. -/
def add (a b : Amount) : Except AmountError Amount :=
  ofResult (a.toDecimal.add? b.toDecimal)

/-- The difference. -/
def sub (a b : Amount) : Except AmountError Amount :=
  ofResult (a.toDecimal.sub? b.toDecimal)

/-- The product. -/
def mul (a b : Amount) : Except AmountError Amount :=
  ofResult (a.toDecimal.mul? b.toDecimal)

/-- The quotient. -/
def div (a b : Amount) : Except AmountError Amount :=
  if b.isZero then .error .divisionByZero
  else ofResult (a.toDecimal.div? b.toDecimal)

/-- The opposite amount, unless a part is the smallest of its width. -/
def neg? (a : Amount) : Option Amount :=
  if a.units = Int64.minValue ∨ a.nanos = Int32.minValue then none
  else some ⟨-a.units, -a.nanos⟩

/-- The order of the values, valid or not. -/
def compare (a b : Amount) : Ordering :=
  a.toDecimal.compare b.toDecimal

end Amount

end Bourse
