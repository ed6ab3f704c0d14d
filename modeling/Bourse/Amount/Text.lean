import Bourse.Amount.Basic
import Bourse.Text.Quoted

/-!
# Amounts as Text

The text of an amount has a sign only if it is negative, the whole units, a point
and nine fractional digits. More is read than is written: a plus sign, any number
of digits on either side of the point, one side or the point missing. Fractional
digits past the ninth are cut off.

## Main definitions

* `DecimalText`: the parts of a decimal numeral.
* `DecimalText.read?`: the parts of a text, where it is one.
* `Amount.parse`: the amount that a text denotes.
* `Amount.text`: the text of an amount.
* `AmountError.message`: the wording of an error.
-/

namespace Bourse

-- Powers are those of the core library, whatever else is imported.
attribute [local instance (high)] instPowNat

/-- The wording of an error. -/
def AmountError.message : AmountError → String
  | .malformed s => "malformed decimal amount: " ++ Text.quoted s
  | .outOfRange => "amount out of range"
  | .divisionByZero => "division by zero"

/-- The parts of a decimal numeral: its sign and the digits on either side of the point. -/
structure DecimalText where
  negative : Bool
  whole : List Char
  fraction : List Char
deriving DecidableEq, Repr

namespace DecimalText

/-- The sign in front of a text, and the text after it. -/
def splitSign : List Char → Bool × List Char
  | '-' :: rest => (true, rest)
  | '+' :: rest => (false, rest)
  | rest => (false, rest)

/-- The parts of a text: at most one sign, digits, at most one point, and at least one digit. -/
def read? (cs : List Char) : Option DecimalText :=
  let (negative, body) := splitSign cs
  let whole := body.takeWhile (· ≠ '.')
  let fraction := (body.dropWhile (· ≠ '.')).drop 1
  if whole.isEmpty && fraction.isEmpty then none
  else if whole.all Numeral.isDigit && fraction.all Numeral.isDigit then
    some ⟨negative, whole, fraction⟩
  else none

/-- The first nine fractional digits as a number of billionths. -/
def nanos (t : DecimalText) : Nat :=
  let kept := t.fraction.take 9
  Numeral.value kept * 10 ^ (9 - kept.length)

end DecimalText

namespace Amount

/-- The amount that a text denotes, truncated toward zero at nine fractional digits. -/
def parse (s : String) : Except AmountError Amount :=
  match DecimalText.read? s.toList with
  | none => .error (.malformed s)
  | some t =>
    let units := Numeral.value t.whole
    if 2 ^ (63 : Nat) ≤ units then .error .outOfRange
    else if t.negative then
      .ok ⟨Int64.ofInt (-units), Int32.ofInt (-t.nanos)⟩
    else
      .ok ⟨Int64.ofInt units, Int32.ofInt t.nanos⟩

/-- The text of an amount: a sign if either part is negative, the units, and the nanos in at
least nine digits. -/
def text (a : Amount) : String :=
  let sign := if a.isNegative then ['-'] else []
  String.ofList (sign ++ Numeral.digits a.units.toInt.natAbs ++ '.' ::
    Numeral.padded 9 a.nanos.toInt.natAbs)

end Amount

end Bourse
