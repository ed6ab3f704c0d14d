/-!
# Decimal Numerals

Writing a natural number in decimal digits and reading it back, on lists of
characters. Everything that prints or reads a number in this library goes
through here, so that the two directions are stated once, against each other.

Three spellings are needed: the plain one without leading zeros (`digits`), a
minimum width (`padded`), and a fixed width that keeps the low digits only
(`fixed`), which is what calendar fields and fractional parts use.

## Main definitions

* `digits`: the decimal digits of a number, without leading zeros.
* `value`: the number that a list of digits denotes.
* `padded`: the digits of a number behind as many zeros as a width asks for.
* `fixed`: exactly so many low digits of a number.
* `hexDigits`: the hexadecimal digits of a number, in lower case.

## Theorems

* `value_append`: reading a concatenation.
* `value_digits`: reading undoes writing.
* `value_replicate_zero`: leading zeros do not count.
* `value_padded`: reading undoes writing at a minimum width.
-/

namespace Bourse.Numeral

-- Powers are those of the core library, whatever else is imported.
attribute [local instance (high)] instPowNat

/-- The character of a digit below sixteen. -/
def digitChar (d : Nat) : Char :=
  Char.ofNat (if d < 10 then 48 + d else 87 + d)

/-- Whether a character is one of the ten ASCII digits. -/
def isDigit (c : Char) : Bool :=
  48 ≤ c.toNat && c.toNat ≤ 57

/-- The number that one digit denotes. -/
def digitValue (c : Char) : Nat :=
  c.toNat - 48

/-- The decimal digits of `n`, most significant first; zero is written `0`. -/
def digits (n : Nat) : List Char :=
  if n < 10 then [digitChar n] else digits (n / 10) ++ [digitChar (n % 10)]
termination_by n
decreasing_by omega

/-- The number that a list of digits denotes; the empty list denotes zero. -/
def value (cs : List Char) : Nat :=
  cs.foldl (fun v c => 10 * v + digitValue c) 0

/-- The digits of `n` behind enough zeros to make up `width` characters. -/
def padded (width n : Nat) : List Char :=
  List.replicate (width - (digits n).length) '0' ++ digits n

/-- The `width` low digits of `n`. -/
def fixed : Nat → Nat → List Char
  | 0, _ => []
  | width + 1, n => fixed width (n / 10) ++ [digitChar (n % 10)]

/-- The hexadecimal digits of `n`, without leading zeros and in lower case. -/
def hexDigits (n : Nat) : List Char :=
  if n < 16 then [digitChar n] else hexDigits (n / 16) ++ [digitChar (n % 16)]
termination_by n
decreasing_by omega

/-- An integer in decimal, with a sign only if it is negative. -/
def integer (n : Int) : List Char :=
  if n < 0 then '-' :: digits n.natAbs else digits n.natAbs

theorem digitValue_digitChar {d : Nat} (h : d < 10) : digitValue (digitChar d) = d := by
  have : d = 0 ∨ d = 1 ∨ d = 2 ∨ d = 3 ∨ d = 4 ∨ d = 5 ∨ d = 6 ∨ d = 7 ∨ d = 8 ∨ d = 9 := by omega
  rcases this with rfl | rfl | rfl | rfl | rfl | rfl | rfl | rfl | rfl | rfl <;> rfl

theorem isDigit_digitChar {d : Nat} (h : d < 10) : isDigit (digitChar d) = true := by
  have : d = 0 ∨ d = 1 ∨ d = 2 ∨ d = 3 ∨ d = 4 ∨ d = 5 ∨ d = 6 ∨ d = 7 ∨ d = 8 ∨ d = 9 := by omega
  rcases this with rfl | rfl | rfl | rfl | rfl | rfl | rfl | rfl | rfl | rfl <;> rfl

/-- Reading from a starting value shifts that value past the digits read. -/
theorem foldl_value (cs : List Char) (v : Nat) :
    cs.foldl (fun v c => 10 * v + digitValue c) v = v * 10 ^ cs.length + value cs := by
  induction cs generalizing v with
  | nil => simp [value]
  | cons c r ih =>
    have hc : value (c :: r) = digitValue c * 10 ^ r.length + value r := by
      simpa [value] using ih (digitValue c)
    rw [List.foldl_cons, ih, hc, List.length_cons, Nat.pow_succ, Nat.add_mul,
      Nat.mul_comm 10 v, Nat.mul_assoc, Nat.mul_comm 10 (10 ^ r.length), Nat.add_assoc]

theorem value_append (a b : List Char) : value (a ++ b) = value a * 10 ^ b.length + value b := by
  rw [value, List.foldl_append, foldl_value]
  rfl

theorem value_digits (n : Nat) : value (digits n) = n := by
  fun_induction digits n with
  | case1 n h => simp [value, digitValue_digitChar h]
  | case2 n h ih =>
    rw [value_append, ih]
    have hd : n % 10 < 10 := Nat.mod_lt _ (by omega)
    simp [value, digitValue_digitChar hd]
    omega

theorem value_replicate_zero (k : Nat) : value (List.replicate k '0') = 0 := by
  induction k with
  | zero => rfl
  | succ k ih => simpa [value, List.replicate_succ, digitValue] using ih

theorem value_padded (width n : Nat) : value (padded width n) = n := by
  rw [padded, value_append, value_replicate_zero, value_digits]
  omega

theorem length_fixed (width n : Nat) : (fixed width n).length = width := by
  induction width generalizing n with
  | zero => rfl
  | succ w ih => simp [fixed, ih]

end Bourse.Numeral
