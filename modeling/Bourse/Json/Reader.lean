import Bourse.Json.Basic
import Bourse.Text.Numeral

/-!
# Reading JSON

A reader takes what it understands off the front of the text and returns the
rest. Blanks are the four that the format allows. A number has no leading zeros,
and a fraction or an exponent has at least one digit. Control characters stand in
no string. An escaped surrogate pair is one character; half of a pair leaves the
literal without a text but is no error of syntax.

Values nest, so the reader of values takes a bound on the depth; the length of the
text is always enough, since each level has a bracket.

## Main definitions

* `Json.readString`, `Json.readNumber`, `Json.readValue`: the readers.
* `Json.parse`: the value of a whole text.
-/

namespace Bourse

namespace Json

/-- Whether a character is one of the blanks between tokens. -/
def isSpace (c : Char) : Bool :=
  c = ' ' || c = '\n' || c = '\t' || c = '\r'

/-- Without the blanks in front. -/
def skipSpace (cs : List Char) : List Char :=
  cs.dropWhile isSpace

/-- The value of a hexadecimal digit in either case. -/
def hexValue? (c : Char) : Option Nat :=
  let n := c.toNat
  if 48 ≤ n ∧ n ≤ 57 then some (n - 48)
  else if 97 ≤ n ∧ n ≤ 102 then some (n - 87)
  else if 65 ≤ n ∧ n ≤ 70 then some (n - 55)
  else none

/-- The unit that four hexadecimal digits name. -/
def hexUnit? (a b c d : Char) : Option Nat :=
  match hexValue? a, hexValue? b, hexValue? c, hexValue? d with
  | some a, some b, some c, some d => some (((a * 16 + b) * 16 + c) * 16 + d)
  | _, _, _, _ => none

/-- The character that a letter names after a backslash. -/
def simpleEscape? (c : Char) : Option Char :=
  if c = '"' then some '"'
  else if c = '\\' then some '\\'
  else if c = '/' then some '/'
  else if c = 'b' then some '\x08'
  else if c = 'f' then some '\x0c'
  else if c = 'n' then some '\n'
  else if c = 'r' then some '\r'
  else if c = 't' then some '\t'
  else none

/-- One unit of a string literal: a character, or a number of sixteen bits from an escape. -/
inductive Piece where
  | char (c : Char)
  | unit (n : Nat)
deriving DecidableEq, Repr

/-- The pieces of a string literal up to its closing quote, and the text after it. -/
def readPieces : List Char → Option (List Piece × List Char)
  | [] => none
  | '"' :: rest => some ([], rest)
  | '\\' :: 'u' :: a :: b :: c :: d :: rest =>
    match hexUnit? a b c d, readPieces rest with
    | some n, some (l, after) => some (.unit n :: l, after)
    | _, _ => none
  | '\\' :: e :: rest =>
    match simpleEscape? e, readPieces rest with
    | some c, some (l, after) => some (.char c :: l, after)
    | _, _ => none
  | c :: rest =>
    if c.toNat < 32 ∨ c = '\\' then none
    else (readPieces rest).map (fun r => (.char c :: r.1, r.2))

/-- Whether a unit is the first half of a surrogate pair. -/
def isHigh (n : Nat) : Bool := 0xD800 ≤ n && n < 0xDC00

/-- Whether a unit is the second half of a surrogate pair. -/
def isLow (n : Nat) : Bool := 0xDC00 ≤ n && n < 0xE000

/-- The characters of some pieces, unless half of a surrogate pair stands alone. -/
def assemble : List Piece → Option (List Char)
  | [] => some []
  | .char c :: rest => (assemble rest).map (c :: ·)
  | .unit hi :: .unit lo :: rest =>
    if isHigh hi then
      if isLow lo then
        (assemble rest).map (Char.ofNat (0x10000 + (hi - 0xD800) * 0x400 + (lo - 0xDC00)) :: ·)
      else none
    else if isLow hi then none
    else (assemble (.unit lo :: rest)).map (Char.ofNat hi :: ·)
  | .unit n :: rest =>
    if isHigh n || isLow n then none
    else (assemble rest).map (Char.ofNat n :: ·)

/-- The text of a string literal whose opening quote is read, and the text after it. -/
def readString (cs : List Char) : Option (Option String × List Char) :=
  (readPieces cs).map (fun r => ((assemble r.1).map String.ofList, r.2))

/-- The digits in front of a text, where there is at least one. -/
def readDigits (cs : List Char) : Option (List Char × List Char) :=
  let ds := cs.takeWhile Numeral.isDigit
  if ds.isEmpty then none else some (ds, cs.dropWhile Numeral.isDigit)

/-- The fraction in front of a text; empty if there is none. -/
def readFraction : List Char → Option (List Char × List Char)
  | '.' :: rest => readDigits rest
  | rest => some ([], rest)

/-- The exponent in front of a text, after its letter. -/
def readExponentDigits (cs : List Char) : Option (Int × List Char) :=
  match cs with
  | '-' :: rest => (readDigits rest).map (fun r => (-(Numeral.value r.1 : Int), r.2))
  | '+' :: rest => (readDigits rest).map (fun r => ((Numeral.value r.1 : Int), r.2))
  | rest => (readDigits rest).map (fun r => ((Numeral.value r.1 : Int), r.2))

/-- The exponent in front of a text, if there is one. -/
def readExponent : List Char → Option (Option Int × List Char)
  | 'e' :: rest | 'E' :: rest => (readExponentDigits rest).map (fun r => (some r.1, r.2))
  | rest => some (none, rest)

/-- The literal of a number from its parts. -/
def literalOf (negative : Bool) (whole fraction : List Char) (exponent : Option Int) : Number :=
  let n := Numeral.value whole
  -- An integer cannot show the sign of zero, so minus zero is none.
  if fraction.isEmpty && exponent.isNone && !(negative && n = 0) then
    .integer (if negative then -n else n)
  else
    .real negative whole fraction exponent

/-- The number in front of a text. -/
def readNumber (cs : List Char) : Option (Number × List Char) :=
  let (negative, body) := match cs with
    | '-' :: rest => (true, rest)
    | rest => (false, rest)
  match readDigits body with
  | none => none
  | some (whole, rest) =>
    -- No digit stands behind a leading zero.
    if whole.head? = some '0' ∧ 1 < whole.length then none
    else match readFraction rest with
      | none => none
      | some (fraction, rest) => match readExponent rest with
        | none => none
        | some (exponent, rest) => some (literalOf negative whole fraction exponent, rest)

mutual

/-- The value in front of a text that nests at most `depth` levels. -/
def readValue : (depth : Nat) → List Char → Option (Json × List Char)
  | 0, _ => none
  | depth + 1, cs =>
    match skipSpace cs with
    | 'n' :: 'u' :: 'l' :: 'l' :: rest => some (.null, rest)
    | 't' :: 'r' :: 'u' :: 'e' :: rest => some (.bool true, rest)
    | 'f' :: 'a' :: 'l' :: 's' :: 'e' :: rest => some (.bool false, rest)
    | '"' :: rest => (readString rest).map (fun r => (.string r.1, r.2))
    | '[' :: rest =>
      match skipSpace rest with
      | ']' :: rest => some (.array [], rest)
      | rest => (readElements depth rest.length rest).map (fun r => (.array r.1, r.2))
    | '\x7b' :: rest =>
      match skipSpace rest with
      | '\x7d' :: rest => some (.object [], rest)
      | rest => (readMembers depth rest.length rest).map (fun r => (.object r.1, r.2))
    | rest => (readNumber rest).map (fun r => (.number r.1, r.2))
termination_by depth _ => (depth, 0)

/-- At most `count` elements up to the closing bracket. -/
def readElements : (depth count : Nat) → List Char → Option (List Json × List Char)
  | _, 0, _ => none
  | depth, count + 1, cs =>
    match readValue depth cs with
    | none => none
    | some (j, rest) =>
      match skipSpace rest with
      | ']' :: rest => some ([j], rest)
      | ',' :: rest => (readElements depth count rest).map (fun r => (j :: r.1, r.2))
      | _ => none
termination_by depth count _ => (depth, count + 1)

/-- At most `count` members up to the closing brace. -/
def readMembers :
    (depth count : Nat) → List Char → Option (List (Option String × Json) × List Char)
  | _, 0, _ => none
  | depth, count + 1, cs =>
    match skipSpace cs with
    | '"' :: rest =>
      match readString rest with
      | none => none
      | some (name, rest) =>
        match skipSpace rest with
        | ':' :: rest =>
          match readValue depth rest with
          | none => none
          | some (j, rest) =>
            match skipSpace rest with
            | '\x7d' :: rest => some ([(name, j)], rest)
            | ',' :: rest =>
              (readMembers depth count rest).map (fun r => ((name, j) :: r.1, r.2))
            | _ => none
        | _ => none
    | _ => none
termination_by depth count _ => (depth, count + 1)

end

/-- The value of a whole text; only blanks may follow it. -/
def parse (s : String) : Option Json :=
  let cs := s.toList
  match readValue (cs.length + 1) cs with
  | some (j, rest) => if (skipSpace rest).isEmpty then some j else none
  | none => none

end Json

end Bourse
