import Bourse.Json.Basic
import Bourse.Text.Numeral

/-!
# Writing JSON

The compact form of a value: no blanks, members in the order they have, and in
strings only what must be escaped. A control character has its letter, or its code
in four lower-case hexadecimal digits.

## Main definitions

* `Json.escaped`: one character inside a string.
* `Number.text`: a number as its literal.
* `Json.text`: the compact form of a value.
-/

namespace Bourse

/-- A number as its literal; a positive exponent has its sign. -/
def Number.chars : Number → List Char
  | .integer n => Numeral.integer n
  | .real negative whole fraction exponent =>
    (if negative then ['-'] else []) ++ whole
      ++ (if fraction.isEmpty then [] else '.' :: fraction)
      ++ (match exponent with
          | none => []
          | some e => 'e' :: (if e < 0 then '-' else '+') :: Numeral.digits e.natAbs)

namespace Json

/-- One character as it stands inside a string. -/
def escaped (c : Char) : List Char :=
  let n := c.toNat
  if c = '"' then ['\\', '"']
  else if c = '\\' then ['\\', '\\']
  else if n = 8 then ['\\', 'b']
  else if n = 9 then ['\\', 't']
  else if n = 10 then ['\\', 'n']
  else if n = 12 then ['\\', 'f']
  else if n = 13 then ['\\', 'r']
  else if n < 32 then
    ['\\', 'u', '0', '0', Numeral.digitChar (n / 16), Numeral.digitChar (n % 16)]
  else [c]

/-- A text between quotes. -/
def literal (s : String) : List Char :=
  '"' :: s.toList.flatMap escaped ++ ['"']

mutual

/-- The compact form of a value, in front of what follows it. A string without a text is
written empty. -/
def render : Json → List Char → List Char
  | .null, rest => 'n' :: 'u' :: 'l' :: 'l' :: rest
  | .bool true, rest => 't' :: 'r' :: 'u' :: 'e' :: rest
  | .bool false, rest => 'f' :: 'a' :: 'l' :: 's' :: 'e' :: rest
  | .number n, rest => n.chars ++ rest
  | .string s, rest => literal (s.getD "") ++ rest
  | .array l, rest => '[' :: renderElements l (']' :: rest)
  | .object l, rest => '\x7b' :: renderMembers l ('\x7d' :: rest)

/-- Elements with commas between them. -/
def renderElements : List Json → List Char → List Char
  | [], rest => rest
  | [j], rest => render j rest
  | j :: k :: l, rest => render j (',' :: renderElements (k :: l) rest)

/-- Members with commas between them. -/
def renderMembers : List (Option String × Json) → List Char → List Char
  | [], rest => rest
  | [(k, j)], rest => literal (k.getD "") ++ ':' :: render j rest
  | (k, j) :: m :: l, rest =>
    literal (k.getD "") ++ ':' :: render j (',' :: renderMembers (m :: l) rest)

end

/-- The compact form of a value. -/
def text (j : Json) : String :=
  String.ofList (render j [])

end Json

end Bourse
