import Bourse.Text.Numeral
import Bourse.Text.Unprintable

/-!
# Quotations

Error messages repeat the text that caused them between double quotes, in a form
that shows every character: a quote or a backslash is preceded by a backslash,
the common controls have their letter, and a character without a glyph of its own
is written by its code point.

## Main definitions

* `escaped`: how one character is written inside a quotation.
* `quoted`: a text between quotes.
* `quotedList`: a list of quoted texts between brackets.
-/

namespace Bourse.Text

/-- How one character is written inside a quotation. -/
def escaped (c : Char) : List Char :=
  if c = '"' then ['\\', '"']
  else if c = '\\' then ['\\', '\\']
  else if c = '\n' then ['\\', 'n']
  else if c = '\r' then ['\\', 'r']
  else if c = '\t' then ['\\', 't']
  else if c.toNat = 0 then ['\\', '0']
  else if isUnprintable c then
    ['\\', 'u', '\x7b'] ++ Numeral.hexDigits c.toNat ++ ['\x7d']
  else [c]

/-- A text between double quotes, with every character visible. -/
def quoted (s : String) : String :=
  String.ofList ('"' :: s.toList.flatMap escaped ++ ['"'])

/-- A list of quoted texts between brackets, separated by commas. -/
def quotedList (l : List String) : String :=
  "[" ++ ", ".intercalate (l.map quoted) ++ "]"

end Bourse.Text
