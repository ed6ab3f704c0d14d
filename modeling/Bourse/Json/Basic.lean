/-!
# JSON Values

Documents, configuration and feed frames are JSON. A value keeps what a reader of
typed data has to tell apart: a number keeps its literal, because an integer field
takes no `1.0`, and an object keeps its members in order with repetitions, because
a field given twice is an error.

A string literal may name half of a surrogate pair by an escape. No text holds
that, so such a literal has no text; it is harmless where nobody looks at it.

## Main definitions

* `Number`: the literal of a number.
* `Json`: a JSON value.
-/

namespace Bourse

/-- The literal of a number. -/
inductive Number where
  /-- Digits alone, with a sign only if the value is below zero. -/
  | integer (value : Int)
  /-- A literal with a fraction or an exponent, or a signed zero. An absent fraction is empty. -/
  | real (negative : Bool) (whole fraction : List Char) (exponent : Option Int)
deriving DecidableEq, Repr, Inhabited

/-- A JSON value. -/
inductive Json where
  | null
  | bool (value : Bool)
  | number (literal : Number)
  /-- A string; none if an escape in it names half of a surrogate pair. -/
  | string (text : Option String)
  | array (elements : List Json)
  /-- The members in order, each with its name. -/
  | object (members : List (Option String × Json))
deriving Repr, Inhabited

namespace Json

/-- A string value. -/
def ofString (s : String) : Json := .string (some s)

/-- An integer value. -/
def ofInt (n : Int) : Json := .number (.integer n)

/-- A natural number as a value. -/
def ofNat (n : Nat) : Json := ofInt n

/-- An object from names and values. -/
def ofMembers (l : List (String × Json)) : Json :=
  .object (l.map (fun m => (some m.1, m.2)))

/-- A value or null. -/
def ofOption (f : α → Json) : Option α → Json
  | none => .null
  | some a => f a

/-- An array of encoded elements. -/
def ofList (f : α → Json) (l : List α) : Json :=
  .array (l.map f)

end Json

end Bourse
