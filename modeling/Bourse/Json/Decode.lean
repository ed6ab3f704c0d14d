import Bourse.Binary64.Literal
import Bourse.Binary64.Shortest
import Bourse.Json.Basic
import Bourse.Time.Rfc3339

/-!
# Typed Reading of JSON

A decoder takes a value to the data it describes, or to none. Integers are
literals of digits alone within the bounds of their type. A record is an object or
an array of its fields in order: members with other names are passed over, a field
given twice or left out is an error, and a field at the end of an array may be left
out only if it has a default.

## Main definitions

* `Json.int?`, `Json.nat?`, `Json.string?`, `Json.double?`: the simple decoders.
* `Json.list?`, `Json.optional?`, `Json.choice?`: lists, values or null, and names.
* `Json.record?`: the fields of a record, for `Fields` to take apart.
* `Json.ofDouble`: a double as a value.
-/

namespace Bourse

namespace Json

/-- An integer between two bounds. -/
def int? (low high : Int) : Json → Option Int
  | .number (.integer n) => if low ≤ n ∧ n ≤ high then some n else none
  | _ => none

/-- An integer of 64 bits with a sign. -/
def int64? (j : Json) : Option Int := j.int? Int64.minValue.toInt Int64.maxValue.toInt

/-- A natural number of 64 bits. -/
def nat? (j : Json) : Option Nat := (j.int? 0 (UInt64.size - 1)).map Int.toNat

/-- A string that has a text. -/
def string? : Json → Option String
  | .string s => s
  | _ => none

/-- A truth value. -/
def bool? : Json → Option Bool
  | .bool b => some b
  | _ => none

/-- A number as a double. -/
def double? : Json → Option Float
  | .number n => n.toDouble?
  | _ => none

/-- A list of what `f` reads. -/
def list? (f : Json → Option α) : Json → Option (List α)
  | .array l => l.mapM f
  | _ => none

/-- What `f` reads, or null. -/
def optional? (f : Json → Option α) : Json → Option (Option α)
  | .null => some none
  | j => (f j).map some

/-- One of some names, alone or as the only member of an object with the value null. -/
def choice? (names : List (String × α)) : Json → Option α
  | .string (some s) => names.lookup s
  | .object [(some s, .null)] => names.lookup s
  | _ => none

/-- A timestamp in its textual form. -/
def timestamp? (j : Json) : Option Timestamp :=
  j.string?.bind Timestamp.ofRfc3339?

/-- An object as a table; of two members with one name the later wins. -/
def table? (f : Json → Option α) : Json → Option (List (String × α))
  | .object l => l.mapM (fun m => match m with
    | (some k, j) => (f j).map (fun a => (k, a))
    | (none, _) => none)
  | _ => none

/-- The values of the members of a record by the position of their names. -/
def place (names : List String) :
    List (Option String × Json) → List (Option Json) → Option (List (Option Json))
  | [], found => some found
  | (none, _) :: _, _ => none
  | (some name, j) :: rest, found =>
    match names.idxOf? name with
    | none => place names rest found
    | some i =>
      match found[i]? with
      | some none => place names rest (found.set i (some j))
      | _ => none

/-- The value of each field of a record, none for a field that is not given. -/
def fields? (names : List String) : Json → Option (List (Option Json))
  | .object l => place names l (names.map (fun _ => none))
  | .array l =>
    if names.length < l.length then none
    else some (l.map some ++ List.replicate (names.length - l.length) none)
  | _ => none

/-- Whether a record is an array with fewer fields than there are. -/
def isShort (n : Nat) : Json → Bool
  | .array l => l.length < n
  | _ => false

/-- The value of a field that may not be left out. -/
def required? (f : Json → Option α) : Option Json → Option α
  | some j => f j
  | none => none

/-- The value of a field that counts as `d` if it is left out. -/
def withDefault? (d : α) (f : Json → Option α) : Option Json → Option α
  | some j => f j
  | none => some d

/-- A number as a value, as short as it reads back. A literal has a fraction or an exponent. -/
def ofDouble (x : Float) : Json :=
  let (negative, whole, fraction, exponent) := Binary64.literal ⟨-5, 15⟩ x
  .number (.real negative whole fraction exponent)

/-- A timestamp in its textual form. -/
def ofTimestamp (t : Timestamp) : Json := ofString t.rfc3339

end Json

end Bourse
