/-!
# JSON values

Programs are exchanged as JSON, and diagnostics are written as JSON lines. The value type keeps what
those formats show: the order of an object's fields, a field written twice, and whether a number was
written as a whole number. Whole numbers are exact; all others are 64-bit floating-point numbers.
-/

namespace Warden

/-- A JSON value. -/
inductive Json where
  | null
  | bool (value : Bool)
  /-- A number written without point and exponent. -/
  | int (value : Int)
  | float (value : Float)
  | str (value : String)
  | arr (items : List Json)
  /-- The fields in the order in which they are written. -/
  | obj (fields : List (String × Json))
  deriving Inhabited, Repr

namespace Json

/-- The first field of that name. -/
def field? (key : String) : Json → Option Json
  | .obj fields => fields.lookup key
  | _ => none

/-- An object with the fields that are present. -/
def objOf (fields : List (String × Option Json)) : Json :=
  .obj (fields.filterMap fun (key, value) => value.map (key, ·))

/-- A natural number. -/
def nat (n : Nat) : Json :=
  .int n

/-- A value, or `null` in its absence. -/
def orNull (value : Option Json) : Json :=
  value.getD .null

end Json

end Warden
