import Warden.Json.Basic

/-!
# Records in JSON

A record is an object read by the names of its fields. Fields the reader does not know are skipped,
but a known one must not be written twice. Parts of a value are handed out together with the fact
that they are smaller than the whole, which is what lets a decoder recurse into them.
-/

namespace Warden.Json

/-- A value inside `whole`. -/
abbrev Part (whole : Json) : Type :=
  { part : Json // sizeOf part < sizeOf whole }

/-- The items of an array inside `whole`. -/
abbrev Items (whole : Json) : Type :=
  { items : List Json // sizeOf items < sizeOf whole }

/-- What `lookup` finds is smaller than the list it is found in. -/
theorem sizeOf_lt_of_lookup_eq_some {key : String} {value : Json} :
    ∀ {fields : List (String × Json)}, fields.lookup key = some value → sizeOf value < sizeOf fields
  | (k, v) :: fields, h => by
    rw [List.lookup_cons] at h
    split at h
    · cases h
      simp
      omega
    · have := sizeOf_lt_of_lookup_eq_some h
      simp
      omega

/-- The first field of that name. -/
def part? (key : String) : (whole : Json) → Option (Part whole)
  | .obj fields =>
    match h : fields.lookup key with
    | none => none
    | some value => some ⟨value, by
        have := sizeOf_lt_of_lookup_eq_some h
        simp
        omega⟩
  | _ => none

/-- The first field of that name, where `null` counts as absent. -/
def presentPart? (key : String) (whole : Json) : Option (Part whole) :=
  match whole.part? key with
  | some ⟨.null, _⟩ => none
  | part => part

/-- The items of an array. -/
def items? : (whole : Json) → Option (Items whole)
  | .arr items => some ⟨items, by simp⟩
  | _ => none

/-- How often a name stands among the fields. -/
def occurrences (key : String) (fields : List (String × Json)) : Nat :=
  fields.countP (·.1 == key)

/-- Whether the value is an object that has none of the known fields twice. -/
def isRecord (known : List String) : Json → Bool
  | .obj fields => known.all fun key => occurrences key fields ≤ 1
  | _ => false

end Warden.Json
