/-!
# TOML documents

A document is a table of keys and values. Tables are written in four ways: under a header of their
own, on the path of a longer header, on the path of a dotted key, or in braces. Every table
remembers which, because that decides who may still add to it:

* a table in braces is complete;
* a header may take over a table that so far was only implied by longer headers, and no other;
* a dotted key may pass through tables that no header has claimed, and ends in one that dotted keys
  have made.

A path through an array of tables goes on in the last table of the array.
-/

namespace Warden.Toml

/-- How a table came to be. -/
inductive Origin where
  /-- It has a header of its own, or is the document. -/
  | header
  /-- It stands on the path of a longer header. -/
  | implied
  /-- It stands on the path of a dotted key. -/
  | dotted
  /-- It is written in braces. -/
  | inline
  deriving DecidableEq, Repr, Inhabited

mutual

/-- A value. Floats and moments in time are kept as they are written. -/
inductive Value where
  | string (s : String)
  | integer (n : Int)
  | float (literal : String)
  | boolean (b : Bool)
  | datetime (literal : String)
  | array (items : List Value)
  | table (t : Table)
  /-- An array of tables, each under a header in double brackets. -/
  | tables (ts : List Table)

/-- A table: its keys in the order of writing, with their values. -/
structure Table where
  origin : Origin
  entries : List (String × Value)

end

namespace Table

def empty (origin : Origin) : Table :=
  ⟨origin, []⟩

/-- The value under a key. -/
def get? (t : Table) (key : String) : Option Value :=
  (t.entries.find? (·.1 == key)).map (·.2)

/-- Puts a value under a key, in place of the one it had. -/
def set (t : Table) (key : String) (v : Value) : Table :=
  if (t.get? key).isSome then
    { t with entries := t.entries.map fun e => if e.1 == key then (key, v) else e }
  else { t with entries := t.entries ++ [(key, v)] }

/-- Whether a path may pass through the table: that of a dotted key, or that of a header. -/
def admits (t : Table) (dotted : Bool) : Bool :=
  match t.origin with
  | .header => !dotted
  | .implied | .dotted => true
  | .inline => false

/-- Changes the table that a path leads to. Tables that are missing on the way are made. -/
def alter (dotted : Bool) (change : Table → Option Table) : List String → Table → Option Table
  | [], t => change t
  | key :: path, t => do
    match t.get? key with
    | none =>
      let child := empty (if dotted then .dotted else .implied)
      return t.set key (.table (← alter dotted change path child))
    | some (.table child) =>
      if child.admits dotted then return t.set key (.table (← alter dotted change path child))
      else none
    | some (.tables ts) =>
      let child ← ts.getLast?
      return t.set key (.tables (ts.dropLast ++ [← alter dotted change path child]))
    | some _ => none

/-- Adds a value under a key that is new to its table. -/
def insert? (path : List String) (key : String) (v : Value) : Table → Option Table :=
  path |> alter true fun child =>
    if (path.isEmpty || child.origin == .dotted) && (child.get? key).isNone then
      some (child.set key v)
    else none

/-- Begins the table of a header. -/
def openTable? (path : List String) (key : String) : Table → Option Table :=
  path |> alter false fun child =>
    match child.get? key with
    | none => some (child.set key (.table (empty .header)))
    | some (.table claimed) =>
      if claimed.origin = .implied then
        some (child.set key (.table { claimed with origin := .header }))
      else none
    | some _ => none

/-- Begins another table of the array that a header in double brackets names. -/
def openArray? (path : List String) (key : String) : Table → Option Table :=
  path |> alter false fun child =>
    match child.get? key with
    | none => some (child.set key (.tables [empty .header]))
    | some (.tables ts) => some (child.set key (.tables (ts ++ [empty .header])))
    | some _ => none

end Table

end Warden.Toml
