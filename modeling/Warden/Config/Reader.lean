import Warden.Config.Basic
import Warden.Toml.Reader

/-!
# Configuration files

A configuration file is a TOML document. Its table `check` holds the switches; all other keys and
tables are passed over.
-/

namespace Warden

/-- A switch: its default if it is not given, and nothing if what is given is not a truth value. -/
def Toml.Value.switch? (default : Bool) : Option Toml.Value → Option Bool
  | none => some default
  | some (.boolean b) => some b
  | some _ => none

namespace Config

/-- The switches in a value. They are the keys of a table, or the first items of an array. A moment
in time has none of the keys, and so leaves the defaults. -/
def ofValue? : Toml.Value → Option Config
  | .table t => do
    return {
      checkMem := ← Toml.Value.switch? true (t.get? "check_mem")
      strict := ← Toml.Value.switch? false (t.get? "strict") }
  | .array items => do
    return {
      checkMem := ← Toml.Value.switch? true items[0]?
      strict := ← Toml.Value.switch? false items[1]? }
  | .datetime _ => some {}
  | _ => none

/-- The configuration in the text of a file. -/
def ofToml? (text : String) : Option Config := do
  match (← Toml.parse? text).get? "check" with
  | none => return {}
  | some v => ofValue? v

def truthWord (b : Bool) : String :=
  if b then "true" else "false"

/-- The text of a file with this configuration. -/
def toToml (c : Config) : String :=
  s!"[check]\ncheck_mem = {truthWord c.checkMem}\nstrict = {truthWord c.strict}\n"

end Config

end Warden
