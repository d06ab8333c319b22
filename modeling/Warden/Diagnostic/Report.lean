import Warden.Diagnostic.Basic

/-!
# Reports

A `Report` is the list of diagnostics of a run, in the order in which they were found. Nothing is
ever taken out of it or moved.
-/

namespace Warden

/-- Diagnostics in the order of their finding. -/
structure Report where
  diagnostics : List Diagnostic := []
  deriving DecidableEq, Repr, Inhabited

namespace Report

def size (r : Report) : Nat :=
  r.diagnostics.length

def isEmpty (r : Report) : Bool :=
  r.diagnostics.isEmpty

def push (r : Report) (d : Diagnostic) : Report :=
  ⟨r.diagnostics ++ [d]⟩

/-- Both reports, one after the other. -/
def append (r s : Report) : Report :=
  ⟨r.diagnostics ++ s.diagnostics⟩

def errorCount (r : Report) : Nat :=
  r.diagnostics.countP (·.isError)

def warningCount (r : Report) : Nat :=
  r.diagnostics.countP (·.isWarning)

def hasErrors (r : Report) : Bool :=
  r.diagnostics.any (·.isError)

def hasWarnings (r : Report) : Bool :=
  r.diagnostics.any (·.isWarning)

/-- The diagnostics that carry a tag. -/
def withTag (r : Report) (tag : String) : List Diagnostic :=
  r.diagnostics.filter (·.tag == tag)

/-- The text for people, with a blank line between two diagnostics. -/
def render (r : Report) : String :=
  "\n".intercalate (r.diagnostics.map (·.render))

def toJson (r : Report) : Json :=
  .arr (r.diagnostics.map (·.toJson))

end Report

end Warden
