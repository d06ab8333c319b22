import Warden.Json.Printer
import Warden.Span

/-!
# Diagnostics

A `Diagnostic` is one finding as it is shown to the user: a stable tag, how serious it is, where it
is, and what it says. It has two written forms. `Diagnostic.render` is the text for people, with the
source line and carets under the offending token where the line is known. `Diagnostic.toJson` is the
record for tools; as compact text it is one line.

A `Draft` collects the parts of a diagnostic one at a time.
-/

namespace Warden

/-- How serious a diagnostic is. -/
inductive Severity where
  | error
  | warning
  | info
  | hint
  deriving DecidableEq, Repr, Inhabited

namespace Severity

def name : Severity → String
  | .error => "error"
  | .warning => "warning"
  | .info => "info"
  | .hint => "hint"

end Severity

/-- One finding, as shown to the user. -/
structure Diagnostic where
  /-- Stable name of the kind of finding. -/
  tag : String
  severity : Severity
  filePath : String
  line : Nat
  column : Nat
  message : String
  note : Option String
  help : Option String
  /-- The source line it points into. -/
  lineText : Option String
  /-- How many carets to draw. -/
  tokenLength : Nat
  deriving DecidableEq, Repr, Inhabited

namespace Diagnostic

def isError (d : Diagnostic) : Bool :=
  d.severity == .error

def isWarning (d : Diagnostic) : Bool :=
  d.severity == .warning

/-! ### Text for people -/

/-- A character, so many times. -/
def repeated (c : Char) (n : Nat) : String :=
  String.ofList (List.replicate n c)

/-- A number on the right of at least three columns. -/
def gutter (n : Nat) : String :=
  let digits := toString n
  repeated ' ' (3 - digits.length) ++ digits

/-- The source line with carets under the token. -/
def renderLine (d : Diagnostic) (text : String) : String :=
  s!"   |\n{gutter d.line} | {text}\n   | " ++ repeated ' ' (d.column - 1) ++
    repeated '^' (max d.tokenLength 1) ++ "\n"

/-- The text for people: a headline, the place, and the optional parts below. -/
def render (d : Diagnostic) : String :=
  s!"{d.severity.name}[{d.tag}]: {d.message}\n  --> {d.filePath}:{d.line}:{d.column}\n" ++
    (d.lineText.map d.renderLine).getD "" ++
    (d.note.map fun note => s!"   = note: {note}\n").getD "" ++
    (d.help.map fun help => s!"   = help: {help}\n").getD ""

/-! ### Record for tools -/

/-- The diagnostic as a record. Absent parts are left out. -/
def toJson (d : Diagnostic) : Json :=
  Json.objOf [
    ("error_type", some (.str d.tag)),
    ("severity", some (.str d.severity.name)),
    ("file_path", some (.str d.filePath)),
    ("line", some (.nat d.line)),
    ("col", some (.nat d.column)),
    ("message", some (.str d.message)),
    ("note", d.note.map .str),
    ("help", d.help.map .str),
    ("line_text", d.lineText.map .str),
    ("token_length", some (.nat d.tokenLength))]

/-- The record as one line of text. -/
def toJsonLine (d : Diagnostic) : String :=
  d.toJson.compact

/-! ### Putting a diagnostic together -/

/-- A diagnostic whose parts are still being filled in. -/
structure Draft where
  tag : String
  severity : Severity
  message : String := ""
  span : Option Span := none
  filePath : Option String := none
  note : Option String := none
  help : Option String := none
  lineText : Option String := none
  deriving DecidableEq, Repr

namespace Draft

def withMessage (d : Draft) (message : String) : Draft :=
  { d with message }

def withSpan (d : Draft) (span : Span) : Draft :=
  { d with span := some span }

/-- Sets the file, unless one is set already. -/
def withFile (d : Draft) (path : String) : Draft :=
  { d with filePath := some (d.filePath.getD path) }

def withNote (d : Draft) (note : String) : Draft :=
  { d with note := some note }

def withHelp (d : Draft) (help : String) : Draft :=
  { d with help := some help }

def withLineText (d : Draft) (text : String) : Draft :=
  { d with lineText := some text }

/-- The line it points at, once it has a place. -/
def line? (d : Draft) : Option Nat :=
  d.span.map (·.line)

/-- The finished diagnostic. Without a place it gets the unplaced span. -/
def build (d : Draft) : Diagnostic :=
  let span := d.span.getD {}
  { tag := d.tag
    severity := d.severity
    filePath := d.filePath.getD ""
    line := span.line
    column := span.column
    message := d.message
    note := d.note
    help := d.help
    lineText := d.lineText
    tokenLength := span.length }

end Draft

end Diagnostic

end Warden
