import Warden.Config.Basic
import Warden.Diagnostic.Report
import Warden.Finding.Cause
import Warden.SourceText

/-!
# Findings and where they are made

A `Finding` is a cause at a place in a file. The `Context` of a run knows the module that is being
looked at, and files each new finding under that module, with the source line it points into. The
list of findings only ever grows at its end.
-/

namespace Warden

/-- A cause at a place. -/
structure Finding where
  cause : Cause
  span : Span
  filePath : String
  /-- The source line it points into, where the source has one. -/
  lineText : Option String
  deriving DecidableEq, Repr

namespace Finding

def tag (f : Finding) : Tag :=
  f.cause.tag

def severity (f : Finding) : Severity :=
  f.cause.severity

/-- The finding as shown to the user. -/
def toDiagnostic (f : Finding) : Diagnostic :=
  let draft := (f.cause.draft.withSpan f.span).withFile f.filePath
  ({ draft with lineText := f.lineText }).build

end Finding

/-- The module that is being looked at, and what has been found so far. -/
structure Context where
  config : Config := {}
  moduleName : String := ""
  filePath : String := ""
  source : Option SourceText := none
  findings : List Finding := []
  deriving DecidableEq, Repr, Inhabited

namespace Context

/-- Turns to a module. -/
def enter (c : Context) (m : Module) : Context :=
  { c with
    moduleName := m.name
    filePath := m.filePath
    source := m.source.map .ofString }

/-- The line of the current module's source. -/
def lineText? (c : Context) (line : Nat) : Option String :=
  c.source.bind (·.line? line)

/-- Files a finding under the current module. -/
def report (c : Context) (cause : Cause) (span : Span) : Context :=
  { c with findings := c.findings ++
      [{ cause, span, filePath := c.filePath, lineText := c.lineText? span.line }] }

/-- Everything found so far. -/
def toReport (c : Context) : Report :=
  ⟨c.findings.map (·.toDiagnostic)⟩

end Context

end Warden
