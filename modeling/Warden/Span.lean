/-!
# Places in a source file

A `Span` is the place that a syntax node or a diagnostic points at: a line, a column and the width
of the token there. Lines and columns count from 1. Line 0 is no line of any file, so it marks a
node that has not been placed yet; the numbering pass (`Warden.Syntax.Numbering`) looks for exactly
that mark.
-/

namespace Warden

/-- A place in a source file. The default is the unplaced span: line 0, column 0, width 1. -/
structure Span where
  /-- Line, counted from 1; 0 on a node that has no place yet. -/
  line : Nat := 0
  /-- Column, counted from 1. -/
  column : Nat := 0
  /-- Width of the token, in bytes. -/
  length : Nat := 1
  deriving DecidableEq, Repr, Inhabited

namespace Span

/-- The place of one character. -/
def point (line column : Nat) : Span :=
  { line, column, length := 1 }

/-- The place of a name that starts its line: as wide as the name's UTF-8 text, and never empty. -/
def ofName (line : Nat) (name : String) : Span :=
  { line, column := 1, length := max 1 name.utf8ByteSize }

/-- Whether the span has been given a line. -/
def isPlaced (s : Span) : Bool :=
  s.line != 0

/-- Puts an unplaced span at `place`, and leaves a placed one where it is. -/
def orAt (s place : Span) : Span :=
  if s.isPlaced then s else place

end Span

end Warden
