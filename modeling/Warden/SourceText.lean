/-!
# Source text by line

Diagnostics quote the line they point at. `SourceText` is a module's text together with the place of
every line in it, so that each quotation is a look-up. Places are counted in bytes. A line ends at a
newline; text after the last newline is a line of its own unless it is empty. Carriage returns at
the end of a line are not part of what is quoted.
-/

namespace Warden

/-- The text of one module, with the byte range of each line. -/
structure SourceText where
  text : String := ""
  /-- Where each line starts and where it ends, its newline excluded. -/
  ranges : List (Nat × Nat) := []
  deriving DecidableEq, Repr, Inhabited

namespace SourceText

/-- The ranges of the lines in the characters that are left. The line that is being read began at
`start`, and the next character stands at `here`. A last line counts unless it is empty. -/
def cut (start here : Nat) : List Char → List (Nat × Nat)
  | [] => if start < here then [(start, here)] else []
  | c :: cs =>
    let next := here + c.utf8Size
    if c = '\n' then (start, here) :: cut next next cs else cut start next cs

/-- The text of a module, cut into lines. -/
def ofString (text : String) : SourceText :=
  { text, ranges := cut 0 0 text.toList }

/-- The part of a text between two places. There is none if a place is inside a character or outside
the text, or if they are in the wrong order. -/
def slice? (text : String) (start stop : Nat) : Option String :=
  if h : String.Pos.Raw.IsValid text ⟨start⟩ ∧ String.Pos.Raw.IsValid text ⟨stop⟩ ∧
      start ≤ stop then
    some (text.extract ⟨⟨start⟩, h.1⟩ ⟨⟨stop⟩, h.2.1⟩)
  else none

/-- Drops every carriage return at the end of a line. -/
def trimReturns (line : List Char) : List Char :=
  (line.reverse.dropWhile (· == '\r')).reverse

/-- The line of that number, counted from 1, as it is quoted. -/
def line? (s : SourceText) : Nat → Option String
  | 0 => none
  | n + 1 => do
    let range ← s.ranges[n]?
    let line ← slice? s.text range.1 range.2
    return String.ofList (trimReturns line.toList)

end SourceText

end Warden
