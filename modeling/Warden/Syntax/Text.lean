import Warden.Json.Reader
import Warden.Syntax.Decode

/-!
# Programs from JSON text

`Program.ofText` reads the outer layers of a program, down to the statements of its modules, while
it reads the text; only the inside of a statement is read as a value first and decoded then. Two
things hang on that. A part that does not fit is noticed as soon as it is met, before any fault
further on in the text. And what stands in unknown fields of the outer layers is skipped without
regard to nesting or to the range of numbers.
-/

namespace Warden

/-- A reader of program text, which also hands out identities. -/
abbrev SyntaxReader := StateT NodeId Json.Reader

namespace SyntaxReader

open Json (Reader)

/-! ### Records and lists while they are read -/

/-- Reads a value of the wrong kind: a scalar is read to its end, of an array or object only the
bracket is looked at. -/
def wrongKind {α : Type} : SyntaxReader α := do
  match ← Reader.peekToken with
  | none => Reader.ended
  | some '[' | some '\x7b' => Reader.unfit
  | some _ =>
    let _ ← Reader.value Json.levelLimit
    Reader.unfit

/-- Reads an array where a record is wanted. -/
def wrongArray {α : Type} (levels : Nat) : SyntaxReader α := do
  Reader.enter (levels - 1)
  match ← Reader.peekToken with
  | some ']' => Reader.unfit
  | _ => wrongKind

/-- Reads a field whose name has been read. `known` says how the value of a known field is read; any
other is skipped. The state holds the known names met so far: none may come twice. -/
def recordField {σ : Type} (known : List (String × (σ → SyntaxReader σ))) (key : String)
    (state : σ × List String) : SyntaxReader (σ × List String) := do
  match known.lookup key with
  | none =>
    Reader.colon
    Reader.skipValue
    return state
  | some read =>
    if state.2.contains key then Reader.unfit
    Reader.colon
    return (← read state.1, key :: state.2)

/-- Reads an object whose known fields are read into a state. -/
def record {σ : Type} (levels : Nat) (known : Nat → List (String × (σ → SyntaxReader σ)))
    (init : σ) : SyntaxReader σ := do
  match ← Reader.peekToken with
  | none => Reader.ended
  | some '\x7b' =>
    Reader.enter (levels - 1)
    return (← Reader.fields Reader.string (recordField (known (levels - 1))) (init, [])).1
  | some '[' => wrongArray levels
  | some _ => wrongKind

/-- Reads an array of items. -/
def list {α : Type} (levels : Nat) (item : Nat → SyntaxReader α) : SyntaxReader (List α) := do
  match ← Reader.peekToken with
  | none => Reader.ended
  | some '[' =>
    Reader.enter (levels - 1)
    Reader.items (item (levels - 1))
  | some _ => wrongKind

/-! ### Leaves -/

def string : SyntaxReader String := do
  match ← Reader.peekToken with
  | none => Reader.ended
  | some '"' => Reader.advance; Reader.string
  | some _ => wrongKind

/-- A string, or `null` for none. -/
def string? : SyntaxReader (Option String) := do
  match ← Reader.peekToken with
  | some 'n' => Reader.word "null".toList; return none
  | _ => return some (← string)

def natural : SyntaxReader Nat := do
  match ← Reader.peekToken with
  | none => Reader.ended
  | some '[' | some '\x7b' => Reader.unfit
  | some _ =>
    match ← Reader.value Json.levelLimit with
    | .int (.ofNat n) => return n
    | _ => Reader.unfit

/-- A part that must have been met. -/
def present {α : Type} : Option α → SyntaxReader α
  | some a => return a
  | none => Reader.unfit

/-- Decodes a value that has been read. -/
def decoded {α : Type} (decoding : Decoding α) : SyntaxReader α := fun next =>
  match decoding next with
  | some result => pure result
  | none => Reader.unfit

/-! ### The layers of a program -/

/-- The fields of a span met so far. -/
structure SpanFields where
  line : Option Nat := none
  column : Option Nat := none
  length : Option Nat := none

def span (levels : Nat) : SyntaxReader Span := do
  let fields ← record levels (fun _ => [
    ("line", fun f => return { f with line := some (← natural) }),
    ("column", fun f => return { f with column := some (← natural) }),
    ("length", fun f => return { f with length := some (← natural) })]) ({} : SpanFields)
  return {
    line := ← present fields.line
    column := ← present fields.column
    length := fields.length.getD 1 }

/-- The fields of a statement's form met so far: its name, and the rest in reverse order. -/
structure FormFields where
  name : Option String := none
  rest : List (String × Json) := []

/-- Reads a field of a statement's form. All but the name of the form are read as values; the name
must be a known one. -/
def formField (levels : Nat) (key : String) (f : FormFields) : SyntaxReader FormFields := do
  if key == "kind" then
    if f.name.isSome then Reader.unfit
    Reader.colon
    let name ← string
    if !Decoding.stmtForms.contains name then Reader.unfit
    return { f with name := some name }
  else
    Reader.colon
    return { f with rest := (key, ← Reader.value levels) :: f.rest }

/-- The form of a statement: read as a value, then decoded. -/
def stmtKind (levels : Nat) : SyntaxReader StmtKind := do
  match ← Reader.peekToken with
  | none => Reader.ended
  | some '\x7b' =>
    Reader.enter (levels - 1)
    let f ← Reader.fields Reader.string (formField (levels - 1)) {}
    let name ← present f.name
    decoded (Decoding.stmtKind (.obj (("kind", .str name) :: f.rest.reverse)))
  | some '[' => wrongArray levels
  | some _ => wrongKind

/-- The fields of a statement met so far. -/
structure StmtFields where
  span : Span := {}
  kind : Option StmtKind := none

def stmt (levels : Nat) : SyntaxReader Stmt := do
  let fields ← record levels (fun levels => [
    ("span", fun f => return { f with span := ← span levels }),
    ("kind", fun f => return { f with kind := some (← stmtKind levels) })]) ({} : StmtFields)
  return ⟨fields.span, ← present fields.kind⟩

/-- The fields of a module met so far. -/
structure ModuleFields where
  span : Span := {}
  name : Option String := none
  filePath : String := ""
  source : Option String := none
  body : Option (List Stmt) := none

def module (levels : Nat) : SyntaxReader Module := do
  let fields ← record levels (fun levels => [
    ("span", fun f => return { f with span := ← span levels }),
    ("name", fun f => return { f with name := some (← string) }),
    ("file_path", fun f => return { f with filePath := ← string }),
    ("source", fun f => return { f with source := ← string? }),
    ("body", fun f => return { f with body := some (← list levels stmt) })]) ({} : ModuleFields)
  return {
    span := fields.span
    name := ← present fields.name
    filePath := fields.filePath
    source := fields.source
    body := ← present fields.body }

def program (levels : Nat) : SyntaxReader Program := do
  let modules ← record levels (fun levels => [
    ("modules", fun _ => return some (← list levels module))]) none
  return ⟨← present modules⟩

end SyntaxReader

namespace Program

/-- Reads a program from JSON text, giving identities from `next` on where they are missing. -/
def ofText (text : String) (next : NodeId) : Except Json.Fault (Program × NodeId) :=
  (do let result ← (SyntaxReader.program Json.levelLimit).run next
      Json.Reader.finish
      return result : Json.Reader (Program × NodeId)).run' text.toList

end Program

end Warden
