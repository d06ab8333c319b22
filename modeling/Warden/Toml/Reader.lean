import Warden.Toml.Basic

/-!
# Reading TOML text

A reader consumes characters from the front of a text, or fails and consumes nothing. `value` reads
one value, `lines?` cuts a document into its lines: entries and headers.

Arrays and tables in braces may be nested 79 deep, and a key may have 79 parts. The depth still
allowed is what the recursion of `value` counts down. Repetitions carry the text they start from as
their bound, since every round consumes at least one character.
-/

namespace Warden.Toml

/-- A reader of the rest of a text. -/
abbrev Reader := StateT (List Char) Option

namespace Reader

def peek : Reader (Option Char) :=
  return (← get).head?

/-- Reads one character that satisfies a condition. -/
def one (p : Char → Bool) : Reader Char := do
  match ← get with
  | c :: cs => if p c then set cs; return c else failure
  | [] => failure

def char (c : Char) : Reader Char :=
  one (· == c)

/-- Reads exactly these characters. -/
def word (cs : List Char) : Reader Unit :=
  cs.forM fun c => discard (char c)

/-- Reads characters for as long as they satisfy a condition. -/
def many (p : Char → Bool) : Reader (List Char) := do
  let cs ← get
  set (cs.dropWhile p)
  return cs.takeWhile p

/-- What a reader gives, or nothing where it fails. -/
def optional {α : Type} (r : Reader α) : Reader (Option α) :=
  some <$> r <|> return none

/-- Reads again and again until the reader fails, at most once for every character of a text. -/
def repeatedFrom {α : Type} (r : Reader α) : List Char → Reader (List α)
  | [] => return []
  | _ :: bound => do
    match ← optional r with
    | none => return []
    | some a => return a :: (← repeatedFrom r bound)

/-- Reads again and again until the reader fails. The reader consumes something each time. -/
def repeated {α : Type} (r : Reader α) : Reader (List α) := do
  repeatedFrom r (← get)

/-- One item or more, divided by a character. -/
def separated {α : Type} (r : Reader α) (divider : Char) : Reader (List α) := do
  let first ← r
  return first :: (← repeated (do discard (char divider); r))

/-- The characters that a reader consumes. -/
def consumed {α : Type} (r : Reader α) : Reader String := do
  let before ← get
  discard r
  let after ← get
  return String.ofList (before.take (before.length - after.length))

/-! ### Blanks, comments and lines -/

def isBlank (c : Char) : Bool :=
  c == ' ' || c == '\t'

/-- Characters that may stand in a comment or a string: no control characters but the tab. -/
def isText (c : Char) : Bool :=
  c == '\t' || (' '.toNat ≤ c.toNat && c.toNat != 0x7F)

def blanks : Reader Unit :=
  discard (many isBlank)

def newline : Reader Unit :=
  discard (char '\n') <|> word ['\r', '\n']

def endOfText : Reader Unit := do
  unless (← get).isEmpty do failure

def comment : Reader Unit := do
  discard (char '#')
  discard (many isText)

/-- The end of a line, after blanks and a comment. -/
def lineEnd : Reader Unit := do
  blanks
  discard (optional comment)
  newline <|> endOfText

/-- Blanks, line breaks and comments, as between the items of an array. -/
def gap : Reader Unit :=
  discard (repeated (discard (one isBlank) <|> newline <|> comment))

/-! ### Strings -/

def hexValue? (c : Char) : Option Nat :=
  if c.isDigit then some (c.toNat - '0'.toNat)
  else if 'a' ≤ c ∧ c ≤ 'f' then some (c.toNat - 'a'.toNat + 10)
  else if 'A' ≤ c ∧ c ≤ 'F' then some (c.toNat - 'A'.toNat + 10)
  else none

/-- The number that digits stand for. -/
def number (base : Nat) (ds : List Char) : Nat :=
  ds.foldl (fun n c => n * base + (hexValue? c).getD 0) 0

def isHex (c : Char) : Bool :=
  (hexValue? c).isSome

/-- A character by its number, in so many hexadecimal digits. -/
def codePoint (width : Nat) : Reader Char := do
  let ds ← (List.replicate width ()).mapM fun _ => one isHex
  let n := number 16 ds
  if n.isValidChar then return Char.ofNat n else failure

/-- A character after a backslash. -/
def escaped : Reader Char := do
  discard (char '\\')
  match ← one fun _ => true with
  | 'b' => return '\x08'
  | 't' => return '\t'
  | 'n' => return '\n'
  | 'f' => return '\x0c'
  | 'r' => return '\r'
  | '"' => return '"'
  | '\\' => return '\\'
  | 'u' => codePoint 4
  | 'U' => codePoint 8
  | _ => failure

/-- A character of a string that stands for itself. -/
def plain (quote : Char) : Reader Char :=
  one fun c => isText c && c != quote && (quote == '\'' || c != '\\')

/-- One character of a string between such quotes: escapes are known between double quotes. -/
def stringChar (quote : Char) : Reader Char :=
  plain quote <|> if quote == '"' then escaped else failure

/-- A string on one line. -/
def lineString (quote : Char) : Reader String := do
  discard (char quote)
  let cs ← repeated (stringChar quote)
  discard (char quote)
  return String.ofList cs

/-- A backslash before a line break, which removes the break and the blanks after it. -/
def foldedBreak : Reader (List Char) := do
  discard (char '\\')
  blanks
  newline
  discard (repeated (discard (one isBlank) <|> newline))
  return []

/-- One piece of a string of several lines. One or two quotes in a row are part of it. -/
def blockPiece (quote : Char) : Reader (List Char) :=
  (return [← plain quote]) <|>
  (if quote == '"' then foldedBreak <|> (return [← escaped]) else failure) <|>
  (do newline; return ['\n']) <|> do
    let quotes ← many (· == quote)
    if quotes.length = 1 ∨ quotes.length = 2 then return quotes else failure

/-- A string of several lines. Of the quotes that close it, up to two belong to the string. -/
def blockString (quote : Char) : Reader String := do
  word [quote, quote, quote]
  discard (optional newline)
  let pieces ← repeated (blockPiece quote)
  let quotes ← many (· == quote)
  if 3 ≤ quotes.length ∧ quotes.length ≤ 5 then
    return String.ofList (pieces.flatten ++ quotes.drop 3)
  else failure

def string : Reader String :=
  blockString '"' <|> lineString '"' <|> blockString '\'' <|> lineString '\''

/-! ### Keys -/

/-- Most parts that a key may have. -/
def keyLimit : Nat := 79

def isKeyChar (c : Char) : Bool :=
  c.isAlphanum || c == '-' || c == '_'

/-- One part of a key. -/
def keyPart : Reader String := do
  blanks
  let part ← lineString '"' <|> lineString '\'' <|> do
    let cs ← many isKeyChar
    if cs.isEmpty then failure else return String.ofList cs
  blanks
  return part

/-- A key: the parts before the last one, and the last one. -/
def key : Reader (List String × String) := do
  let parts ← separated keyPart '.'
  if keyLimit < parts.length then failure
  return (parts.dropLast, ← parts.getLast?)

/-! ### Numbers -/

/-- Digits, with single underscores between them. -/
def digits (isDigit : Char → Bool) : Reader (List Char) := do
  let first ← one isDigit
  return first :: (← repeated (one isDigit <|> do discard (char '_'); one isDigit))

/-- The sign of a number: whether it is negative. -/
def sign : Reader Bool :=
  (do discard (char '-'); return true) <|> (do discard (char '+'); return false) <|> return false

/-- The digits of a decimal number: a zero, or digits that do not start with one. -/
def wholeDigits : Reader (List Char) := do
  match ← peek with
  | some '0' => return [← one Char.isDigit]
  | _ => digits Char.isDigit

/-- An integer has to fit 64 bits. -/
def fitted (n : Int) : Reader Int :=
  if -Int.pow 2 63 ≤ n ∧ n < Int.pow 2 63 then return n else failure

/-- An integer in another base, after its mark. -/
def basedInteger (mark : Char) (base : Nat) : Reader Int := do
  word ['0', mark]
  let ds ← digits fun c => (hexValue? c).any (· < base)
  fitted (number base ds)

def integer : Reader Int :=
  basedInteger 'x' 16 <|> basedInteger 'o' 8 <|> basedInteger 'b' 2 <|> do
    let negative ← sign
    let n := number 10 (← wholeDigits)
    fitted (if negative then -n else n)

/-- Whether `n · 10^e` is beyond every double when rounded to the nearest one. The first number that
is has 309 digits, so the exact comparison is only made where it is near. -/
def overflows (n : Nat) (e : Int) : Bool :=
  let top := (Nat.toDigits 10 n).length + e
  n != 0 && (309 < top || (top == 309 &&
    (Nat.pow 2 1024 - Nat.pow 2 970) * Nat.pow 10 (-e).toNat ≤ n * Nat.pow 10 e.toNat))

/-- The digits after the point. -/
def fraction : Reader (List Char) := do
  discard (char '.')
  digits Char.isDigit

/-- The number after the mark of an exponent. -/
def exponent : Reader Int := do
  discard (one fun c => c == 'e' || c == 'E')
  let negative ← sign
  let n := number 10 (← digits Char.isDigit)
  return if negative then -n else n

/-- A float has a fraction or an exponent. A positive one must not be beyond every double. -/
def finiteFloat : Reader Unit := do
  let negative ← sign
  let whole ← wholeDigits
  let places ← optional fraction
  let power ← optional exponent
  if places.isNone ∧ power.isNone then failure
  let places := places.getD []
  let power := power.getD 0 - places.length
  if !negative && overflows (number 10 (whole ++ places)) power then failure

def float : Reader String :=
  consumed (finiteFloat <|> do discard sign; word ['i', 'n', 'f'] <|> word ['n', 'a', 'n'])

/-! ### Moments in time -/

/-- A number of so many digits in a range. -/
def field (width least most : Nat) : Reader Nat := do
  let n := number 10 (← (List.replicate width ()).mapM fun _ => one Char.isDigit)
  if least ≤ n ∧ n ≤ most then return n else failure

def isLeapYear (year : Nat) : Bool :=
  year % 4 == 0 && (year % 100 != 0 || year % 400 == 0)

def daysIn (year month : Nat) : Nat :=
  if month = 2 then if isLeapYear year then 29 else 28
  else if month = 4 ∨ month = 6 ∨ month = 9 ∨ month = 11 then 30
  else 31

def date : Reader Unit := do
  let year ← field 4 0 9999
  discard (char '-')
  let month ← field 2 1 12
  discard (char '-')
  discard (field 2 1 (daysIn year month))

def hourMinute : Reader Unit := do
  discard (field 2 0 23)
  discard (char ':')
  discard (field 2 0 59)

/-- A time of day. The sixtieth second is a leap second. -/
def time : Reader Unit := do
  hourMinute
  discard (char ':')
  discard (field 2 0 60)
  discard (optional do
    discard (char '.')
    discard (one Char.isDigit)
    many Char.isDigit)

/-- The distance from universal time. -/
def zone : Reader Unit :=
  discard (one fun c => c == 'Z' || c == 'z') <|> do
    discard (one fun c => c == '+' || c == '-')
    hourMinute

/-- A date with or without a time of day, or a time of day alone. -/
def datetime : Reader String :=
  consumed ((do
    date
    discard (optional do
      discard (one fun c => c == 'T' || c == 't' || c == ' ')
      time
      optional zone)) <|> time)

/-! ### Values -/

/-- Most arrays and tables in braces around a value. -/
def depthLimit : Nat := 79

/-- A value that is neither an array nor a table. -/
def scalar : Reader Value :=
  .string <$> string <|>
  .datetime <$> datetime <|>
  .float <$> float <|>
  .integer <$> integer <|>
  (do word ['t', 'r', 'u', 'e']; return .boolean true) <|>
  (do word ['f', 'a', 'l', 's', 'e']; return .boolean false)

/-- An array, whose last item may be followed by a comma. -/
def array (item : Reader Value) : Reader Value := do
  discard (char '[')
  let items ← optional (separated (do gap; let v ← item; gap; return v) ',')
  if items.isSome then discard (optional (char ','))
  gap
  discard (char ']')
  return .array (items.getD [])

/-- A key and its value. -/
def entry (item : Reader Value) : Reader ((List String × String) × Value) := do
  let k ← key
  discard (char '=')
  blanks
  return (k, ← item)

/-- A table in braces. -/
def inlineTable (item : Reader Value) : Reader Value := do
  discard (char '\x7b')
  let entries ← optional (separated (do let e ← entry item; blanks; return e) ',')
  blanks
  discard (char '\x7d')
  let t ← (entries.getD []).foldlM
    (fun (t : Table) ((path, k), v) => t.insert? path k v) (.empty .inline)
  return .table t

/-- A value, with so many arrays and tables in braces nested in it. -/
def value : Nat → Reader Value
  | 0 => scalar
  | depth + 1 => scalar <|> array (value depth) <|> inlineTable (value depth)

end Reader

/-! ## Documents -/

/-- A line of a document that says something. -/
inductive Line where
  | entry (path : List String) (key : String) (v : Value)
  /-- A header in brackets. -/
  | table (path : List String) (key : String)
  /-- A header in double brackets. -/
  | array (path : List String) (key : String)

namespace Line

open Reader

/-- A header in brackets or double brackets. -/
def header : Reader Line :=
  (do
    word ['[', '[']
    let (path, k) ← key
    word [']', ']']
    lineEnd
    return .array path k) <|> do
    word ['[']
    let (path, k) ← key
    word [']']
    lineEnd
    return .table path k

/-- A line with its end, if it says something. -/
def read : Reader (Option Line) := do
  match ← peek with
  | some '#' | some '\n' | some '\r' => lineEnd; return none
  | some '[' => header
  | _ =>
    let ((path, k), v) ← Reader.entry (value depthLimit)
    lineEnd
    return some (.entry path k v)

end Line

/-- The lines of a text, which may begin with a byte order mark. -/
def lines? (text : String) : Option (List Line) := do
  let cs := text.toList
  let cs := if cs.head? = some '\ufeff' then cs.tail else cs
  let read : Reader (List (Option Line)) := do
    Reader.blanks
    let lines ← Reader.repeated (do let line ← Line.read; Reader.blanks; return line)
    Reader.endOfText
    return lines
  let (lines, _) ← read cs
  return lines.filterMap id

/-- A document being read: its table and the path of the last header. -/
structure Draft where
  root : Table := .empty .header
  header : List String := []

namespace Draft

/-- Takes in one line. -/
def add (d : Draft) : Line → Option Draft
  | .entry path key v => do
    return { d with root := ← d.root.alter false (Table.insert? path key v) d.header }
  | .table path key => do
    return { root := ← d.root.openTable? path key, header := path ++ [key] }
  | .array path key => do
    return { root := ← d.root.openArray? path key, header := path ++ [key] }

end Draft

/-- The table of a document. -/
def parse? (text : String) : Option Table := do
  return (← (← lines? text).foldlM Draft.add {}).root

end Warden.Toml
