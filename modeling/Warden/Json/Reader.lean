import Warden.Decimal.Reading
import Warden.Json.Basic

/-!
# Reading JSON text

A reader consumes characters from the front of a text and either returns a value or names the fault.
The text ended too early, or a byte cannot continue it, or the text is fine so far but what it says
is not what the reader wants. The first fault met ends the reading, so that a value that does not
fit is reported even if the text breaks further on.

Arrays and objects may be nested 127 deep. That limit, and the range of numbers, hold for values
that are read; values that are only skipped are held to the grammar alone.

Recursion into a value counts down the levels that are left, or, where depth is not limited, the
characters that are left. A loop over characters, items or fields carries the text it starts from as
its bound: every round consumes at least one character.
-/

namespace Warden.Json

/-- Why a text cannot be read. -/
inductive Fault where
  /-- The text ends too early. -/
  | ended
  /-- A byte cannot continue the text; so many bytes are left from it on. -/
  | malformed (left : Nat)
  /-- The text is well formed so far, but not what is wanted. -/
  | unfit
  deriving DecidableEq, Repr, Inhabited

/-- A reader of the rest of a text. -/
abbrev Reader := StateT (List Char) (Except Fault)

/-- Number of bytes of a text in UTF-8. -/
def byteCount (cs : List Char) : Nat :=
  cs.foldl (fun n c => n + c.utf8Size) 0

/-- The byte a fault points at: the one that cannot continue the text, or the last one of a text
that ends too early. A newline is never pointed at: the byte after it is. -/
def Fault.offset? (text : String) : Fault → Option Nat
  | .ended => some (text.utf8ByteSize - 1)
  | .malformed left =>
    let here := text.utf8ByteSize - left
    let here := if text.toUTF8.data[here]? = some 10 then here + 1 else here
    some (min here (text.utf8ByteSize - 1))
  | .unfit => none

namespace Reader

def ended {α : Type} : Reader α :=
  throw .ended

def unfit {α : Type} : Reader α :=
  throw .unfit

/-- The next byte cannot continue the text. -/
def malformed {α : Type} : Reader α := do
  throw (.malformed (byteCount (← get)))

/-- The byte `ahead` places after the next one cannot continue the text. -/
def malformedAhead {α : Type} (ahead : Nat) : Reader α := do
  throw (.malformed (byteCount (← get) - ahead))

/-- The fault is put on the byte just read. -/
def malformedBefore {α : Type} : Reader α := do
  throw (.malformed (byteCount (← get) + 1))

/-- Blanks that may stand between tokens. -/
def isBlank (c : Char) : Bool :=
  c == ' ' || c == '\n' || c == '\t' || c == '\r'

def peek : Reader (Option Char) :=
  return (← get).head?

def advance : Reader Unit :=
  modify List.tail

/-- The next character after blanks. -/
def peekToken : Reader (Option Char) := do
  modify (·.dropWhile isBlank)
  peek

/-- Reads exactly these characters. -/
def word : List Char → Reader Unit
  | [] => return
  | c :: cs => do
    match ← peek with
    | none => ended
    | some d => if c == d then advance; word cs else malformed

/-! ### Numbers -/

def digitValue (c : Char) : Nat :=
  c.toNat - '0'.toNat

/-- Reads digits for as long as there are any. -/
def digits : Reader (List Nat) := do
  let cs ← get
  set (cs.dropWhile Char.isDigit)
  return (cs.takeWhile Char.isDigit).map digitValue

/-- Fails where a digit must stand: `atEnd` if the text is over. -/
def missingDigit {α : Type} (atEnd : Reader α) : Reader α := do
  match ← peek with
  | none => atEnd
  | some _ => malformed

/-- The digits before the point: a zero, or digits that do not start with one. -/
def wholePart (atEnd : Reader (List Nat)) : Reader (List Nat) := do
  match ← peek with
  | some '0' =>
    advance
    match ← peek with
    | some c => if c.isDigit then malformed else return [0]
    | none => return [0]
  | some c => if c.isDigit then digits else malformed
  | none => atEnd

/-- The digits after the point, if there is one. -/
def fractionPart (atEnd : Reader (Option (List Nat))) : Reader (Option (List Nat)) := do
  match ← peek with
  | some '.' =>
    advance
    match ← digits with
    | [] => missingDigit atEnd
    | ds => return some ds
  | _ => return none

/-- Reads the mark and the sign of an exponent; `none` if there is no exponent, otherwise whether
it is negative. -/
def exponentSign : Reader (Option Bool) := do
  match ← peek with
  | some 'e' | some 'E' =>
    advance
    match ← peek with
    | some '+' => advance; return some false
    | some '-' => advance; return some true
    | _ => return some false
  | _ => return none

/-- The largest exponent that is added up. -/
def exponentLimit : Nat := Nat.pow 2 31 - 1

/-- Adds up the digits of an exponent, stopping after the first that passes the limit. -/
def exponentValue (n : Nat) : List Char → Reader (Option Nat)
  | [] => return some n
  | c :: bound => do
    if c.isDigit then
      advance
      let n := n * 10 + digitValue c
      if n > exponentLimit then return none else exponentValue n bound
    else return some n

/-- Keeps an exponent within the limits on both sides. -/
def clampExponent (e : Int) : Int :=
  max (-(exponentLimit + 1)) (min exponentLimit e)

/-- The double for the digits read, refused if it is too large. -/
def finishFloat (isNegative : Bool) (significand : Nat) (exponent : Int) : Reader Json := do
  match Decimal.scale? significand exponent with
  | some x => return .float (if isNegative then -x else x)
  | none => malformedBefore

/-- The exponent of a number whose other digits have been read. -/
def withExponent (isNegative : Bool) (a : Decimal.Accumulator) (downward : Bool) : Reader Json := do
  match ← peek with
  | none => ended
  | some c => if !c.isDigit then malformed
  match ← exponentValue 0 (← get) with
  | some n =>
    let e : Int := if downward then a.exponent - n else a.exponent + n
    finishFloat isNegative a.significand (clampExponent e)
  | none =>
    if a.significand != 0 && !downward then malformedBefore
    let _ ← digits
    return .float (if isNegative then -0.0 else 0.0)

/-- A number without point and exponent: whole if it fits 64 bits. -/
def wholeNumber (isNegative : Bool) (significand : Nat) : Json :=
  if !isNegative then .int significand
  else if significand = 0 ∨ significand > Nat.pow 2 63 then .float (-significand.toUInt64.toFloat)
  else .int (-significand)

/-- A number after its sign. -/
def number (isNegative : Bool) : Reader Json := do
  let whole ← wholePart ended
  let (a, fits) := Decimal.Accumulator.takeWhole {} whole
  let fraction ← fractionPart ended
  match ← exponentSign with
  | some downward => withExponent isNegative (a.takeFraction (fraction.getD [])) downward
  | none =>
    match fraction with
    | some ds =>
      let a := a.takeFraction ds
      finishFloat isNegative a.significand a.exponent
    | none =>
      if fits then return wholeNumber isNegative a.significand
      else finishFloat isNegative a.significand a.exponent

/-- Skips a number after its sign. A number cut short is malformed. -/
def skipNumber : Reader Unit := do
  let _ ← wholePart malformed
  let _ ← fractionPart malformed
  match ← exponentSign with
  | none => return
  | some _ =>
    match ← digits with
    | [] => malformed
    | _ => return

/-! ### Strings -/

def hexValue? (c : Char) : Option Nat :=
  if c.isDigit then some (c.toNat - 48)
  else if 'a' ≤ c ∧ c ≤ 'f' then some (c.toNat - 87)
  else if 'A' ≤ c ∧ c ≤ 'F' then some (c.toNat - 55)
  else none

/-- Four hexadecimal digits. A fault among them is put on the fourth byte. -/
def hexEscape : Reader Nat := do
  let cs ← get
  if byteCount (cs.take 4) < 4 then ended
  match (cs.take 4).mapM hexValue? with
  | some [a, b, c, d] =>
    set (cs.drop 4)
    return ((a * 16 + b) * 16 + c) * 16 + d
  | _ => malformedAhead 3

def isHighSurrogate (n : Nat) : Bool :=
  0xD800 ≤ n && n ≤ 0xDBFF

def isLowSurrogate (n : Nat) : Bool :=
  0xDC00 ≤ n && n ≤ 0xDFFF

/-- Reads a character that must follow. -/
def expect (c : Char) : Reader Unit :=
  word [c]

/-- The character of an escape `\uXXXX`, or of two of them that form a surrogate pair. -/
def unicodeEscape : Reader Char := do
  let n ← hexEscape
  if isLowSurrogate n then malformedBefore
  if isHighSurrogate n then
    expect '\\'
    expect 'u'
    let m ← hexEscape
    if !isLowSurrogate m then malformedBefore
    return Char.ofNat (0x10000 + (n - 0xD800) * 0x400 + (m - 0xDC00))
  return Char.ofNat n

/-- The character of an escape of one letter. -/
def letterEscape? : Char → Option Char
  | '"' => some '"'
  | '\\' => some '\\'
  | '/' => some '/'
  | 'b' => some (Char.ofNat 8)
  | 'f' => some (Char.ofNat 12)
  | 'n' => some '\n'
  | 'r' => some '\r'
  | 't' => some '\t'
  | _ => none

/-- One escape after its backslash, with `unicode` for the form with four digits. -/
def escapeWith (unicode : Reader Char) : Reader Char := do
  match ← peek with
  | none => ended
  | some 'u' => advance; unicode
  | some c =>
    match letterEscape? c with
    | some d => advance; return d
    | none => malformed

/-- The characters up to the closing quote, in reverse order on `acc`. At a control character, which
must not stand in a string, `control` says where the fault is. -/
def stringLoop (unicode : Reader Char) (control : Reader Unit) (acc : List Char) :
    List Char → Reader (List Char)
  | [] => ended
  | _ :: bound => do
    match ← peek with
    | none => ended
    | some '"' => advance; return acc
    | some '\\' =>
      advance
      let c ← escapeWith unicode
      stringLoop unicode control (c :: acc) bound
    | some c =>
      if c.toNat < 32 then control
      advance
      stringLoop unicode control (c :: acc) bound

/-- A string after its opening quote. -/
def string : Reader String := do
  let cs ← stringLoop unicodeEscape malformed [] (← get)
  return String.ofList cs.reverse

/-- Skips a string after its opening quote. Surrogates need not pair up, and the byte before a
control character is the one that is reported. -/
def skipString : Reader Unit := do
  let _ ← stringLoop (do let _ ← hexEscape; return ' ') malformedBefore [] (← get)

/-! ### Arrays and objects -/

/-- Whether another item follows in an array; reads the comma before it, and the closing bracket if
none follows. -/
def nextItem (isFirst : Bool) : Reader Bool := do
  match ← peekToken with
  | none => ended
  | some ']' => advance; return false
  | some c =>
    if isFirst then return true
    if c != ',' then malformed
    advance
    match ← peekToken with
    | none => ended
    | some ']' => malformed
    | some _ => return true

/-- The name of the next field of an object, if one follows; reads the comma before it, and the
closing brace if none follows. -/
def nextKey (isFirst : Bool) (readKey : Reader String) : Reader (Option String) := do
  match ← peekToken with
  | none => ended
  | some '\x7d' => advance; return none
  | some c =>
    if !isFirst then
      if c != ',' then malformed
      advance
    match ← peekToken with
    | none => ended
    | some '"' => advance; return some (← readKey)
    | some _ => malformed

/-- The colon between a field's name and its value. -/
def colon : Reader Unit := do
  match ← peekToken with
  | none => ended
  | some ':' => advance
  | some _ => malformed

/-- Enters an array or object at its opening bracket, with so many levels left inside. -/
def enter (levels : Nat) : Reader Unit := do
  if levels = 0 then malformed
  advance

section Loops

variable {m : Type → Type} [Monad m] [MonadLiftT Reader m]

/-- Reads the items of an array up to its closing bracket. -/
def itemsFrom {α : Type} (item : m α) (isFirst : Bool) : List Char → m (List α)
  | [] => monadLift (ended : Reader (List α))
  | _ :: bound => do
    if ← nextItem isFirst then
      let a ← item
      return a :: (← itemsFrom item false bound)
    else return []

/-- Reads the items of an array after its opening bracket. -/
def items {α : Type} (item : m α) : m (List α) := do
  itemsFrom item true (← (get : Reader (List Char)))

/-- Reads the fields of an object up to its closing brace. What a field does to the state is up to
`field`, which is given the name and reads the rest. -/
def fieldsFrom {σ : Type} (readKey : Reader String) (field : String → σ → m σ) (state : σ)
    (isFirst : Bool) : List Char → m σ
  | [] => monadLift (ended : Reader σ)
  | _ :: bound => do
    match ← nextKey isFirst readKey with
    | none => return state
    | some key => fieldsFrom readKey field (← field key state) false bound

/-- Reads the fields of an object after its opening brace. -/
def fields {σ : Type} (readKey : Reader String) (field : String → σ → m σ) (init : σ) : m σ := do
  fieldsFrom readKey field init true (← (get : Reader (List Char)))

end Loops

/-- Reads a value. At an opening bracket or brace, `array` or `object` takes over. -/
def valueWith (array object : Reader Json) : Reader Json := do
  match ← peekToken with
  | none => ended
  | some 'n' => word "null".toList; return .null
  | some 't' => word "true".toList; return .bool true
  | some 'f' => word "false".toList; return .bool false
  | some '-' => advance; number true
  | some '"' => advance; return .str (← string)
  | some '[' => array
  | some '\x7b' => object
  | some c => if c.isDigit then number false else malformed

/-- A field of an object, put in front of those before it. -/
def field (value : Reader Json) (key : String) (acc : List (String × Json)) :
    Reader (List (String × Json)) := do
  colon
  return (key, ← value) :: acc

/-- A value with at most `levels - 1` levels of nesting. -/
def value : Nat → Reader Json
  | 0 => valueWith malformed malformed
  | levels + 1 =>
    valueWith
      (do enter levels; return .arr (← items (value levels)))
      (do enter levels; return .obj (← fields string (field (value levels)) []).reverse)

/-- Skips a field of an object. -/
def skipField (skip : Reader Unit) (_ : String) (_ : Unit) : Reader Unit := do
  colon
  skip

/-- Skips a value, which is no deeper than the text is long. -/
def skip : List Char → Reader Unit
  | [] => ended
  | _ :: bound => do
    match ← peekToken with
    | none => ended
    | some 'n' => word "null".toList
    | some 't' => word "true".toList
    | some 'f' => word "false".toList
    | some '-' => advance; skipNumber
    | some '"' => advance; skipString
    | some '[' => advance; discard (items (skip bound))
    | some '\x7b' =>
      advance
      fields (do skipString; return "") (skipField (skip bound)) ()
    | some c => if c.isDigit then skipNumber else malformed

/-- Skips a value. -/
def skipValue : Reader Unit := do
  skip (← get)

/-- Nothing but blanks may follow. -/
def finish : Reader Unit := do
  match ← peekToken with
  | none => return
  | some _ => malformed

end Reader

/-- Levels of nesting that are refused: 128 levels are one too many. -/
def levelLimit : Nat := 128

/-- Reads a whole text. -/
def parse (levels : Nat) (text : String) : Except Fault Json :=
  (do let j ← Reader.value levels; Reader.finish; return j : Reader Json).run' text.toList

end Warden.Json
