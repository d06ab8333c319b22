import Warden.Decimal.Shortest
import Warden.Json.Basic

/-!
# Compact JSON text

`Json.compact` writes a value without any blank: fields in the order of the value, strings with
quotes, backslashes and control characters escaped and everything else as it is. Since every control
character is escaped, the text of a value never contains a line break, so one value per line is an
unambiguous format.
-/

namespace Warden.Json

/-- A hexadecimal digit in lower case. -/
def hexDigit (n : Nat) : Char :=
  if n < 10 then Char.ofNat (48 + n) else Char.ofNat (87 + n)

/-- One character inside a JSON string. -/
def escape (c : Char) : List Char :=
  if c = '"' then ['\\', '"']
  else if c = '\\' then ['\\', '\\']
  else if c = '\n' then ['\\', 'n']
  else if c = '\r' then ['\\', 'r']
  else if c = '\t' then ['\\', 't']
  else if c.toNat = 8 then ['\\', 'b']
  else if c.toNat = 12 then ['\\', 'f']
  else if c.toNat < 32 then
    ['\\', 'u', '0', '0', hexDigit (c.toNat / 16), hexDigit (c.toNat % 16)]
  else [c]

/-- A string between quotes. -/
def quote (s : String) : List Char :=
  '"' :: s.toList.flatMap escape ++ ['"']

/-- A number's decimal digits. -/
def natDigits (n : Nat) : List Char :=
  Nat.toDigits 10 n

def intDigits : Int → List Char
  | .ofNat n => natDigits n
  | .negSucc n => '-' :: natDigits (n + 1)

/-- The digits of a decimal with its point set: positional from `10^-5` up to `10^16`, with an
exponent outside, and always a point or an exponent, so that it reads as no whole number. -/
def placePoint (d : Decimal.Scientific) : List Char :=
  let ds := natDigits d.coefficient
  let whole : Int := ds.length + d.exponent
  if d.coefficient = 0 then ['0', '.', '0']
  else if 0 ≤ d.exponent ∧ whole ≤ 16 then
    ds ++ List.replicate d.exponent.toNat '0' ++ ['.', '0']
  else if 0 < whole ∧ whole ≤ 16 then
    ds.take whole.toNat ++ '.' :: ds.drop whole.toNat
  else if -5 < whole ∧ whole ≤ 0 then
    '0' :: '.' :: List.replicate (-whole).toNat '0' ++ ds
  else
    match ds with
    | [] => []
    | [d] => d :: 'e' :: intDigits (whole - 1)
    | d :: rest => d :: '.' :: rest ++ 'e' :: intDigits (whole - 1)

/-- A floating-point number by its shortest digits. -/
def floatText (x : Float) : List Char :=
  let text := placePoint (Decimal.shortest x)
  if Decimal.isNegative x then '-' :: text else text

mutual

/-- The characters of a value's compact text. -/
def print : Json → List Char
  | .null => "null".toList
  | .bool true => "true".toList
  | .bool false => "false".toList
  | .int n => intDigits n
  | .float x => floatText x
  | .str s => quote s
  | .arr [] => ['[', ']']
  | .arr (item :: items) => '[' :: print item ++ printItems items
  | .obj [] => ['\x7b', '\x7d']
  | .obj ((key, value) :: fields) =>
    '\x7b' :: quote key ++ ':' :: print value ++ printFields fields

/-- The remaining items of an array and its closing bracket. -/
def printItems : List Json → List Char
  | [] => [']']
  | item :: items => ',' :: print item ++ printItems items

/-- The remaining fields of an object and its closing brace. -/
def printFields : List (String × Json) → List Char
  | [] => ['\x7d']
  | (key, value) :: fields => ',' :: quote key ++ ':' :: print value ++ printFields fields

end

/-- A value as compact JSON text. -/
def compact (j : Json) : String :=
  String.ofList j.print

end Warden.Json
