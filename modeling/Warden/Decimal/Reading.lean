/-!
# Floating-point numbers from decimal text

A decimal is read as a significand of at most 64 bits and a power of ten. Digits are taken into the
significand as long as it fits; from the first digit that does not, the rest are dropped, and each
one dropped before the point raises the power by one. The number is then the significand, rounded to
a double, multiplied or divided by the power, rounded again. That is exact for significands below
`2^53` and powers up to `10^22`, and within a few units of the last place otherwise.

A result too large for a double is refused; one too small is zero.
-/

namespace Warden.Decimal

/-- A decimal number while its digits are being read: `significand · 10^exponent`. -/
structure Accumulator where
  significand : Nat := 0
  exponent : Int := 0
  deriving Repr

namespace Accumulator

/-- The largest significand. -/
def limit : Nat := Nat.pow 2 64 - 1

/-- Takes digits before the point. The flag says whether all of them fitted. -/
def takeWhole (a : Accumulator) : List Nat → Accumulator × Bool
  | [] => (a, true)
  | d :: ds =>
    if a.significand * 10 + d ≤ limit then
      takeWhole { a with significand := a.significand * 10 + d } ds
    else ({ a with exponent := a.exponent + (ds.length + 1) }, false)

/-- Takes digits after the point. -/
def takeFraction (a : Accumulator) : List Nat → Accumulator
  | [] => a
  | d :: ds =>
    if a.significand * 10 + d ≤ limit then
      takeFraction { significand := a.significand * 10 + d, exponent := a.exponent - 1 } ds
    else a

end Accumulator

/-- The power of ten `10^n`, for `n` up to 308. -/
def powerOfTen (n : Nat) : Float :=
  Float.ofScientific 1 false n

/-- Divides by powers of ten until the exponent is reached. -/
def divideDown (x : Float) : Nat → Nat → Float
  | 0, _ => x
  | fuel + 1, n =>
    if n ≤ 308 then x / powerOfTen n
    else if x == 0.0 then x
    else divideDown (x / powerOfTen 308) fuel (n - 308)

/-- The double for `significand · 10^exponent`, unless it is too large. -/
def scale? (significand : Nat) (exponent : Int) : Option Float :=
  let x := significand.toUInt64.toFloat
  match exponent with
  | .ofNat n =>
    if n ≤ 308 then
      let y := x * powerOfTen n
      if y.isInf then none else some y
    else if x == 0.0 then some x
    else none
  | .negSucc n => some (divideDown x 4 (n + 1))

end Warden.Decimal
