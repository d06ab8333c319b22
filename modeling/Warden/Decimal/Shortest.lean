/-!
# Shortest decimal digits of a floating-point number

A finite positive double is `m · 2^q` for natural `m` and integer `q`. Every real number nearer to
it than to its neighbours reads back as the same double; so do the two midpoints when `m` is even.
Of all decimals in that interval we want one with the fewest digits, and of those the nearest to the
double itself.

`Shortest.digits` looks at decimal grids from coarse to fine. On the grid of spacing `10^p` only the
two points around the double matter: if any grid point lies in the interval, one of these two does.
The first grid with a point in the interval gives the answer. Seventeen digits always suffice.

All comparisons are exact: both sides are scaled to natural numbers.
-/

namespace Warden.Decimal

/-- A decimal number `coefficient · 10^exponent`. -/
structure Scientific where
  coefficient : Nat
  exponent : Int
  deriving DecidableEq, Repr, Inhabited

namespace Shortest

/-- The double `m · 2^q` with the gaps to the midpoints: numbers are given in units of
`2^(q - 2)`, so the double is `4m`, the upper midpoint `4m + 2`, and the lower one `4m - 2`, or
`4m - 1` where the next double below is half as far away. -/
structure Target where
  mantissa : Nat
  power : Int
  lowGap : Nat
  deriving Repr

/-- The unit `2^(q - 2)` and the grid step `10^p` over a common scale: a count `x` of units is
compared with a count `c` of steps as `x · units` against `c · steps`. -/
def scales (t : Target) (p : Int) : Nat × Nat :=
  let twos := t.power - 2
  (Nat.pow 2 twos.toNat * Nat.pow 10 (-p).toNat, Nat.pow 10 p.toNat * Nat.pow 2 (-twos).toNat)

/-- Whether `c` steps of `10^p` read back as the target. -/
def readsBack (t : Target) (p : Int) (c : Nat) : Bool :=
  let (units, steps) := scales t p
  let value := c * steps
  let low := (4 * t.mantissa - t.lowGap) * units
  let high := (4 * t.mantissa + 2) * units
  if t.mantissa % 2 == 0 then low ≤ value && value ≤ high
  else low < value && value < high

/-- The nearer of the two grid points around the target that read back, if one does. -/
def onGrid (t : Target) (p : Int) : Option Nat :=
  let (units, steps) := scales t p
  let below := 4 * t.mantissa * units / steps
  let above := below + 1
  let nearBelow := 2 * (4 * t.mantissa * units - below * steps) ≤ steps
  match readsBack t p below && below != 0, readsBack t p above with
  | true, true => some (if nearBelow then below else above)
  | true, false => some below
  | false, true => some above
  | false, false => none

/-- Searches the grids `10^p`, `10^(p - 1)`, … -/
def search (t : Target) : Nat → Int → Option Scientific
  | 0, _ => none
  | n + 1, p =>
    match onGrid t p with
    | some c => some ⟨c, p⟩
    | none => search t n (p - 1)

/-- An exponent of ten above the target: `10^p` exceeds it. -/
def ceiling (t : Target) : Int :=
  -- 30103 / 100000 is just above the logarithm of 2 to base 10
  let bits : Int := t.power + t.mantissa.log2 + 1
  bits * 30103 / 100000 + 1

/-- The shortest digits that read back, without zeros at the end. -/
def digits (t : Target) : Scientific :=
  match search t 20 (ceiling t) with
  | some s => s
  | none => ⟨t.mantissa, 0⟩

end Shortest

/-- The magnitude of a finite double as mantissa and power of two, from its bits. Zero has none. -/
def Shortest.ofBits (bits : UInt64) : Option Shortest.Target :=
  let fraction : Nat := bits.toNat % Nat.pow 2 52
  let exponent : Nat := bits.toNat / Nat.pow 2 52 % Nat.pow 2 11
  if exponent == 0 then
    if fraction == 0 then none
    else some { mantissa := fraction, power := -1074, lowGap := 2 }
  else
    some {
      mantissa := Nat.pow 2 52 + fraction
      power := (exponent : Int) - 1075
      lowGap := if fraction == 0 && exponent > 1 then 1 else 2 }

/-- The fewest digits that read back as the double, nearest first; zero is `0 · 10^0`. -/
def shortest (x : Float) : Scientific :=
  match Shortest.ofBits x.toBits with
  | none => ⟨0, 0⟩
  | some t => Shortest.digits t

/-- Whether the sign bit is set; it is for negative zero too. -/
def isNegative (x : Float) : Bool :=
  x.toBits.toNat / Nat.pow 2 63 == 1

end Warden.Decimal
