import ModContent.Number.Binary

/-!
# The shortest decimal that reads back

A double is printed with the fewest decimal digits that a correctly rounding reader takes back to
it. The reals that round to a double form an interval; on the grid of the decimals with `n` digits
only the two neighbours of the double itself need to be tried, and the first `n` that has a
neighbour in the interval gives the digits. Of two the nearer one is taken, of two equally near
ones the greater. `Binary64.positional` writes these digits without an exponent.
-/

namespace ModContent

/-- A positive decimal, `digits * 10 ^ exponent`. -/
structure Decimal where
  digits : Nat
  exponent : Int
  deriving DecidableEq, Repr

namespace Decimal

/-- The same decimal without zeros at the end of its digits. The fuel bounds their number. -/
def dropZeros : Nat → Decimal → Decimal
  | 0, d => d
  | fuel + 1, d =>
    if d.digits ≠ 0 ∧ d.digits % 10 = 0 then dropZeros fuel ⟨d.digits / 10, d.exponent + 1⟩ else d

/-- The decimal written out in full: whole part, and a point and fraction if there is one. -/
def positional (d : Decimal) : List Char :=
  let text := Nat.toDigits 10 d.digits
  if 0 ≤ d.exponent then text ++ List.replicate d.exponent.toNat '0'
  else
    let places := (-d.exponent).toNat
    if places < text.length then
      text.take (text.length - places) ++ '.' :: text.drop (text.length - places)
    else '0' :: '.' :: (List.replicate (places - text.length) '0' ++ text)

end Decimal

namespace Binary64

/-- The leading digit of a normal significand, which the bit pattern leaves out. -/
def leadingBit : Nat := 0x10000000000000

/-- The significand and the exponent of two of a finite double. -/
def decode (x : Binary64) : Nat × Int :=
  let field : Nat := x.magnitude / leadingBit
  let fraction : Nat := x.magnitude % leadingBit
  if field = 0 then (fraction, -1074) else (leadingBit + fraction, (field : Int) - 1075)

/-- The reals that round to a positive double: numerators of the ends and of the double itself over
a common denominator, and whether the ends belong. -/
structure Interval where
  low : Nat
  mid : Nat
  high : Nat
  den : Nat
  closed : Bool

/-- Half a step lies between a double and its ends, but only a quarter below a power of two, where
the steps beneath are half as long. -/
def interval (x : Binary64) : Interval :=
  let (significand, exponent) := x.decode
  let up := Nat.pow 2 exponent.toNat
  let below := if significand = leadingBit ∧ -1074 < exponent then 1 else 2
  { low := (4 * significand - below) * up
    mid := 4 * significand * up
    high := (4 * significand + 2) * up
    den := 4 * Nat.pow 2 (-exponent).toNat
    closed := significand % 2 == 0 }

/-- Whether `digits * 10 ^ exponent` lies in the interval. -/
def Interval.holds (i : Interval) (d : Decimal) : Bool :=
  let value := d.digits * Nat.pow 10 d.exponent.toNat * i.den
  let unit := Nat.pow 10 (-d.exponent).toNat
  if i.closed then decide (i.low * unit ≤ value) && decide (value ≤ i.high * unit)
  else decide (i.low * unit < value) && decide (value < i.high * unit)

/-- The greatest `k` with `10 ^ k` at most the double, found upwards from `k`. -/
def Interval.floorLog10 (i : Interval) : Nat → Int → Int
  | 0, k => k
  | fuel + 1, k =>
    if Nat.pow 10 (k + 1).toNat * i.den ≤ i.mid * Nat.pow 10 (-(k + 1)).toNat then
      i.floorLog10 fuel (k + 1)
    else k

/-- The better of the double's two neighbours on the grid of the multiples of `10 ^ exponent`, if
one of them lies in the interval. -/
def Interval.neighbour? (i : Interval) (exponent : Int) : Option Decimal :=
  let unit := Nat.pow 10 exponent.toNat * i.den
  let value := i.mid * Nat.pow 10 (-exponent).toNat
  let below : Decimal := ⟨value / unit, exponent⟩
  let above : Decimal := ⟨value / unit + 1, exponent⟩
  let rest := value % unit
  match i.holds below, i.holds above with
  | true, true => some (if 2 * rest < unit then below else above)
  | true, false => some below
  | false, true => some above
  | false, false => none

/-- The fewest digits that read back, tried from one digit on; seventeen always suffice. -/
def shortest (x : Binary64) : Decimal :=
  let i := x.interval
  let top := i.floorLog10 700 (-330)
  let found := (List.range 17).findSome? fun (n : Nat) ↦ i.neighbour? (top - n)
  Decimal.dropZeros 20 (found.getD ⟨0, 0⟩)

/-- A double in full, never with an exponent. -/
def positional (x : Binary64) : List Char :=
  if x.isNaN then "NaN".toList
  else
    let sign := if x.isNegative then ['-'] else []
    let size :=
      if x.isInfinite then "inf".toList
      else if x.magnitude = 0 then ['0']
      else x.shortest.positional
    sign ++ size

end Binary64

end ModContent
