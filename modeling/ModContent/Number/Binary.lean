/-!
# Binary floating-point numbers as bit patterns

A `BinaryFormat` says how many digits a significand has and where the exponents begin and end.
`BinaryFormat.nearest` takes a positive quotient of natural numbers to the bit pattern of the
nearest number of the format, a tie to the even one; every step is exact arithmetic on natural
numbers. `Binary64` is the double format, `Binary32` the single one.
-/

namespace ModContent

/-! ### Rounding a quotient -/

/-- The natural number nearest to `num / den`; of two equally near ones the even one. -/
def roundHalfEven (num den : Nat) : Nat :=
  let quotient := num / den
  let twice := 2 * (num % den)
  if twice < den then quotient
  else if den < twice then quotient + 1
  else quotient + quotient % 2

/-- The numerator and denominator of `num / den / 2 ^ exponent`. -/
def scaleDown (num den : Nat) (exponent : Int) : Nat × Nat :=
  (num * Nat.pow 2 (-exponent).toNat, den * Nat.pow 2 exponent.toNat)

/-- The greatest `k` with `2 ^ k ≤ num / den`, for positive `num` and `den`. -/
def floorLog2 (num den : Nat) : Int :=
  let estimate : Int := (num.log2 : Int) - (den.log2 : Int)
  let scaled := scaleDown num den estimate
  if scaled.2 ≤ scaled.1 then estimate else estimate - 1

/-! ### Formats -/

/-- A binary interchange format without its sign. -/
structure BinaryFormat where
  /-- The number of binary digits of a normal significand. -/
  precision : Nat
  /-- The exponent of the last digit of the least positive number, negated. -/
  leastExponent : Nat
  /-- The bit pattern of positive infinity. -/
  infinity : Nat
  deriving DecidableEq, Repr

/-- Doubles have 53 significant digits and reach down to `2 ^ (-1074)`. -/
def BinaryFormat.double : BinaryFormat := ⟨53, 1074, 0x7FF0000000000000⟩

/-- Singles have 24 significant digits and reach down to `2 ^ (-149)`. -/
def BinaryFormat.single : BinaryFormat := ⟨24, 149, 0x7F800000⟩

/-- The bit pattern of the number of the format nearest to the positive quotient `num / den`. A
significand that rounds up to the next power of two carries into the exponent field by itself. -/
def BinaryFormat.nearest (format : BinaryFormat) (num den : Nat) : Nat :=
  let exponent :=
    max (floorLog2 num den - (format.precision - 1 : Nat)) (-(format.leastExponent : Int))
  let scaled := scaleDown num den exponent
  let significand := roundHalfEven scaled.1 scaled.2
  let fieldStep := (exponent + format.leastExponent).toNat
  min (fieldStep * Nat.pow 2 (format.precision - 1) + significand) format.infinity

/-! ### Doubles -/

/-- A double, by its bit pattern. -/
structure Binary64 where
  bits : UInt64
  deriving DecidableEq, Repr

namespace Binary64

/-- The bit of the sign. -/
def signBit : Nat := 0x8000000000000000

/-- The double with this magnitude pattern and sign. -/
def ofMagnitude (negative : Bool) (magnitude : Nat) : Binary64 :=
  ⟨UInt64.ofNat (if negative then magnitude + signBit else magnitude)⟩

/-- Whether the sign bit is set. -/
def isNegative (x : Binary64) : Bool :=
  decide (signBit ≤ x.bits.toNat)

/-- The bit pattern without the sign. -/
def magnitude (x : Binary64) : Nat :=
  x.bits.toNat % signBit

/-- The positive zero. -/
def zero : Binary64 := ofMagnitude false 0

/-- The number one. -/
def one : Binary64 := ofMagnitude false 0x3FF0000000000000

/-- The infinity of a sign. -/
def infinity (negative : Bool) : Binary64 :=
  ofMagnitude negative BinaryFormat.double.infinity

/-- The one value kept for "not a number". -/
def nan : Binary64 := ofMagnitude false 0x7FF8000000000000

/-- Whether a number is infinite, of either sign. -/
def isInfinite (x : Binary64) : Bool :=
  x.magnitude == BinaryFormat.double.infinity

/-- Whether the magnitude is above that of infinity, so that there is no number. -/
def isNaN (x : Binary64) : Bool :=
  decide (BinaryFormat.double.infinity < x.magnitude)

/-- The double nearest to `digits * 10 ^ exponent`, with the given sign. Far outside the range of
the format the exponent alone decides. -/
def ofDecimal (negative : Bool) (digits : Nat) (exponent : Int) : Binary64 :=
  if digits = 0 then ofMagnitude negative 0
  else
    let places : Int := exponent + (Nat.toDigits 10 digits).length
    if 400 < places then infinity negative
    else if places < -400 then ofMagnitude negative 0
    else
      ofMagnitude negative <|
        BinaryFormat.double.nearest (digits * Nat.pow 10 exponent.toNat)
          (Nat.pow 10 (-exponent).toNat)

end Binary64

/-! ### Singles -/

/-- A single, by its bit pattern. -/
structure Binary32 where
  bits : UInt32
  deriving DecidableEq, Repr

/-- The single nearest to `num / den`. -/
def Binary32.ofRatio (num den : Nat) : Binary32 :=
  if num = 0 then ⟨0⟩ else ⟨UInt32.ofNat (BinaryFormat.single.nearest num den)⟩

end ModContent
