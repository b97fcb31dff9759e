import ModContent.Number.Binary

/-!
# Numbers written in text

`readInteger` reads a signed integer of 64 bits and `readDecimal` a double. Both take the whole
text and ASCII digits only: a blank, an underscore or a digit of another script makes the text
unreadable.
-/

namespace ModContent

/-! ### Digits -/

/-- The value of an ASCII decimal digit. -/
def decimalDigit? (c : Char) : Option Nat :=
  if '0'.toNat ≤ c.toNat && c.toNat ≤ '9'.toNat then some (c.toNat - '0'.toNat) else none

/-- The value of an ASCII hexadecimal digit, of either case. -/
def hexDigit? (c : Char) : Option Nat :=
  if '0'.toNat ≤ c.toNat && c.toNat ≤ '9'.toNat then some (c.toNat - '0'.toNat)
  else if 'a'.toNat ≤ c.toNat && c.toNat ≤ 'f'.toNat then some (c.toNat - 'a'.toNat + 10)
  else if 'A'.toNat ≤ c.toNat && c.toNat ≤ 'F'.toNat then some (c.toNat - 'A'.toNat + 10)
  else none

/-- Whether a character is one of the ten ASCII digits. -/
def isDecimalDigit (c : Char) : Bool :=
  (decimalDigit? c).isSome

/-- The number that a row of decimal digits stands for, after the digits read so far. -/
def digitsValue (digits : List Char) (soFar : Nat) : Nat :=
  digits.foldl (fun n c ↦ 10 * n + (decimalDigit? c).getD 0) soFar

/-- An optional sign and what follows it. -/
def takeSign : List Char → Bool × List Char
  | '-' :: rest => (true, rest)
  | '+' :: rest => (false, rest)
  | text => (false, text)

/-! ### Integers -/

/-- The bounds of the integers that content may hold. -/
def integerMin : Int := -0x8000000000000000

@[inherit_doc integerMin] def integerMax : Int := 0x7FFFFFFFFFFFFFFF

/-- An optional sign and at least one digit, in the range of 64 bits. -/
def readInteger (text : List Char) : Option Int :=
  let signed := takeSign text
  let digits := signed.2
  if digits.isEmpty || !digits.all isDecimalDigit then none
  else
    let size : Int := digitsValue digits 0
    let value := if signed.1 then -size else size
    if integerMin ≤ value && value ≤ integerMax then some value else none

/-! ### Decimals -/

/-- An exponent: nothing, or `e` in either case, an optional sign and at least one digit. -/
def readExponent : List Char → Option Int
  | [] => some 0
  | c :: rest =>
    if c = 'e' || c = 'E' then
      let signed := takeSign rest
      let digits := signed.2
      if digits.isEmpty || !digits.all isDecimalDigit then none
      else
        let size : Int := digitsValue digits 0
        some (if signed.1 then -size else size)
    else none

/-- Digits with an optional point among or beside them, at least one digit in all, and an optional
exponent. -/
def readUnsignedDecimal (negative : Bool) (text : List Char) : Option Binary64 :=
  let whole := text.takeWhile isDecimalDigit
  let afterWhole := text.dropWhile isDecimalDigit
  let (fraction, rest) :=
    match afterWhole with
    | '.' :: tail => (tail.takeWhile isDecimalDigit, tail.dropWhile isDecimalDigit)
    | _ => ([], afterWhole)
  if whole.isEmpty && fraction.isEmpty then none
  else
    (readExponent rest).map fun exponent ↦
      Binary64.ofDecimal negative (digitsValue fraction (digitsValue whole 0))
        (exponent - fraction.length)

/-- A decimal with an optional sign, or one of the words `inf`, `infinity` and `nan` in any case. -/
def readDecimal (text : List Char) : Option Binary64 :=
  let signed := takeSign text
  let word := String.ofList (signed.2.map Char.toLower)
  if word = "inf" || word = "infinity" then some (Binary64.infinity signed.1)
  else if word = "nan" then some Binary64.nan
  else readUnsignedDecimal signed.1 signed.2

end ModContent
