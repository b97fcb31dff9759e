import ModContent.Number.Reading

/-!
# JSON values

A text is read as one JSON value with nothing but blanks around it. Numbers keep their text. A
string is read in two steps: its pieces, where an escaped code unit of UTF-16 is a piece of its
own, and then the text they spell. A string with an unpaired surrogate is well formed but has no
text.
-/

namespace ModContent

/-- A value of JSON. Numbers keep their text, and a string that is no valid Unicode has none. -/
inductive JsonValue where
  | null
  | bool (b : Bool)
  | number (text : String)
  | string (text : Option String)
  | array (items : List JsonValue)
  | object (fields : List (Option String × JsonValue))
  deriving Repr

namespace JsonValue

/-! ### Strings -/

/-- A character, or a code unit written as an escape. -/
inductive Piece where
  | char (c : Char)
  | unit (n : Nat)
  deriving DecidableEq, Repr

/-- The character that a one-letter escape stands for. -/
def escaped? (c : Char) : Option Char :=
  match c with
  | '"' => some '"'
  | '\\' => some '\\'
  | '/' => some '/'
  | 'b' => some '\x08'
  | 'f' => some '\x0c'
  | 'n' => some '\n'
  | 'r' => some '\r'
  | 't' => some '\t'
  | _ => none

/-- The pieces up to the closing quote, and what follows it. Control characters must be escaped. -/
def readPieces : List Char → Option (List Piece × List Char)
  | [] => none
  | '"' :: rest => some ([], rest)
  | '\\' :: 'u' :: a :: b :: c :: d :: rest => do
    let digits ← [a, b, c, d].mapM hexDigit?
    let (pieces, after) ← readPieces rest
    return (.unit (digits.foldl (fun n digit ↦ 16 * n + digit) 0) :: pieces, after)
  | '\\' :: c :: rest => do
    let c ← escaped? c
    let (pieces, after) ← readPieces rest
    return (.char c :: pieces, after)
  | c :: rest =>
    if c.toNat < 0x20 then none
    else do
      let (pieces, after) ← readPieces rest
      return (.char c :: pieces, after)

/-- Whether a code unit is the first of a surrogate pair. -/
def isLead (n : Nat) : Bool := 0xD800 ≤ n && n < 0xDC00

/-- Whether a code unit is the second of a surrogate pair. -/
def isTrail (n : Nat) : Bool := 0xDC00 ≤ n && n < 0xE000

/-- The text that pieces spell: two paired surrogates make one character, an unpaired one none. -/
def spell? : List Piece → Option (List Char)
  | [] => some []
  | .char c :: rest => (spell? rest).map (c :: ·)
  | .unit n :: rest =>
    if isLead n then
      match rest with
      | .unit m :: rest =>
        if isTrail m then
          (spell? rest).map (Char.ofNat (0x10000 + 0x400 * (n - 0xD800) + (m - 0xDC00)) :: ·)
        else none
      | _ => none
    else if isTrail n then none
    else (spell? rest).map (Char.ofNat n :: ·)

/-- A string after its opening quote. -/
def readString (text : List Char) : Option (Option String × List Char) :=
  (readPieces text).map fun (pieces, rest) ↦ ((spell? pieces).map String.ofList, rest)

/-! ### Numbers -/

/-- At least one digit, and what follows. -/
def readDigits (text : List Char) : Option (List Char × List Char) :=
  let digits := text.takeWhile isDecimalDigit
  if digits.isEmpty then none else some (digits, text.dropWhile isDecimalDigit)

/-- The whole part of a number, which has no leading zero. -/
def readWhole : List Char → Option (List Char × List Char)
  | '0' :: rest => some (['0'], rest)
  | text => readDigits text

/-- The decimal point and the digits behind it, if there is a point. -/
def readFraction : List Char → Option (List Char × List Char)
  | '.' :: rest => (readDigits rest).map fun (digits, rest) ↦ ('.' :: digits, rest)
  | text => some ([], text)

/-- The exponent with its sign, if there is one. -/
def readPower (text : List Char) : Option (List Char × List Char) :=
  match text with
  | e :: rest =>
    if e = 'e' || e = 'E' then
      match rest with
      | sign :: digits =>
        if sign = '+' || sign = '-' then
          (readDigits digits).map fun (digits, rest) ↦ (e :: sign :: digits, rest)
        else (readDigits rest).map fun (digits, rest) ↦ (e :: digits, rest)
      | [] => none
    else some ([], text)
  | [] => some ([], [])

/-- A number, by its text. -/
def readNumber (text : List Char) : Option (JsonValue × List Char) := do
  let (sign, text) :=
    match text with
    | '-' :: rest => (['-'], rest)
    | _ => ([], text)
  let (whole, text) ← readWhole text
  let (fraction, text) ← readFraction text
  let (power, text) ← readPower text
  return (.number (String.ofList (sign ++ whole ++ fraction ++ power)), text)

/-! ### Values -/

/-- The four characters that may stand between values. -/
def isBlank (c : Char) : Bool := c == ' ' || c == '\t' || c == '\n' || c == '\r'

/-- What follows the blanks at the start of a text. -/
def skipBlanks (text : List Char) : List Char := text.dropWhile isBlank

mutual

/-- A value at the start of a text. The fuel bounds the nesting and the number of parts, for which
the length of the text is enough. -/
def readValue : Nat → List Char → Option (JsonValue × List Char)
  | 0, _ => none
  | fuel + 1, text =>
    match skipBlanks text with
    | 'n' :: 'u' :: 'l' :: 'l' :: rest => some (.null, rest)
    | 't' :: 'r' :: 'u' :: 'e' :: rest => some (.bool true, rest)
    | 'f' :: 'a' :: 'l' :: 's' :: 'e' :: rest => some (.bool false, rest)
    | '"' :: rest => (readString rest).map fun (text, rest) ↦ (.string text, rest)
    | '[' :: rest =>
      match skipBlanks rest with
      | ']' :: rest => some (.array [], rest)
      | rest => (readItems fuel rest).map fun (items, rest) ↦ (.array items, rest)
    | '{' :: rest =>
      match skipBlanks rest with
      | '}' :: rest => some (.object [], rest)
      | rest => (readFields fuel rest).map fun (fields, rest) ↦ (.object fields, rest)
    | text => readNumber text

/-- The items of an array up to its closing bracket, at least one. -/
def readItems : Nat → List Char → Option (List JsonValue × List Char)
  | 0, _ => none
  | fuel + 1, text => do
    let (item, rest) ← readValue fuel text
    match skipBlanks rest with
    | ']' :: rest => return ([item], rest)
    | ',' :: rest =>
      let (items, rest) ← readItems fuel rest
      return (item :: items, rest)
    | _ => none

/-- The fields of an object up to its closing brace, at least one. -/
def readFields : Nat → List Char → Option (List (Option String × JsonValue) × List Char)
  | 0, _ => none
  | fuel + 1, text =>
    match skipBlanks text with
    | '"' :: rest => do
      let (name, rest) ← readString rest
      match skipBlanks rest with
      | ':' :: rest =>
        let (value, rest) ← readValue fuel rest
        match skipBlanks rest with
        | '}' :: rest => return ([(name, value)], rest)
        | ',' :: rest =>
          let (fields, rest) ← readFields fuel rest
          return ((name, value) :: fields, rest)
        | _ => none
      | _ => none
    | _ => none

end

/-- The value of a whole text. -/
def parse (text : String) : Option JsonValue := do
  let chars := text.toList
  let (value, rest) ← readValue (2 * chars.length + 1) chars
  if (skipBlanks rest).isEmpty then some value else none

/-! ### Writing strings -/

/-- The two lower-case hexadecimal digits of a control character. -/
def controlDigits (n : Nat) : List Char :=
  [Nat.digitChar (n / 16), Nat.digitChar (n % 16)]

/-- A character inside a string: the quote, the backslash and control characters are escaped. -/
def writeChar (c : Char) : List Char :=
  match c with
  | '"' => ['\\', '"']
  | '\\' => ['\\', '\\']
  | '\x08' => ['\\', 'b']
  | '\x0c' => ['\\', 'f']
  | '\n' => ['\\', 'n']
  | '\r' => ['\\', 'r']
  | '\t' => ['\\', 't']
  | c => if c.toNat < 0x20 then '\\' :: 'u' :: '0' :: '0' :: controlDigits c.toNat else [c]

/-- A string with its quotes. -/
def writeString (text : String) : List Char :=
  '"' :: text.toList.flatMap writeChar ++ ['"']

end JsonValue

end ModContent
