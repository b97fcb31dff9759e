import ModContent.Number.Reading
import ModContent.Yaml.Cursor

/-!
# Writing scalars of YAML

A text is written plain if a reader then takes it for this very text, in single quotes if that
suffices, and in double quotes with escapes otherwise. A text of several lines is written as a
literal block where that is possible. `ScalarStyle.of` makes the choice and `writeScalar` writes
the scalar, for a scalar that is a value or an item at the outermost level.
-/

namespace ModContent.Yaml

/-! ### Texts that read as something else -/

/-- The words that readers take for null, for a truth value, or for nothing at all. -/
def reservedWords : List String :=
  ["", "~", "null", "Null", "NULL", "true", "True", "TRUE", "false", "False", "FALSE",
    "y", "Y", "yes", "Yes", "YES", "n", "N", "no", "No", "NO",
    "on", "On", "ON", "off", "Off", "OFF",
    ".inf", ".Inf", ".INF", "+.inf", "+.Inf", "+.INF", "-.inf", "-.Inf", "-.INF",
    ".nan", ".NaN", ".NAN"]

/-- The number that hexadecimal digits below some base spell. -/
def spelled? (base : Nat) (digits : List Char) : Option Nat := do
  if digits.isEmpty then none
  let values ← digits.mapM hexDigit?
  if values.all (· < base) then some (values.foldl (fun n digit ↦ base * n + digit) 0) else none

/-- A base by the letter that stands for it behind a zero. -/
def baseOf? (c : Char) : Option Nat :=
  match c with
  | 'x' => some 16
  | 'o' => some 8
  | 'b' => some 2
  | _ => none

/-- A whole number of at most 128 bits with a letter for its base, such as `0x1F`. -/
def isBasedInteger (text : List Char) : Bool :=
  let (negative, size) := takeSign text
  match size with
  | '0' :: letter :: digits =>
    match (baseOf? letter).bind fun base ↦ spelled? base digits with
    | some n => if negative then decide (n ≤ Nat.pow 2 127) else decide (n < Nat.pow 2 128)
    | none => false
  | _ => false

/-- A number that is neither infinite nor "not a number". -/
def isFiniteDecimal (text : List Char) : Bool :=
  (readDecimal text).any fun x ↦ !x.isInfinite && !x.isNaN

/-- A zero with further digits behind it, which only some readers take for a number. -/
def hasLeadingZero (text : List Char) : Bool :=
  match (takeSign text).2 with
  | '0' :: digits => !digits.isEmpty && digits.all isDecimalDigit
  | _ => false

/-- Whether some reader would take the plain text for something other than text. -/
def readsAsOther (text : List Char) : Bool :=
  reservedWords.contains (String.ofList text) || isBasedInteger text || isFiniteDecimal text ||
    hasLeadingZero text

/-! ### What a text holds -/

/-- The characters that end a line. -/
def isLineEnd (c : Char) : Bool :=
  c == '\n' || c == '\r' || c.toNat == 0x85 || c.toNat == 0x2028 || c.toNat == 0x2029

/-- The characters that may be written as they are. -/
def isWritable (c : Char) : Bool :=
  let n := c.toNat
  n == 0x0A || (0x20 ≤ n && n ≤ 0x7E) || (0xA0 ≤ n && n != 0xFEFF && n != 0xFFFE && n != 0xFFFF)

/-- Whether two neighbours of these kinds occur. -/
def hasNeighbours (p q : Char → Bool) (text : List Char) : Bool :=
  (text.zip text.tail).any fun (a, b) ↦ p a && q b

/-- Whether a character is the space. -/
def isSpace (c : Char) : Bool := c == ' '

/-- What stands behind an indicator to make it one. -/
def isBlankOrEnd : Option Char → Bool
  | none => true
  | some c => c == ' ' || c == '\t' || c.toNat == 0 || isLineEnd c

/-- The characters that never begin a plain scalar. -/
def neverFirst (c : Char) : Bool :=
  "#,[]\x7b\x7d&*!|>'\"%@".toList.contains c || c.toNat == 0x60

/-- Whether the text begins like something that is no plain scalar. -/
def beginsWithIndicator (text : List Char) : Bool :=
  text.take 3 == ['-', '-', '-'] || text.take 3 == ['.', '.', '.'] ||
    match text with
    | c :: rest =>
      neverFirst c || ((c == '?' || c == ':' || c == '-') && isBlankOrEnd rest.head?)
    | [] => false

/-- Whether a plain scalar would end within the text: at a colon with a blank behind it, or at a
number sign with one before it. -/
def holdsIndicator : List Char → Bool
  | [] => false
  | c :: rest =>
    (c == ':' && isBlankOrEnd rest.head?) || (isBlankOrEnd (some c) && rest.head? == some '#') ||
      holdsIndicator rest

/-! ### The choice of a style -/

/-- The ways to write a scalar. -/
inductive ScalarStyle where
  | plain
  | singleQuoted
  | doubleQuoted
  | literal
  deriving DecidableEq, Repr

/-- Whether the text can be written without quotes. -/
def allowsPlain (text : List Char) : Bool :=
  !text.head?.any isSpace && !text.getLast?.any isSpace && !text.any isLineEnd &&
    text.all isWritable && !beginsWithIndicator text && !holdsIndicator text

/-- Whether the text can be written in single quotes: blanks beside line ends would get lost. -/
def allowsSingleQuotes (text : List Char) : Bool :=
  text.all isWritable && !hasNeighbours isSpace isLineEnd text &&
    !hasNeighbours isLineEnd isSpace text

/-- Whether the text can be written as a literal block. -/
def allowsBlock (text : List Char) : Bool :=
  text.all isWritable && !hasNeighbours isSpace isLineEnd text && !text.getLast?.any isSpace

/-- The style in which a text is written. -/
def ScalarStyle.of (text : List Char) : ScalarStyle :=
  if '\n' ∈ text then
    if allowsBlock text then .literal else .doubleQuoted
  else if allowsPlain text && !readsAsOther text then .plain
  else if allowsSingleQuotes text then .singleQuoted
  else .doubleQuoted

/-! ### Writing -/

/-- The indentation of lines within a scalar. -/
def scalarIndent : List Char := [' ', ' ']

/-- The lines of a text of several lines, each but the first one indented unless it is empty. -/
def indentLines (atStart : Bool) : List Char → List Char
  | [] => []
  | c :: rest =>
    if isLineEnd c then c :: indentLines true rest
    else if atStart then scalarIndent ++ c :: indentLines false rest
    else c :: indentLines false rest

/-- A quote within single quotes is written twice. -/
def doubleQuotes (text : List Char) : List Char :=
  text.flatMap fun c ↦ if c = '\'' then [c, c] else [c]

/-- The upper-case hexadecimal digits of a number, with zeros up to a width. -/
def hexDigits (width n : Nat) : List Char :=
  let digits := (Nat.toDigits 16 n).map Char.toUpper
  List.replicate (width - digits.length) '0' ++ digits

/-- The escape of a character behind its backslash. -/
def escapeOf (c : Char) : List Char :=
  match c.toNat with
  | 0x00 => ['0']
  | 0x07 => ['a']
  | 0x08 => ['b']
  | 0x09 => ['t']
  | 0x0A => ['n']
  | 0x0B => ['v']
  | 0x0C => ['f']
  | 0x0D => ['r']
  | 0x1B => ['e']
  | 0x22 => ['"']
  | 0x5C => ['\\']
  | 0x85 => ['N']
  | 0x2028 => ['L']
  | 0x2029 => ['P']
  | n =>
    if n ≤ 0xFF then 'x' :: hexDigits 2 n
    else if n ≤ 0xFFFF then 'u' :: hexDigits 4 n
    else 'U' :: hexDigits 8 n

/-- A character within double quotes. -/
def writeQuotedChar (c : Char) : List Char :=
  if isWritable c && !isLineEnd c && c ≠ '"' && c ≠ '\\' then [c] else '\\' :: escapeOf c

/-- The head of a literal block: the indentation, if the text does not show it, and what is done
with the line ends behind the text. -/
def blockHead (text : List Char) : List Char :=
  let indentation := if text.head?.any fun c ↦ isSpace c || isLineEnd c then ['2'] else []
  let chomping :=
    match text.reverse with
    | last :: before =>
      if !isLineEnd last then ['-'] else if before.head?.all isLineEnd then ['+'] else []
    | [] => ['-']
  '|' :: indentation ++ chomping

/-- A scalar as it stands behind its key or dash. A literal block is left at the end of its last
line. -/
def writeScalar (text : List Char) : List Char :=
  match ScalarStyle.of text with
  | .plain => text
  | .singleQuoted => '\'' :: indentLines false (doubleQuotes text) ++ ['\'']
  | .doubleQuoted => '"' :: text.flatMap writeQuotedChar ++ ['"']
  | .literal => blockHead text ++ '\n' :: indentLines true text

end ModContent.Yaml
