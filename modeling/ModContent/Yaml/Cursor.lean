import ModContent.Text.Cut

/-!
# Places in a YAML text

A `Cursor` is a place in a text of lines without carriage returns: what is left to read, and how far
in it stands. `Cursor.prepare?` brings a text into that form and refuses the control characters
that YAML does not admit.
-/

namespace ModContent.Yaml

/-- A place in a text, with its line and column. -/
structure Cursor where
  rest : List Char
  line : Nat
  column : Nat
  /-- The number of characters read so far. -/
  index : Nat
  deriving DecidableEq, Repr

/-- The characters that may stand in a YAML text. -/
def isAdmitted (c : Char) : Bool :=
  let n := c.toNat
  n == 0x09 || n == 0x0A || n == 0x0D || (0x20 ≤ n && n ≤ 0x7E) || n == 0x85 ||
    (0xA0 ≤ n && n ≤ 0xD7FF) || (0xE000 ≤ n && n ≤ 0xFFFD && n != 0xFEFF) || 0x10000 ≤ n

/-- The characters that end a line, once carriage returns are gone. -/
def endsLine (c : Char) : Bool := c == '\n' || c.toNat == 0x2028 || c.toNat == 0x2029

/-- Carriage returns and next-line characters as line feeds. -/
def unifyLineEnds : List Char → List Char
  | [] => []
  | '\r' :: '\n' :: rest => '\n' :: unifyLineEnds rest
  | c :: rest => (if c = '\r' || c.toNat = 0x85 then '\n' else c) :: unifyLineEnds rest

namespace Cursor

/-- The start of a text, behind its byte order mark if it has one. -/
def prepare? (text : List Char) : Option Cursor :=
  let text :=
    match text with
    | c :: rest => if c.toNat = 0xFEFF then rest else text
    | [] => []
  if text.all isAdmitted then some ⟨unifyLineEnds text, 0, 0, 0⟩ else none

/-- The place behind the next character. -/
def next (c : Cursor) : Cursor :=
  match c.rest with
  | [] => c
  | d :: rest =>
    if endsLine d then ⟨rest, c.line + 1, 0, c.index + 1⟩
    else ⟨rest, c.line, c.column + 1, c.index + 1⟩

/-- The place `n` characters on. -/
def skip : Nat → Cursor → Cursor
  | 0, c => c
  | n + 1, c => skip n c.next

/-- The place behind all following characters that `p` accepts. -/
def skipWhile (p : Char → Bool) (c : Cursor) : Cursor :=
  skip (c.rest.takeWhile p).length c

/-- The character `n` places on. -/
def peek? (c : Cursor) (n : Nat) : Option Char := c.rest[n]?

/-- Whether a line ends here. -/
def atLineEnd (c : Cursor) : Bool := (c.peek? 0).any endsLine

/-- The place at the end of the line. -/
def skipLine (c : Cursor) : Cursor := c.skipWhile fun d ↦ !endsLine d

end Cursor

/-- The characters that stand between tokens of one line. -/
def isSpaceOrTab (c : Char) : Bool := c == ' ' || c == '\t'

/-- A blank or the end: what must stand behind an indicator. -/
def endsWord : Option Char → Bool
  | none => true
  | some c => c == ' ' || c == '\t' || endsLine c

/-- Whether a line begins here with a document marker made of this character. -/
def Cursor.atMarker (c : Cursor) (mark : Char) : Bool :=
  c.column == 0 && c.rest.take 3 == [mark, mark, mark] && endsWord (c.peek? 3)

/-- Whether a document starts or ends here. -/
def Cursor.atAnyMarker (c : Cursor) : Bool := c.atMarker '-' || c.atMarker '.'

end ModContent.Yaml
