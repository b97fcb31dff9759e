import ModContent.Text.Extender
import ModContent.Text.Printable

/-!
# Quoted texts

A text is shown in double quotes so that every character of it can be told apart: quotes and
backslashes are escaped, and so are characters that cannot be printed or that would join the one
before them.
-/

namespace ModContent.Text

/-- The escape of a character by its code point, in lower-case hexadecimal. -/
def codeEscape (c : Char) : List Char :=
  '\\' :: 'u' :: '{' :: Nat.toDigits 16 c.toNat ++ ['}']

/-- A character between quotes. What cannot be seen there is escaped. -/
def quoteChar (c : Char) : List Char :=
  match c with
  | '\x00' => ['\\', '0']
  | '\t' => ['\\', 't']
  | '\n' => ['\\', 'n']
  | '\r' => ['\\', 'r']
  | '"' => ['\\', '"']
  | '\\' => ['\\', '\\']
  | c => if isExtender c || !isPrintable c then codeEscape c else [c]

/-- A text in double quotes. -/
def quoted (text : List Char) : List Char :=
  '"' :: text.flatMap quoteChar ++ ['"']

end ModContent.Text
