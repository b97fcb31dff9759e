import ModContent.Text.Blank
import ModContent.Text.Cut
import ModContent.Error

/-!
# Normalized sources

Before anything is parsed, the lines of a file become one text: comments and blanks are taken out,
and a line that does not end in a delimiter gets a semicolon. What a line adds is its
`contribution`, so the text of two lists of lines is one text after the other
(`normalize_text_append`). Beside the text stands the offset at which each contributing line
starts, which takes an offset in the text back to a line of the file.
-/

namespace ModContent

/-- The offset at which a line of the file starts in the normalized text. The number of the line
stands for one of 32 bits, so a file is to have fewer than `2 ^ 32` lines. -/
structure LineStart where
  offset : Nat
  line : Nat
  deriving DecidableEq, Repr

/-- The text of a file as it is parsed, with the lines that contributed to it. -/
structure NormalizedSource where
  text : List Char
  starts : List LineStart
  deriving DecidableEq, Repr

namespace NormalizedSource

/-! ### Contributions -/

/-- The characters that need no semicolon after them at the end of a line. -/
def endsStatement (c : Char) : Bool :=
  c == ';' || c == '{' || c == '}' || c == '='

/-- A line without its comment and its blanks. -/
def kept (line : List Char) : List Char :=
  (line.takeWhile (· != '#')).filter fun c ↦ !Text.isBlank c

/-- What a line adds to the text: what is kept of it, and a semicolon unless it is empty or ends in
a delimiter. -/
def contribution (line : List Char) : List Char :=
  match (kept line).getLast? with
  | none => []
  | some last => if endsStatement last then kept line else kept line ++ [';']

/-- The starts of the contributing lines, the first of them at the given offset and number. -/
def startsFrom (offset number : Nat) : List (List Char) → List LineStart
  | [] => []
  | line :: rest =>
    let added := contribution line
    if added.isEmpty then startsFrom offset (number + 1) rest
    else ⟨offset, number⟩ :: startsFrom (offset + Text.byteLength added) (number + 1) rest

end NormalizedSource

open NormalizedSource in
/-- Makes one text of the lines of a file. -/
def normalize (lines : List (List Char)) : NormalizedSource where
  text := lines.flatMap contribution
  starts := startsFrom 0 1 lines

/-- Makes one text of a source, line by line. -/
def normalizeText (source : String) : NormalizedSource :=
  normalize (Text.lines source.toList)

/-- The text of lines is that of the lines above and of those below. -/
theorem normalize_text_append (xs ys : List (List Char)) :
    (normalize (xs ++ ys)).text = (normalize xs).text ++ (normalize ys).text := by
  simp [normalize]

open NormalizedSource in
/-- The text of lines starts with what the first of them contributes. -/
theorem normalize_text_cons (line : List Char) (rest : List (List Char)) :
    (normalize (line :: rest)).text = contribution line ++ (normalize rest).text :=
  List.flatMap_cons ..

open NormalizedSource in
theorem normalize_text_singleton (line : List Char) :
    (normalize [line]).text = contribution line :=
  List.flatMap_singleton ..

/-! ### Lines of offsets -/

namespace NormalizedSource

/-- The line that an offset belongs to: that of the last start at or before it. An offset before
all starts belongs to the first line, and without any start there is only line zero. -/
def lineOf (source : NormalizedSource) (offset : Nat) : Nat :=
  match (source.starts.takeWhile fun s ↦ decide (s.offset ≤ offset)).getLast? with
  | some start => start.line
  | none => (source.starts.head?.map LineStart.line).getD 0

/-- The line of a file that an offset in the text comes from. -/
def locate (source : NormalizedSource) (file : String) (offset : Nat) : Location :=
  ⟨file, source.lineOf offset⟩

/-- The offsets up to the end of the text at which the line differs from that of the offset
before, with their lines. Before the first offset there is line zero. -/
def lineChanges (source : NormalizedSource) : List (Nat × Nat) :=
  let lines := (List.range (Text.byteLength source.text + 1)).map source.lineOf
  (lines.zipIdx.zip (0 :: lines)).filterMap fun ((line, offset), before) ↦
    if line = before then none else some (offset, line)

end NormalizedSource

end ModContent
