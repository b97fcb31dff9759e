import ModContent.Number.Reading
import ModContent.Yaml.Cursor

/-!
# Scalars of YAML

Three readers for the three ways a scalar is written: plain, in quotes, and as a block behind `|`
or `>`. Each starts at the first character of the scalar and gives its text and the place behind
it. Line ends inside plain and quoted scalars are folded: a single line feed becomes a blank, and of
several line ends all but a line feed at the start are kept.
-/

namespace ModContent.Yaml

/-! ### Gaps

Between two words of a plain or quoted scalar stands a gap: blanks, or line ends with blanks around
them. -/

/-- The gap read so far. -/
structure Gap where
  /-- The blanks before the first line end. -/
  blanks : List Char
  breaks : List Char
  deriving DecidableEq, Repr

namespace Gap

/-- The gap that holds nothing. -/
def none : Gap := ⟨[], []⟩

/-- What a gap leaves in the text of the scalar. -/
def folded (g : Gap) : List Char :=
  match g.breaks with
  | [] => g.blanks
  | ['\n'] => [' ']
  | '\n' :: more => more
  | breaks => breaks

end Gap

/-- Reads a gap. After a line end, a tab left of the given column is refused. -/
def readGap (leastColumn : Nat) : Nat → Gap → Cursor → Option (Gap × Cursor)
  | 0, gap, cursor => some (gap, cursor)
  | fuel + 1, gap, cursor =>
    match cursor.rest with
    | c :: _ =>
      if endsLine c then readGap leastColumn fuel ⟨[], gap.breaks ++ [c]⟩ cursor.next
      else if !isSpaceOrTab c then some (gap, cursor)
      else if gap.breaks.isEmpty then
        readGap leastColumn fuel ⟨gap.blanks ++ [c], []⟩ cursor.next
      else if c = '\t' && cursor.column < leastColumn then .none
      else readGap leastColumn fuel gap cursor.next
    | [] => some (gap, cursor)

/-! ### Plain scalars -/

/-- The characters that end a plain scalar inside brackets. -/
def isFlowIndicator (c : Char) : Bool :=
  c == ',' || c == '[' || c == ']' || c == '{' || c == '}'

/-- The word of a plain scalar at a place: it ends at a blank and before a colon that a blank
follows, inside brackets also before the characters that divide them. A colon right before such a
character is refused there. -/
def plainWord (inFlow : Bool) : List Char → Option (List Char)
  | [] => some []
  | c :: rest =>
    if endsWord (some c) then some []
    else if inFlow && c == ':' && rest.head?.any (fun d ↦ isFlowIndicator d || d == '?') then none
    else if (c == ':' && endsWord rest.head?) || (inFlow && isFlowIndicator c) then some []
    else (plainWord inFlow rest).map (c :: ·)

/-- A scalar that was read. -/
structure ScalarText where
  text : List Char
  /-- Whether it runs over a line end that another token may follow. -/
  acrossLines : Bool
  after : Cursor

/-- Reads a plain scalar, which goes on over lines indented to the given column at least. -/
def readPlain (inFlow : Bool) (leastColumn : Nat) :
    Nat → List Char → Gap → Cursor → Option ScalarText
  | 0, text, gap, cursor => some ⟨text, !gap.breaks.isEmpty, cursor⟩
  | fuel + 1, text, gap, cursor =>
    if cursor.atAnyMarker || cursor.peek? 0 == some '#' then
      some ⟨text, !gap.breaks.isEmpty, cursor⟩
    else
      match plainWord inFlow cursor.rest with
      | none => none
      | some word =>
        let grown := if word.isEmpty then text else text ++ gap.folded ++ word
        let left := if word.isEmpty then gap else Gap.none
        let behind := cursor.skip word.length
        if !(behind.peek? 0).any (fun c ↦ endsWord (some c)) then
          some ⟨grown, !left.breaks.isEmpty, behind⟩
        else
          match readGap leastColumn (behind.rest.length + 1) left behind with
          | none => none
          | some (gap, further) =>
            if !inFlow && further.column < leastColumn then
              some ⟨grown, !gap.breaks.isEmpty, further⟩
            else readPlain inFlow leastColumn fuel grown gap further

/-! ### Quoted scalars -/

/-- The character that a one-letter escape stands for. -/
def escaped? (c : Char) : Option Char :=
  match c with
  | '0' => some '\x00'
  | 'a' => some '\x07'
  | 'b' => some '\x08'
  | 't' => some '\t'
  | '\t' => some '\t'
  | 'n' => some '\n'
  | 'v' => some '\x0b'
  | 'f' => some '\x0c'
  | 'r' => some '\r'
  | 'e' => some '\x1b'
  | ' ' => some ' '
  | '"' => some '"'
  | '/' => some '/'
  | '\\' => some '\\'
  | 'N' => some '\u0085'
  | '_' => some '\u00a0'
  | 'L' => some '\u2028'
  | 'P' => some '\u2029'
  | _ => none

/-- How many hexadecimal digits follow the letter of an escape. -/
def escapeLength? (c : Char) : Option Nat :=
  match c with
  | 'x' => some 2
  | 'u' => some 4
  | 'U' => some 8
  | _ => none

/-- The character of an escape behind its backslash, and the length of the escape. -/
def readEscape (text : List Char) : Option (Char × Nat) := do
  let letter ← text.head?
  match escapeLength? letter with
  | none => return (← escaped? letter, 1)
  | some length =>
    let digits := (text.drop 1).take length
    if digits.length < length then none
    else
      let values ← digits.mapM hexDigit?
      let code := values.foldl (fun n digit ↦ 16 * n + digit) 0
      if Nat.isValidChar code then some (Char.ofNat code, length + 1) else none

/-- Reads a scalar behind its opening quote, up to the closing one. -/
def readQuoted (quote : Char) : Nat → List Char → Cursor → Option ScalarText
  | 0, _, _ => none
  | fuel + 1, text, cursor =>
    if cursor.atAnyMarker then none
    else
      match cursor.rest with
      | [] => none
      | c :: rest =>
        if c = quote then
          if quote = '\'' && rest.head? == some '\'' then
            readQuoted quote fuel (text ++ ['\'']) (cursor.skip 2)
          else some ⟨text, false, cursor.next⟩
        else if c = '\\' && quote = '"' then
          if rest.head?.any endsLine then
            match readGap 0 (rest.length + 1) ⟨[], ['\n']⟩ (cursor.skip 2) with
            | none => none
            | some (gap, after) => readQuoted quote fuel (text ++ gap.breaks.drop 1) after
          else
            match readEscape rest with
            | none => none
            | some (c, length) => readQuoted quote fuel (text ++ [c]) (cursor.skip (length + 1))
        else if endsWord (some c) then
          match readGap 0 (cursor.rest.length + 1) Gap.none cursor with
          | none => none
          | some (gap, after) => readQuoted quote fuel (text ++ gap.folded) after
        else readQuoted quote fuel (text ++ [c]) cursor.next

/-! ### Block scalars -/

/-- What is done with the line ends behind the last line of a block. -/
inductive Chomping where
  | strip
  | clip
  | keep
  deriving DecidableEq, Repr

/-- The head of a block scalar behind its first character: chomping and indentation in any order,
then nothing but blanks and a comment up to the end of the line. -/
def readBlockHead (cursor : Cursor) : Option (Chomping × Option Nat × Cursor) :=
  let chomp? (c : Option Char) : Option Chomping :=
    if c == some '+' then some .keep else if c == some '-' then some .strip else none
  let digit? (c : Option Char) : Option Nat := c.bind decimalDigit?
  let (chomping, increment, behind) :=
    match chomp? (cursor.peek? 0), digit? (cursor.peek? 0) with
    | some chomping, _ =>
      match digit? (cursor.peek? 1) with
      | some n => (chomping, some n, cursor.skip 2)
      | none => (chomping, none, cursor.skip 1)
    | none, some n =>
      match chomp? (cursor.peek? 1) with
      | some chomping => (chomping, some n, cursor.skip 2)
      | none => (Chomping.clip, some n, cursor.skip 1)
    | none, none => (Chomping.clip, none, cursor)
  if increment == some 0 then none
  else
    let blank := behind.skipWhile isSpaceOrTab
    let ended := if blank.peek? 0 == some '#' then blank.skipLine else blank
    if ended.atLineEnd then some (chomping, increment, ended.next)
    else if ended.rest.isEmpty then some (chomping, increment, ended)
    else none

/-- Empty lines of a block: their line ends, the greatest column they reach, and the place of the
first character that is no indentation. A tab among the indentation is refused. -/
def readEmptyLines (indent : Option Nat) :
    Nat → List Char → Nat → Cursor → Option (List Char × Nat × Cursor)
  | 0, breaks, widest, cursor => some (breaks, widest, cursor)
  | fuel + 1, breaks, widest, cursor =>
    let room := indent.elim cursor.rest.length (· - cursor.column)
    let spaces := min room (cursor.rest.takeWhile (· == ' ')).length
    let place := cursor.skip spaces
    let widest := max widest place.column
    if place.peek? 0 == some '\t' && indent.all (place.column < ·) then none
    else if place.atLineEnd then
      readEmptyLines indent fuel (breaks ++ place.rest.take 1) widest place.next
    else some (breaks, widest, place)

/-- The lines of a block from its first line on. The state holds the text so far, whether the last
line began with a blank, the end of that line, and the ends of the empty lines behind it. -/
def readBlockLines (folded : Bool) (indent : Nat) (chomping : Chomping) :
    Nat → List Char → Bool → List Char → List Char → Cursor → Option ScalarText
  | 0, _, _, _, _, _ => none
  | fuel + 1, text, indented, ended, empties, cursor =>
    if cursor.column = indent && !cursor.rest.isEmpty then
      let blank := cursor.rest.head?.any isSpaceOrTab
      let joined :=
        if folded && ended == ['\n'] && !indented && !blank then
          if empties.isEmpty then text ++ [' '] else text
        else text ++ ended
      let behind := cursor.skipLine
      let line := cursor.rest.takeWhile fun c ↦ !endsLine c
      match readEmptyLines (some indent) (behind.rest.length + 1) [] 0 behind.next with
      | none => none
      | some (breaks, _, further) =>
        readBlockLines folded indent chomping fuel (joined ++ empties ++ line) blank
          (behind.rest.take 1) breaks further
    else
      let tail :=
        (if chomping = .strip then [] else ended) ++ (if chomping = .keep then empties else [])
      some ⟨text ++ tail, true, cursor⟩

/-- Reads a block scalar behind its first character; `outer` is the column of the structure around
it, if there is one. -/
def readBlock (folded : Bool) (outer : Option Nat) (cursor : Cursor) : Option ScalarText := do
  let (chomping, increment, first) ← readBlockHead cursor
  let least := outer.elim 1 (· + 1)
  let fixed := increment.map fun n ↦ outer.elim n (· + n)
  let (empties, widest, start) ← readEmptyLines fixed (first.rest.length + 1) [] 0 first
  let indent := fixed.getD (max widest least)
  readBlockLines folded indent chomping (start.rest.length + 2) [] false [] empties start

end ModContent.Yaml
