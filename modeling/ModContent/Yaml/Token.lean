import ModContent.Yaml.Scalar

/-!
# Tokens of YAML

A YAML text becomes a list of tokens in which indentation is explicit: block structures have a
start and an end. Only when a colon comes up is it known that the scalar or bracket before it was a
key, so the place of the last possible key is remembered, and the key token is put in there.
Anchors, aliases, tags and directives are refused.
-/

namespace ModContent.Yaml

/-- What the text of a document is made of. Blocks are opened and closed by tokens that are not
written. -/
inductive Token where
  | documentStart
  | documentEnd
  | blockSequenceStart
  | blockMappingStart
  | blockEnd
  | flowSequenceStart
  | flowSequenceEnd
  | flowMappingStart
  | flowMappingEnd
  | blockEntry
  | flowEntry
  | key
  | value
  /-- A scalar, and whether it is written plain. -/
  | scalar (text : String) (plain : Bool)
  deriving DecidableEq, Repr

namespace Token

/-- A place where a key may have begun. -/
structure KeyPlace where
  /-- The number of tokens before it. -/
  token : Nat
  line : Nat
  column : Nat
  index : Nat
  /-- Whether something other than a key would break the indentation there. -/
  required : Bool
  deriving DecidableEq, Repr

/-- The state between two tokens. -/
structure Scanner where
  cursor : Cursor
  tokens : Array Token
  /-- The columns of the open block structures, the innermost first. -/
  indents : List Nat
  /-- The possible key on each bracket level, the innermost first; the last entry belongs to the
  text outside all brackets. -/
  keys : List (Option KeyPlace)
  /-- Whether a key may begin here. -/
  keyAllowed : Bool

namespace Scanner

/-- The scanner at the start of a text, outside all blocks. -/
def start (cursor : Cursor) : Scanner := ⟨cursor, #[], [], [none], true⟩

/-- Whether the scanner is inside brackets. -/
def inFlow (s : Scanner) : Bool := decide (1 < s.keys.length)

/-- Adds a token behind the others. -/
def push (s : Scanner) (token : Token) : Scanner := { s with tokens := s.tokens.push token }

/-- Steps over `n` characters of an indicator and adds its token. -/
def emit (s : Scanner) (n : Nat) (token : Token) : Scanner :=
  { s.push token with cursor := s.cursor.skip n }

/-! ### Possible keys -/

/-- Forgets the possible key of the innermost level; a required one must not be forgotten. -/
def dropKey? (s : Scanner) : Option Scanner :=
  match s.keys with
  | some place :: keys => if place.required then none else some { s with keys := none :: keys }
  | _ => some s

/-- Remembers that a key may begin here. -/
def saveKey? (s : Scanner) : Option Scanner :=
  if s.keyAllowed then do
    let s ← s.dropKey?
    let required := !s.inFlow && s.indents.head? == some s.cursor.column
    let place : KeyPlace :=
      ⟨s.tokens.size, s.cursor.line, s.cursor.column, s.cursor.index, required⟩
    return { s with keys := some place :: s.keys.drop 1 }
  else some s

/-- Forgets the keys that began on an earlier line or too far back. -/
def expireKeys? (s : Scanner) : Option Scanner := do
  let keys ← s.keys.mapM fun possible ↦
    match possible with
    | none => some none
    | some place =>
      if place.line < s.cursor.line || place.index + 1024 < s.cursor.index then
        if place.required then none else some none
      else some (some place)
  return { s with keys }

/-! ### Indentation -/

/-- Opens a block structure at a column if that lies further in, its token at the given number. -/
def openBlock (s : Scanner) (column number : Nat) (token : Token) : Scanner :=
  if !s.inFlow && s.indents.head?.all (· < column) then
    { s with
      indents := column :: s.indents
      tokens := s.tokens.insertIdxIfInBounds number token }
  else s

/-- Closes the block structures that lie further in than the column; all of them without one. -/
def closeBlocks (s : Scanner) (column : Option Nat) : Scanner :=
  if s.inFlow then s
  else
    let closed := s.indents.takeWhile fun indent ↦ column.all (· < indent)
    { s with
      indents := s.indents.drop closed.length
      tokens := s.tokens ++ (closed.map fun _ ↦ blockEnd).toArray }

/-! ### Fetching one token -/

/-- The place of the next token, behind blanks, comments and line ends. A line end outside brackets
lets a key begin. -/
def skipToToken : Nat → Scanner → Scanner
  | 0, s => s
  | fuel + 1, s =>
    let tabs := s.inFlow || !s.keyAllowed
    let blank := s.cursor.skipWhile fun c ↦ c == ' ' || (tabs && c == '\t')
    let ended := if blank.peek? 0 == some '#' then blank.skipLine else blank
    if ended.atLineEnd then
      skipToToken fuel { s with cursor := ended.next, keyAllowed := s.keyAllowed || !s.inFlow }
    else { s with cursor := ended }

/-- A marker closes all blocks. -/
def fetchDocumentMarker? (s : Scanner) (token : Token) : Option Scanner := do
  let s ← (s.closeBlocks none).dropKey?
  return { s.emit 3 token with keyAllowed := false }

/-- An opening bracket may begin a key. -/
def fetchFlowStart? (s : Scanner) (token : Token) : Option Scanner := do
  let s ← s.saveKey?
  return { s.emit 1 token with keys := none :: s.keys, keyAllowed := true }

/-- A closing bracket ends what could be a key inside the brackets. -/
def fetchFlowEnd? (s : Scanner) (token : Token) : Option Scanner := do
  let s ← s.dropKey?
  let keys := if s.inFlow then s.keys.drop 1 else s.keys
  return { s.emit 1 token with keys, keyAllowed := false }

/-- A comma, after which a key may stand. -/
def fetchFlowEntry? (s : Scanner) : Option Scanner := do
  let s ← s.dropKey?
  return { s.emit 1 flowEntry with keyAllowed := true }

/-- A dash, which opens a sequence where its column is new. -/
def fetchBlockEntry? (s : Scanner) : Option Scanner := do
  if !s.inFlow && !s.keyAllowed then none
  let s ← (s.openBlock s.cursor.column s.tokens.size blockSequenceStart).dropKey?
  return { s.emit 1 blockEntry with keyAllowed := true }

/-- A question mark in front of a key, which opens a mapping where its column is new. -/
def fetchKey? (s : Scanner) : Option Scanner := do
  if !s.inFlow && !s.keyAllowed then none
  let s ← (s.openBlock s.cursor.column s.tokens.size blockMappingStart).dropKey?
  return { s.emit 1 key with keyAllowed := !s.inFlow }

/-- A colon. What stands before it becomes a key if it could be one. -/
def fetchValue? (s : Scanner) : Option Scanner :=
  match s.keys with
  | some place :: keys =>
    let keyed := { s with tokens := s.tokens.insertIdxIfInBounds place.token key }
    let opened := keyed.openBlock place.column place.token blockMappingStart
    some { opened.emit 1 value with keys := none :: keys, keyAllowed := false }
  | _ => do
    if !s.inFlow && !s.keyAllowed then none
    let opened := s.openBlock s.cursor.column s.tokens.size blockMappingStart
    return { opened.emit 1 value with keyAllowed := !s.inFlow }

/-- Adds a scalar that was read. -/
def addScalar (s : Scanner) (plain : Bool) (scalar : ScalarText) : Scanner :=
  { s.push (.scalar (String.ofList scalar.text) plain) with
    cursor := scalar.after
    keyAllowed := scalar.acrossLines }

/-- A scalar by its indentation, which is never a key. -/
def fetchBlockScalar? (s : Scanner) (folded : Bool) : Option Scanner := do
  let s ← s.dropKey?
  return s.addScalar false (← readBlock folded s.indents.head? s.cursor.next)

/-- A scalar in quotes, which may be a key. -/
def fetchQuoted? (s : Scanner) (quote : Char) : Option Scanner := do
  let s ← s.saveKey?
  let fuel := s.cursor.rest.length + 1
  return s.addScalar false (← readQuoted quote fuel [] s.cursor.next)

/-- A scalar without quotes, which may be a key. Outside brackets its lines are indented more than
the block around it. -/
def fetchPlain? (s : Scanner) : Option Scanner := do
  let s ← s.saveKey?
  let least := s.indents.head?.elim 0 (· + 1)
  let fuel := s.cursor.rest.length + 1
  return s.addScalar true (← readPlain s.inFlow least fuel [] Gap.none s.cursor)

/-- The characters that stand for something else at the start of a token. -/
def isIndicator (c : Char) : Bool :=
  "-?:,[]\x7b\x7d#&*!|>'\"%@".toList.contains c || c.toNat == 0x60

/-- Fetches the token at a place that is not the end. -/
def fetch? (s : Scanner) (c : Char) : Option Scanner :=
  let before := endsWord (s.cursor.peek? 1)
  if s.cursor.column = 0 && c = '%' then none
  else if s.cursor.atMarker '-' then s.fetchDocumentMarker? documentStart
  else if s.cursor.atMarker '.' then s.fetchDocumentMarker? documentEnd
  else if c = '[' then s.fetchFlowStart? flowSequenceStart
  else if c = '{' then s.fetchFlowStart? flowMappingStart
  else if c = ']' then s.fetchFlowEnd? flowSequenceEnd
  else if c = '}' then s.fetchFlowEnd? flowMappingEnd
  else if c = ',' then s.fetchFlowEntry?
  else if c = '-' && before then s.fetchBlockEntry?
  else if c = '?' && (s.inFlow || before) then s.fetchKey?
  else if c = ':' && (s.inFlow || before) then s.fetchValue?
  else if c = '|' && !s.inFlow then s.fetchBlockScalar? false
  else if c = '>' && !s.inFlow then s.fetchBlockScalar? true
  else if c = '\'' || c = '"' then s.fetchQuoted? c
  else if c = '-' || !isIndicator c && !endsWord (some c) ||
      !s.inFlow && (c = '?' || c = ':') then s.fetchPlain?
  else none

/-- All tokens of a text. The fuel bounds their number. -/
def run? : Nat → Scanner → Option (List Token)
  | 0, _ => none
  | fuel + 1, s => do
    let s ← (skipToToken (s.cursor.rest.length + 1) s).expireKeys?
    match s.cursor.rest with
    | [] => return ((← (s.closeBlocks none).dropKey?).tokens.toList)
    | c :: _ => run? fuel (← (s.closeBlocks (some s.cursor.column)).fetch? c)

end Scanner

/-- The tokens of a text, unless it breaks the rules of YAML. -/
def scan? (text : List Char) : Option (List Token) := do
  let cursor ← Cursor.prepare? text
  Scanner.run? (cursor.rest.length + 2) (Scanner.start cursor)

end Token

end ModContent.Yaml
