import ModContent.Grammar.Fault
import ModContent.Key

/-!
# Statements

A statement names a property and gives it values or a reference: `category:name=a,b` or
`name=@path`. It is read from a text without blanks. `Statement.chars` writes a statement back.
-/

namespace ModContent

/-- The right-hand side of a statement. -/
inductive Assigned where
  /-- The values themselves, possibly none. -/
  | values (values : List String)
  /-- The path of a property whose values are to be copied. -/
  | reference (path : String)
  deriving DecidableEq, Repr

/-- A key and what is assigned to it. -/
structure Statement where
  key : Key
  value : Assigned
  deriving DecidableEq, Repr

/-! ### Names -/

/-- The characters that no name and no category may hold. -/
def isForbidden (c : Char) : Bool :=
  c == '(' || c == ')' || c == ',' || c == '@' || c == '.'

/-- Reads `name` or `category:name`. The name is checked before the category, and characters that
stand in neither are looked for last. -/
def readLabel (text : List Char) : Except GrammarFault Key :=
  let (category, name) :=
    match Text.cutAt ':' text with
    | some (category, name) => (some category, name)
    | none => (none, text)
  if ':' ∈ name then .error (.secondColon text)
  else if name = [] then .error (if text = [] then .missingName else .emptyName text)
  else if category = some [] then .error (.emptyCategory text)
  else
    match text.find? isForbidden with
    | some c => .error (.forbidden text c)
    | none => .ok ⟨String.ofList name, category.map String.ofList⟩

/-! ### Values -/

/-- Reads the path after the `@` of a reference. -/
def readReference (path : List Char) : Except GrammarFault Assigned :=
  if path = [] then .error .emptyReference
  else if ',' ∈ path then .error (.listedReference path)
  else if DottedPath.isValid (String.ofList path) then .ok (.reference (String.ofList path))
  else .error (.emptySegment path)

/-- Reads what follows the equals sign: nothing, a reference, or values between commas. -/
def readAssigned : List Char → Except GrammarFault Assigned
  | [] => .ok (.values [])
  | '@' :: path => readReference path
  | text => .ok (.values ((Text.splitOn ',' text).map String.ofList))

namespace Statement

/-- Reads a statement. One without a category of its own gets the default one. -/
def read (text : List Char) (category : Option String) : Except GrammarFault Statement := do
  let (head, assigned) :=
    match Text.cutAt '=' text with
    | some parts => parts
    | none => (text, [])
  let key ← readLabel head
  let value ← readAssigned assigned
  return ⟨⟨key.name, key.category <|> category⟩, value⟩

/-! ### Writing -/

/-- The text of a statement, without blanks. A statement without values has no equals sign. -/
def chars (s : Statement) : List Char :=
  match s.value with
  | .values [] => s.key.chars
  | .values values => s.key.chars ++ '=' :: List.intercalate [','] (values.map String.toList)
  | .reference path => s.key.chars ++ '=' :: '@' :: path.toList

end Statement

end ModContent
