import ModContent.Grammar.Statement

/-!
# Block headers

A header names a block and may set properties of it in a parameter list:
`category:name(p=1,q=2)`. The shape of the list is checked before the name in front of it, and the
name before the parameters. As a comma ends a parameter, each has at most one value.
-/

namespace ModContent

/-- What a header declares: the key of a block and its parameters. -/
structure Header where
  key : Key
  parameters : List Statement
  deriving DecidableEq, Repr

namespace Header

/-- The category of a parameter that names none. -/
def parameterCategory : String := "parameter"

/-- The text before the parameter list, and the text inside it if there is one. -/
def divide (text : List Char) : Except GrammarFault (List Char × Option (List Char)) :=
  match Text.cutAt '(' text with
  | none => .ok (text, none)
  | some (head, rest) =>
    match Text.cutAt ')' rest with
    | none => .error (.unclosedParameters text)
    | some (inner, after) =>
      if '(' ∈ inner then .error (.nestedParameters text)
      else if after ≠ [] then .error (.textAfterParameters after text)
      else .ok (head, some inner)

/-- Reads the text inside a parameter list. -/
def readParameters (inner : List Char) : Except GrammarFault (List Statement) :=
  if inner = [] then .ok []
  else (Text.splitOn ',' inner).mapM fun parameter ↦ Statement.read parameter parameterCategory

/-- The header of a text. The head is looked at before the label in it, and the parameters come
last, so this is the order of the faults too. -/
def read (text : List Char) : Except GrammarFault Header := do
  let (head, inner) ← divide text
  if '=' ∈ head then throw (.valueInHeader text)
  if ')' ∈ head then throw (.unopenedParameters text)
  let key ← readLabel head
  let parameters ← readParameters (inner.getD [])
  return ⟨key, parameters⟩

/-! ### Writing -/

/-- The text of a header, without blanks. Without parameters there is no list. -/
def chars (h : Header) : List Char :=
  match h.parameters with
  | [] => h.key.chars
  | parameters =>
    h.key.chars ++ '(' :: List.intercalate [','] (parameters.map Statement.chars) ++ [')']

end Header

end ModContent
