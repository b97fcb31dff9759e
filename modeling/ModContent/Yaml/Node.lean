import ModContent.Yaml.Token

/-!
# YAML documents

The tokens of a text make one tree of scalars, sequences and mappings, or none at all for an empty
text. Scalars keep their text; whether one is written plain is kept too, as only a plain scalar can
stand for null. A text with a second document is refused.
-/

namespace ModContent

/-- A node of a document. A scalar keeps its text and whether it was plain, since only a plain one
may stand for nothing. -/
inductive YamlNode where
  | scalar (text : String) (plain : Bool)
  | sequence (items : List YamlNode)
  | mapping (fields : List (YamlNode × YamlNode))
  deriving Repr

namespace YamlNode

open Yaml

/-- The scalar that stands where a node is missing. -/
def absent : YamlNode := scalar "" true

/-- The tokens before which a node may be missing in a block structure. -/
def endsBlockNode : Token → Bool
  | .blockEntry | .key | .value | .blockEnd => true
  | _ => false

/-- The tokens before which a node may be missing in brackets. -/
def endsFlowNode : Token → Bool
  | .key | .value | .flowEntry | .flowSequenceEnd | .flowMappingEnd => true
  | _ => false

mutual

/-- A node outside brackets. A sequence without indentation of its own may stand where `dashes`
says so. The fuel bounds the number of nodes and parts. -/
def readBlockNode (dashes : Bool) : Nat → List Token → Option (YamlNode × List Token)
  | 0, _ => none
  | fuel + 1, tokens =>
    match tokens with
    | .blockEntry :: _ =>
      if dashes then (readDashes fuel tokens).map fun (items, rest) ↦ (sequence items, rest)
      else none
    | .blockSequenceStart :: rest =>
      (readBlockItems fuel rest).map fun (items, rest) ↦ (sequence items, rest)
    | .blockMappingStart :: rest =>
      (readBlockFields fuel rest).map fun (fields, rest) ↦ (mapping fields, rest)
    | _ => readFlowNode fuel tokens

/-- A node inside brackets, or a scalar anywhere. -/
def readFlowNode : Nat → List Token → Option (YamlNode × List Token)
  | 0, _ => none
  | fuel + 1, tokens =>
    match tokens with
    | .scalar text plain :: rest => some (scalar text plain, rest)
    | .flowSequenceStart :: .flowSequenceEnd :: rest => some (sequence [], rest)
    | .flowSequenceStart :: rest =>
      (readFlowItems fuel rest).map fun (items, rest) ↦ (sequence items, rest)
    | .flowMappingStart :: .flowMappingEnd :: rest => some (mapping [], rest)
    | .flowMappingStart :: rest =>
      (readFlowFields fuel rest).map fun (fields, rest) ↦ (mapping fields, rest)
    | _ => none

/-- A node of a block structure, which may be missing. -/
def readBlockPart (dashes : Bool) : Nat → List Token → Option (YamlNode × List Token)
  | 0, _ => none
  | fuel + 1, tokens =>
    match tokens with
    | token :: _ =>
      if endsBlockNode token && !(dashes && token == .blockEntry) then some (absent, tokens)
      else readBlockNode dashes fuel tokens
    | [] => none

/-- The items of a sequence without indentation of its own. -/
def readDashes : Nat → List Token → Option (List YamlNode × List Token)
  | 0, _ => none
  | fuel + 1, tokens =>
    match tokens with
    | .blockEntry :: rest => do
      let (item, rest) ← readBlockPart false fuel rest
      let (items, rest) ← readDashes fuel rest
      return (item :: items, rest)
    | _ => some ([], tokens)

/-- The items of an indented sequence, up to its end. -/
def readBlockItems : Nat → List Token → Option (List YamlNode × List Token)
  | 0, _ => none
  | fuel + 1, tokens =>
    match tokens with
    | .blockEnd :: rest => some ([], rest)
    | .blockEntry :: rest => do
      let (item, rest) ← readBlockPart false fuel rest
      let (items, rest) ← readBlockItems fuel rest
      return (item :: items, rest)
    | _ => none

/-- The fields of a block mapping, up to its end. -/
def readBlockFields : Nat → List Token → Option (List (YamlNode × YamlNode) × List Token)
  | 0, _ => none
  | fuel + 1, tokens =>
    match tokens with
    | .blockEnd :: rest => some ([], rest)
    | .key :: rest => do
      let (key, rest) ← readBlockPart true fuel rest
      let (value, rest) ←
        match rest with
        | .value :: rest => readBlockPart true fuel rest
        | _ => some (absent, rest)
      let (fields, rest) ← readBlockFields fuel rest
      return ((key, value) :: fields, rest)
    | _ => none

/-- A node inside brackets, which may be missing. -/
def readFlowPart : Nat → List Token → Option (YamlNode × List Token)
  | 0, _ => none
  | fuel + 1, tokens =>
    match tokens with
    | token :: _ =>
      if endsFlowNode token then some (absent, tokens) else readFlowNode fuel tokens
    | [] => none

/-- A value inside brackets behind its key, which may be missing. -/
def readFlowValue : Nat → List Token → Option (YamlNode × List Token)
  | 0, _ => none
  | fuel + 1, tokens =>
    match tokens with
    | .value :: rest => readFlowPart fuel rest
    | _ => some (absent, tokens)

/-- The items of a sequence in brackets, at least one. An item may be a single field. -/
def readFlowItems : Nat → List Token → Option (List YamlNode × List Token)
  | 0, _ => none
  | fuel + 1, tokens => do
    let (item, rest) ←
      match tokens with
      | .key :: rest => do
        let (key, rest) ← readFlowPart fuel rest
        let (value, rest) ← readFlowValue fuel rest
        some (mapping [(key, value)], rest)
      | _ => readFlowNode fuel tokens
    match rest with
    | .flowSequenceEnd :: rest => return ([item], rest)
    | .flowEntry :: .flowSequenceEnd :: rest => return ([item], rest)
    | .flowEntry :: rest =>
      let (items, rest) ← readFlowItems fuel rest
      return (item :: items, rest)
    | _ => none

/-- The fields of a mapping in braces, at least one. A key may stand without a value. -/
def readFlowFields : Nat → List Token → Option (List (YamlNode × YamlNode) × List Token)
  | 0, _ => none
  | fuel + 1, tokens => do
    let (field, rest) ←
      match tokens with
      | .key :: rest => do
        let (key, rest) ← readFlowPart fuel rest
        let (value, rest) ← readFlowValue fuel rest
        some ((key, value), rest)
      | _ => do
        let (key, rest) ← readFlowNode fuel tokens
        some ((key, absent), rest)
    match rest with
    | .flowMappingEnd :: rest => return ([field], rest)
    | .flowEntry :: .flowMappingEnd :: rest => return ([field], rest)
    | .flowEntry :: rest =>
      let (fields, rest) ← readFlowFields fuel rest
      return (field :: fields, rest)
    | _ => none

end

/-- The content of a document; an explicit one may be empty. -/
def readDocument (fuel : Nat) (started : Bool) (tokens : List Token) :
    Option (YamlNode × List Token) :=
  match tokens with
  | [] | .documentStart :: _ | .documentEnd :: _ => if started then some (absent, tokens) else none
  | _ => readBlockNode false fuel tokens

/-- The document of a text: nothing for a text without tokens, and `none` for a text that breaks
the rules or holds several documents. -/
def parse (text : String) : Option (Option YamlNode) := do
  let tokens ← Token.scan? text.toList
  let (started, body) :=
    match tokens with
    | .documentStart :: rest => (true, rest)
    | _ => (false, tokens)
  if tokens.isEmpty then return none
  let (node, rest) ← readDocument (4 * tokens.length + 4) started body
  if rest.all (· == .documentEnd) then return some node else none

end YamlNode

end ModContent
