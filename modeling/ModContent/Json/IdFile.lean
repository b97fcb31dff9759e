import ModContent.Json.Value
import ModContent.Registry.IdFile

/-!
# Id files as JSON

The tables of an id file are kept as one JSON object, by category. The object has the single field
`registries`; other fields are skipped, and an array may stand for the object, its first item for
the field.
-/

namespace ModContent

namespace IdFile

/-! ### Reading -/

/-- A slot of a table: a name, or null for a vacant id. -/
def slotOf? : JsonValue → Option (Option String)
  | .null => some none
  | .string (some name) => some (some name)
  | _ => none

/-- The table of an array of slots. -/
def tableOf? : JsonValue → Option IdTable
  | .array items => (items.mapM slotOf?).map IdTable.mk
  | _ => none

/-- The tables of the `registries` field. A category that is repeated keeps its last table. -/
def registriesOf? : JsonValue → Option IdFile
  | .object fields => do
    let entries ← fields.mapM fun (name, value) ↦ do return (← name, ← tableOf? value)
    return ⟨Dictionary.ofList entries⟩
  | _ => none

/-- The id file of a JSON value. The field may be left out but not repeated. -/
def ofJson? : JsonValue → Option IdFile
  | .object fields => do
    let named ← fields.mapM fun (name, value) ↦ name.map fun name ↦ (name, value)
    match named.filter fun field ↦ field.1 == "registries" with
    | [] => some empty
    | [field] => registriesOf? field.2
    | _ => none
  | .array [] => some empty
  | .array [registries] => registriesOf? registries
  | _ => none

/-! ### Writing -/

/-- The JSON text of a slot. -/
def writeSlot : Option String → List Char
  | none => "null".toList
  | some name => JsonValue.writeString name

/-- Parts in brackets on lines of their own, two blanks further in than the brackets; no part at
all leaves the brackets together. -/
def writeParts (opening closing : Char) (depth : Nat) (parts : List (List Char)) : List Char :=
  if parts.isEmpty then [opening, closing]
  else
    let line := '\n' :: List.replicate (2 * depth + 2) ' '
    opening :: List.intercalate [','] (parts.map fun part ↦ line ++ part) ++
      '\n' :: List.replicate (2 * depth) ' ' ++ [closing]

/-- The JSON text of a table inside a file. -/
def writeTable (t : IdTable) : List Char := writeParts '[' ']' 2 (t.slots.map writeSlot)

/-- The JSON text of a file, with one item to a line. -/
def writeJson (f : IdFile) : List Char :=
  let tables := f.registries.entries.map fun (category, table) ↦
    JsonValue.writeString category ++ [':', ' '] ++ writeTable table
  let registries :=
    JsonValue.writeString "registries" ++ [':', ' '] ++ writeParts '{' '}' 1 tables
  writeParts '{' '}' 0 [registries]

/-- Id files are kept as JSON. -/
instance : Format IdFile where
  read text := (JsonValue.parse text).bind ofJson?
  write f := String.ofList f.writeJson

end IdFile

end ModContent
