import ModContent.Project.Manifest
import ModContent.Yaml.Node
import ModContent.Yaml.Style

/-!
# Manifests as YAML

A manifest is kept as a YAML mapping in which every field may be left out. Plain YAML is read; a
text with anchors, aliases, tags or directives is refused.
-/

namespace ModContent

namespace Manifest

/-! ### Reading -/

/-- The text of a scalar. -/
def textOf? : YamlNode → Option String
  | .scalar text _ => some text
  | _ => none

/-- The texts of a sequence of scalars; a missing node is the empty sequence. -/
def textsOf? : YamlNode → Option (List String)
  | .sequence items => items.mapM textOf?
  | .scalar "" true => some []
  | _ => none

/-- The words that stand for a missing value when they are written plain. -/
def nullWords : List String := ["", "~", "null", "Null", "NULL"]

/-- The text of a scalar that may be missing. -/
def optionalTextOf? : YamlNode → Option (Option String)
  | .scalar text plain => some (if plain && nullWords.contains text then none else some text)
  | _ => none

/-- Sets a field by its name; other names are skipped. -/
def setField (m : Manifest) (name : String) (node : YamlNode) : Option Manifest :=
  match name with
  | "mods_dir" => (textOf? node).map fun modsDir ↦ { m with modsDir }
  | "data_dir" => (textOf? node).map fun dataDir ↦ { m with dataDir }
  | "extension" => (textOf? node).map fun extension ↦ { m with extension }
  | "packages" => (textsOf? node).map fun packages ↦ { m with packages }
  | "excludes" => (textsOf? node).map fun excludes ↦ { m with excludes }
  | "root" => (textOf? node).map fun root ↦ { m with root }
  | "slot_policy" =>
    ((textOf? node).bind SlotPolicy.ofText?).map fun slotPolicy ↦ { m with slotPolicy }
  | "ids_file" => (optionalTextOf? node).map fun idsFile ↦ { m with idsFile }
  | _ => some m

/-- The names of the fields in the order in which they are written. -/
def fieldNames : List String :=
  ["mods_dir", "data_dir", "extension", "packages", "excludes", "root", "slot_policy", "ids_file"]

/-- Whether no field of a manifest is given twice. -/
def noneRepeated (names : List String) : Bool :=
  fieldNames.all fun field ↦ decide (names.count field ≤ 1)

/-- The manifest of a document. -/
def ofYaml? : Option YamlNode → Option Manifest
  | none | some (.scalar "" true) => some standard
  | some (.mapping fields) => do
    let named ← fields.mapM fun (key, value) ↦ (textOf? key).map fun name ↦ (name, value)
    if noneRepeated (named.map Prod.fst) then
      named.foldlM (fun m field ↦ m.setField field.1 field.2) standard
    else none
  | _ => none

/-! ### Writing -/

/-- A scalar behind its key or dash, up to the start of the next line. -/
def scalarLine (text : String) : List Char :=
  let written := Yaml.writeScalar text.toList
  ' ' :: written ++ if written.getLast?.any Yaml.isLineEnd then [] else ['\n']

/-- The line of a field. -/
def writeField (name text : String) : List Char :=
  name.toList ++ ':' :: scalarLine text

/-- A list with one item to a line, or a pair of brackets. -/
def writeList (name : String) (items : List String) : List Char :=
  if items.isEmpty then name.toList ++ ": []\n".toList
  else name.toList ++ ":\n".toList ++ items.flatMap fun item ↦ '-' :: scalarLine item

/-- The YAML text of a manifest. -/
def writeYaml (m : Manifest) : List Char :=
  writeField "mods_dir" m.modsDir ++ writeField "data_dir" m.dataDir ++
    writeField "extension" m.extension ++ writeList "packages" m.packages ++
    writeList "excludes" m.excludes ++ writeField "root" m.root ++
    writeField "slot_policy" m.slotPolicy.text ++
    (m.idsFile.map (writeField "ids_file")).getD []

/-- Manifests are kept as YAML. -/
instance : Format Manifest where
  read text := (YamlNode.parse text).bind ofYaml?
  write m := String.ofList m.writeYaml

end Manifest

end ModContent
