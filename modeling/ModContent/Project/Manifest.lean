import ModContent.Disk.Path
import ModContent.Error
import ModContent.Format
import ModContent.Registry.IdTable
import ModContent.Store
import ModContent.Text.Blank

/-!
# Manifests

The manifest of a project says where its packages lie, which ones to load in which order, and how
registries assign ids. `Manifest.parse` reads it from a text and `Manifest.text` writes it.
-/

namespace ModContent

/-- The settings of a project. -/
structure Manifest where
  /-- The directory with one directory for each package. -/
  modsDir : String
  /-- The directory inside a package that holds its definition files. -/
  dataDir : String
  /-- The extension of definition files, without its dot. -/
  extension : String
  /-- The packages in load order; with none listed, all packages load by name. -/
  packages : List String
  /-- Patterns of files to leave out, for paths below a data directory. -/
  excludes : List String
  /-- The handle that the packages load into. -/
  root : String
  slotPolicy : SlotPolicy
  /-- The file that keeps ids between runs. -/
  idsFile : Option String
  deriving DecidableEq, Repr

/-- The word of a policy in a manifest. -/
def SlotPolicy.text : SlotPolicy → String
  | grow => "grow"
  | failFast => "fail-fast"

/-- The policy of a word. -/
def SlotPolicy.ofText? (text : String) : Option SlotPolicy :=
  [grow, failFast].find? fun policy ↦ policy.text == text

namespace Manifest

/-- The name of the manifest in the directory of a project. -/
def fileName : String := "moddef.yaml"

/-- What holds without a manifest. -/
def standard : Manifest :=
  ⟨"Mods", "Defines", "txt", [], [], ContentStore.documentRoot, .grow, none⟩

/-! ### Reading and writing -/

/-- The error of a text that is no manifest. -/
def invalid : ContentError :=
  .manifest ⟨"Invalid manifest", some s!"Check {fileName} syntax"⟩

section

variable [Format Manifest]

/-- The manifest of a text; a blank text stands for the standard one. -/
def parse (text : String) : Except ContentError Manifest :=
  if Text.allBlank text.toList then .ok standard
  else
    match Format.read text with
    | some m => .ok m
    | none => .error invalid

/-- What is written for the manifest. -/
def text (m : Manifest) : String := Format.write m

/-- The manifest is read back from its text. -/
def ReadsBack (m : Manifest) : Prop := parse m.text = .ok m

end

/-- Whether two manifests say the same; paths count by what they name. -/
def same (a b : Manifest) : Bool :=
  Path.same a.modsDir b.modsDir && Path.same a.dataDir b.dataDir &&
    a.idsFile.map Path.components == b.idsFile.map Path.components &&
    { a with modsDir := "", dataDir := "", idsFile := none } ==
      { b with modsDir := "", dataDir := "", idsFile := none }

/-! ### Files -/

/-- Whether a path has the extension of definition files, in any case. -/
def isDefinitionFile (m : Manifest) (path : String) : Bool :=
  (Path.extension? path).any fun extension ↦
    extension.toList.map Char.toLower == m.extension.toList.map Char.toLower

/-- Whether a pattern matches a path, given with slashes. A pattern `dir/*` matches what lies in
some directory of this name, however deep; a star at the start of a pattern without slashes matches
any beginning; all else matches wherever it occurs. Two stars and a slash in front ask for the end
of the path or the start of some part. -/
def patternMatches (pattern path : List Char) : Bool :=
  let inDirectory (dir : List Char) :=
    (dir ++ ['/']).isPrefixOf path || Text.hasPart ('/' :: dir ++ ['/']) path
  let endsWith (ending : List Char) := ending.reverse.isPrefixOf path.reverse
  let anywhere :=
    match Text.dropTail? ['/', '*'] pattern with
    | some dir => inDirectory dir
    | none => Text.hasPart pattern path
  match Text.dropLead? ['*', '*', '/'] pattern with
  | some rest =>
    match Text.dropTail? ['/', '*'] rest with
    | some dir => inDirectory dir
    | none => endsWith rest || Text.hasPart ('/' :: rest) path
  | none =>
    match pattern with
    | '*' :: ending => if '/' ∈ ending then anywhere else endsWith ending
    | _ => anywhere

/-- Whether a path below a data directory is left out. -/
def isExcluded (m : Manifest) (path : String) : Bool :=
  let path := path.toList.map fun c ↦ if c = '\\' then '/' else c
  m.excludes.any fun pattern ↦ patternMatches pattern.toList path

end Manifest

end ModContent
