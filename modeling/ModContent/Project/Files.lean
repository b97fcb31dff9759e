import ModContent.Disk.Basic
import ModContent.Package
import ModContent.Project.Manifest
import ModContent.Registry.IdFile

/-!
# The files of a project

Definition files, manifests and id files are read from and written to a disk; a failure names the
path. `Disk.definitionFiles` lists the definition files of a data directory in load order: within
a directory all that lies in its subdirectories comes before its own files, and siblings come by
name (`Disk.loadOrder`).
-/

namespace ModContent

/-! ### Reading and writing -/

/-- The definition file at a path. -/
def SourceFile.readFrom (d : Disk) (path : String) : Except ContentError SourceFile :=
  match d.readText path with
  | .ok source => .ok (SourceFile.ofText path source)
  | .error e => .error (.io path e.message)

section

variable [Format Manifest]

/-- The manifest at a path. -/
def Manifest.readFrom (d : Disk) (path : String) : Except ContentError Manifest :=
  match d.readText path with
  | .ok text => Manifest.parse text
  | .error e => .error (.io path s!"Failed to read manifest: {e.message}")

/-- The manifest in the directory of a project, if it is there and can be read. -/
def Manifest.find? (d : Disk) (root : String) : Option Manifest :=
  (Manifest.readFrom d (Path.join root Manifest.fileName)).toOption

/-- The disk after a manifest was written to a path, and how that ended. -/
def Manifest.writeTo (m : Manifest) (d : Disk) (path : String) : Disk × Except ContentError Unit :=
  let (d, outcome) := d.save path m.text
  (d, outcome.mapError fun e ↦ .io path s!"Failed to write manifest: {e.message}")

end

section

variable [Format IdFile]

/-- The error of a file that is no id file. -/
def IdFile.invalid (path : String) : ContentError :=
  .manifest ⟨s!"invalid id file {path}", some "Delete the file to start from fresh ids"⟩

/-- The id tables in a file; none if there is no such file. -/
def IdFile.readFrom (d : Disk) (path : String) : Except ContentError IdFile :=
  if d.exists? path then
    match d.readText path with
    | .ok text =>
      match IdFile.parse text with
      | some ids => .ok ids
      | none => .error (IdFile.invalid path)
    | .error e => .error (.io path e.message)
  else .ok IdFile.empty

/-- The disk after id tables were written to a path, and how that ended. -/
def IdFile.writeTo (f : IdFile) (d : Disk) (path : String) : Disk × Except ContentError Unit :=
  let (d, outcome) := d.save path f.text
  (d, outcome.mapError fun e ↦ .io path e.message)

end

/-! ### Listing -/

namespace Disk

/-- Whether a name in a directory is that of a directory. -/
def holdsDirectory (d : Disk) (place : DiskLocation) (name : String) : Bool :=
  match d.get? (name :: place) with
  | some .directory => true
  | _ => false

/-- The load order of two names in a directory: a directory before a file, else by name. -/
def loadOrder (d : Disk) (place : DiskLocation) (a b : String) : Ordering :=
  (compare (d.holdsDirectory place b) (d.holdsDirectory place a)).then (compare a b)

/-- The names in a directory in load order. -/
def inLoadOrder (d : Disk) (place : DiskLocation) : List String :=
  (d.namesIn place).mergeSort fun a b ↦ (d.loadOrder place a b).isLE

/-- The files at most `fuel` levels below a location, as paths seen from there. The names of each
directory are gone through in load order, and what lies in a directory comes in its place. -/
def filesWithin (d : Disk) : Nat → DiskLocation → List String
  | 0, _ => []
  | fuel + 1, place =>
    (d.inLoadOrder place).flatMap fun name ↦
      match d.get? (name :: place) with
      | some .directory => (d.filesWithin fuel (name :: place)).map fun path ↦ Path.join name path
      | some (.file _) => [name]
      | none => []

/-- The definition files of a data directory in load order; none if it is no directory. -/
def definitionFiles (d : Disk) (m : Manifest) (directory : String) : List String :=
  match d.locate directory with
  | .ok place =>
    if d.isDirectory directory then
      ((d.filesWithin (d.entries.length + 1) place).filter fun path ↦
        m.isDefinitionFile path && !m.isExcluded path).map (Path.join directory)
    else []
  | .error _ => []

/-- The names of the directories in a directory, sorted. -/
def packageNames (d : Disk) (directory : String) : List String :=
  (d.list directory).filter fun name ↦ d.isDirectory (Path.join directory name)

end Disk

end ModContent
