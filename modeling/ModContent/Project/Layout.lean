import ModContent.Diagnostic
import ModContent.Project.Files

/-!
# The layout of a project

A project keeps a directory for each package in one directory, and in each of these a data
directory with definition files. `discover` finds them by the manifest; a listed package without a
data directory is noted and skipped.
-/

namespace ModContent

/-- The data directory of a package, with its definition files in load order. -/
structure PackageDirectory where
  name : String
  directory : String
  files : List String
  deriving DecidableEq, Repr

/-- The packages of a project as they lie on the disk. -/
structure Layout where
  root : String
  manifest : Manifest
  /-- Whether the manifest was read from a file. -/
  hasManifest : Bool
  /-- The packages found, in load order. -/
  packages : List PackageDirectory
  /-- The packages asked for whose data directory is not there. -/
  missing : List String
  deriving DecidableEq, Repr

/-- The paths that the project at a root refers to: the directory of its packages, and its id
file. -/
def Manifest.paths (m : Manifest) (root : String) : List String :=
  Path.join root m.modsDir :: (m.idsFile.map (Path.join root)).toList

namespace Layout

/-- The data directory of a package in the project at a root. -/
def dataDirectory (root : String) (m : Manifest) (name : String) : String :=
  Path.join (Path.join (Path.join root m.modsDir) name) m.dataDir

/-- The packages that a manifest asks for. -/
def packageNames (d : Disk) (root : String) (m : Manifest) : List String :=
  if m.packages.isEmpty then d.packageNames (Path.join root m.modsDir) else m.packages

/-- The layout of the project at a root under a given manifest. -/
def ofManifest (d : Disk) (root : String) (m : Manifest) : Layout :=
  let (found, missing) :=
    (packageNames d root m).partition fun name ↦ d.isDirectory (dataDirectory root m name)
  { root
    manifest := m
    hasManifest := false
    packages := found.map fun name ↦
      let directory := dataDirectory root m name
      ⟨name, directory, d.definitionFiles m directory⟩
    missing }

/-- The layout of single directories, each a package of its own name. -/
def ofPaths (d : Disk) (paths : List String) : Layout :=
  let named := paths.map fun path ↦ ((Path.fileName? path).getD path, path)
  let (found, missing) := named.partition fun (_, path) ↦ d.isDirectory path
  { root := (paths.head?.bind Path.parent?).getD "."
    manifest := Manifest.standard
    hasManifest := false
    packages := found.map fun (name, path) ↦
      ⟨name, path, d.definitionFiles Manifest.standard path⟩
    missing := missing.map Prod.fst }

/-- The number of definition files found. -/
def fileCount (l : Layout) : Nat := (l.packages.flatMap fun p ↦ p.files).length

/-- The warning for a package without a data directory. -/
def missingFinding (l : Layout) (name : String) : Diagnostic :=
  .warning "moddef::discovery::missing-package"
    s!"package '{name}' has no {l.manifest.dataDir} directory, skipped"
    (some <| s!"Create {dataDirectory l.root l.manifest name} or remove the package from " ++
      Manifest.fileName)

/-- The warnings for all packages that are missing. -/
def findings (l : Layout) : List Diagnostic := l.missing.map l.missingFinding

/-- Where ids are kept, if the manifest names a file for them. -/
def idsPath (l : Layout) : Option String := l.manifest.idsFile.map (Path.join l.root)

/-- The paths whose changes matter to the project: the data directories, and the manifest if there
is one. -/
def watchPaths (l : Layout) (d : Disk) : List String :=
  let manifest := Path.join l.root Manifest.fileName
  l.packages.map PackageDirectory.directory ++ if d.exists? manifest then [manifest] else []

/-- Reads all files of all packages. -/
def readPackages (l : Layout) (d : Disk) : Except ContentError (List Package) :=
  l.packages.mapM fun p ↦ do return ⟨p.name, ← p.files.mapM (SourceFile.readFrom d)⟩

end Layout

/-- The layout of the project at a root, under its manifest or else the standard one. -/
def discover [Format Manifest] (d : Disk) (root : String) : Except ContentError Layout :=
  let path := Path.join root Manifest.fileName
  if d.exists? path then do
    return { Layout.ofManifest d root (← Manifest.readFrom d path) with hasManifest := true }
  else .ok (Layout.ofManifest d root Manifest.standard)

end ModContent
