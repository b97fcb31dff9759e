import ModContent.Resolve
import ModContent.Source.Scan

/-!
# Loading packages

Packages load in order into one tree. All files of a package are scanned first, then its references
are resolved, so a reference sees its own package and those before it. The first failure ends the
load.
-/

namespace ModContent

/-- The lines of a definition file. -/
structure SourceFile where
  path : String
  lines : List String
  deriving DecidableEq, Repr

/-- Divides a text into the lines of a file. -/
def SourceFile.ofText (path source : String) : SourceFile :=
  ⟨path, (Text.lines source.toList).map String.ofList⟩

/-- A named list of files in load order. -/
structure Package where
  name : String
  files : List SourceFile
  deriving DecidableEq, Repr

/-- Counts of one load. -/
structure LoadStats where
  packages : Nat
  files : Nat
  /-- References resolved. -/
  resolved : Nat
  scan : ScanStats
  deriving DecidableEq, Repr

namespace LoadStats

/-- The counts before anything is loaded. -/
def zero : LoadStats := ⟨0, 0, 0, ScanStats.zero⟩

/-- The counts of two loads together. -/
def merge (a b : LoadStats) : LoadStats :=
  ⟨a.packages + b.packages, a.files + b.files, a.resolved + b.resolved, a.scan.merge b.scan⟩

end LoadStats

/-- Scans the lines of a file into the content of its package. -/
def Content.addFile (content : Content) (file : SourceFile) :
    Content × Except ContentError ScanStats :=
  scanFile content file.path (normalize (file.lines.map String.toList))

/-- Scans files one after the other, up to the first that fails. -/
def Content.addFiles (content : Content) :
    List SourceFile → ScanStats → Content × Except ContentError ScanStats
  | [], stats => (content, .ok stats)
  | file :: files, stats =>
    match content.addFile file with
    | (reached, .error error) => (reached, .error error)
    | (grown, .ok added) => grown.addFiles files (stats.merge added)

/-- Resolves what waits in the queue; the error is that of the first reference that fails. -/
def Content.resolveAll (content : Content) : Content × Except ContentError Nat :=
  let (tree, outcome) := resolve content.tree content.queue
  ({ content with tree, queue := [] }, outcome.mapError ReferenceFailure.toError)

/-- A tree with the findings of its load so far. -/
structure Loading where
  tree : ContentTree
  diagnostics : List Diagnostic
  deriving DecidableEq, Repr

/-- Loads one package into a tree: the tree and findings as far as it got, and the counts or the
error. -/
def Loading.addPackage (loading : Loading) (package : Package) :
    Loading × Except ContentError LoadStats :=
  let content := Content.start loading.tree loading.diagnostics
  match content.addFiles package.files ScanStats.zero with
  | (reached, .error error) => (⟨reached.tree, reached.diagnostics⟩, .error error)
  | (scanned, .ok stats) =>
    let (settled, outcome) := scanned.resolveAll
    (⟨settled.tree, settled.diagnostics⟩,
      outcome.map fun resolved ↦ ⟨1, package.files.length, resolved, stats⟩)

/-- A tree that loaded, with its findings and counts. -/
structure Loaded where
  tree : ContentTree
  diagnostics : List Diagnostic
  stats : LoadStats
  deriving DecidableEq, Repr

namespace Loaded

/-- The load of no package. -/
def none : Loaded := ⟨ContentTree.new, [], LoadStats.zero⟩

/-- Loads one more package. -/
def add (loaded : Loaded) (package : Package) : Except ContentError Loaded :=
  match Loading.addPackage ⟨loaded.tree, loaded.diagnostics⟩ package with
  | (_, .error error) => .error error
  | (loading, .ok stats) =>
    .ok ⟨loading.tree, loading.diagnostics, loaded.stats.merge stats⟩

end Loaded

/-- Loads packages in order into a new tree. -/
def load (packages : List Package) : Except ContentError Loaded :=
  packages.foldlM Loaded.add Loaded.none

/-! ### Single texts -/

/-- Scans a text that came from no file. Its findings are not kept. -/
def ContentTree.scanText (t : ContentTree) (source : String) :
    Content × Except ContentError ScanStats :=
  scanFile (Content.start t []) (Location.inline 0).file (normalizeText source)

/-- Scans a text into a tree and resolves its references. -/
def ContentTree.parse (t : ContentTree) (source : String) :
    ContentTree × Except ContentError ScanStats :=
  match t.scanText source with
  | (reached, .error error) => (reached.tree, .error error)
  | (scanned, .ok stats) =>
    let (settled, outcome) := scanned.resolveAll
    (settled.tree, outcome.map fun _ ↦ stats)

/-- Scans a text into a tree and leaves its references waiting. -/
def ContentTree.parseQueued (t : ContentTree) (source : String) :
    ContentTree × Except ContentError (List Reference) :=
  let (reached, outcome) := t.scanText source
  (reached.tree, outcome.map fun _ ↦ reached.queue)

end ModContent
