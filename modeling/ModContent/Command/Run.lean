import ModContent.Command.Report
import ModContent.Command.Request
import ModContent.Project.Layout
import ModContent.Registry.Record
import ModContent.Registry.Rebuild
import ModContent.Store
import ModContent.Text.Quoted
import ModContent.Number.Shortest
import ModContent.Tree.Check

/-!
# Commands

A command runs against a console: a disk, the results printed so far, and the report of its
progress. It may fail, and what it printed and wrote before that stays.
-/

namespace ModContent

/-- What a command runs against. -/
structure Console where
  disk : Disk
  /-- The results, as they are printed. -/
  output : String
  /-- The report of the progress. -/
  report : String

/-- A run of a command. -/
abbrev Action (α : Type) := ExceptT ContentError (StateM Console) α

namespace Console

/-- The console before anything was printed. -/
def start (disk : Disk) : Console := ⟨disk, "", ""⟩

/-- Adds to the report. -/
def tell (text : String) : Action Unit :=
  modify fun c ↦ { c with report := c.report ++ text }

/-- Adds a line that begins with a verb to the report. -/
def status (verb message : String) : Action Unit := tell (statusLine verb message)

/-- Adds to the results. -/
def print (text : String) : Action Unit :=
  modify fun c ↦ { c with output := c.output ++ text }

/-- A result read from the disk. -/
def reading {α : Type} (f : Disk → Except ContentError α) : Action α := do
  ofExcept (f (← getThe Console).disk)

/-- A change of the disk, which stays also when it fails. -/
def writing (f : Disk → Disk × Except ContentError Unit) : Action Unit := do
  let (disk, outcome) := f (← getThe Console).disk
  modify fun c ↦ { c with disk }
  ofExcept outcome

end Console

namespace Command

open Console

variable [Format Manifest] [Format IdFile]

/-! ### Projects -/

/-- A project that was found and loaded. -/
structure Project where
  layout : Layout
  loaded : Loaded

/-- A package in a report. -/
def packageLine (p : Package) : String :=
  let files := plural p.files.length "file" "files"
  s!"{p.name} ({files})"

/-- Finds a project and reads its packages. -/
def readProject (path : String) : Action (Layout × List Package) := do
  status "Scanning" path
  let layout ← reading fun d ↦ discover d path
  let packages ← reading layout.readPackages
  for p in packages do
    status "Loading" (packageLine p)
  return (layout, packages)

/-- Finds a project and loads it. -/
def loadProject (path : String) : Action Project := do
  let (layout, packages) ← readProject path
  return ⟨layout, ← ofExcept (load packages)⟩

/-! ### check -/

/-- Loads a project and reports what is found in it. -/
def check (path : String) : Action Unit := do
  let project ← loadProject path
  let stats := project.loaded.stats
  let tree := project.loaded.tree
  let packages := plural stats.packages "package" "packages"
  let files := plural stats.files "file" "files"
  let definitions := plural tree.topLevel.length "definition" "definitions"
  status "Loaded" s!"{packages}, {files}, {definitions}"
  let blocks := plural stats.scan.blocks "block" "blocks"
  let properties := plural stats.scan.properties "property" "properties"
  let references := plural stats.resolved "reference" "references"
  status "Parsed" s!"{blocks}, {properties}, {references} (max depth {stats.scan.maxDepth})"
  let findings := project.layout.findings ++ project.loaded.diagnostics ++ tree.validate
  tell (findingsReport findings)
  if hasErrors findings then throw (.check (errorCount findings))

/-! ### tree -/

/-- Prints a project as one text, or the nodes of one category. -/
def tree (path : String) (category : Option String) : Action Unit := do
  let t := (← loadProject path).loaded.tree
  match category with
  | none => print t.dump
  | some category =>
    let nodes := t.childrenIn ContentTree.root category
    print (String.join (nodes.map fun node ↦ t.dumpOf node.1))
    let definitions := plural nodes.length "definition" "definitions"
    status "Listed" s!"{definitions} in '{category}'"

/-! ### get -/

/-- A reading of one value: a hyphen for an unreadable one, a question mark without readings. -/
def readingText {α : Type} (write : α → List Char) : Option (Reading α) → List Char
  | some (.value a) => write a
  | some .notComputed => ['?']
  | some .unreadable | none => ['-']

/-- A value of a property with its readings. -/
def valueLine (p : Property) (index : Nat) (value : String) : String :=
  let quoted := String.ofList (Text.quoted value.toList)
  let int := String.ofList (readingText (fun n ↦ (toString n).toList) (p.readingAt Int index))
  let float := String.ofList (readingText Binary64.positional (p.readingAt Binary64 index))
  let colour := String.ofList (readingText Colour.text (p.readingAt Colour index))
  s!"  [{index}] {quoted} int={int} float={float} colour={colour}"

/-- A property, and its values line by line. -/
def describe (p : Property) : List String :=
  p.text :: p.values.zipIdx.map fun (value, index) ↦ valueLine p index value

/-- Prints the property at a path. -/
def get (path project : String) : Action Unit := do
  let t := (← loadProject project).loaded.tree
  match t.property? ContentTree.root path with
  | some p => print (String.join ((describe p).map (· ++ "\n")))
  | none => throw (.notFound path)

/-! ### ids -/

/-- A registry of records with the ids kept for its category. -/
def seededRegistry (kept : IdFile) (policy : SlotPolicy) (category : String) : Registry Record :=
  let r := Registry.new category policy
  match kept.get? category with
  | some table => r.withIds table
  | none => r

/-- An id in a list of ids. -/
def idLine (category : String) (entry : Nat × String) : String :=
  s!"{category}\t{entry.1}\t{entry.2}\n"

/-- Keeps the ids of registries. -/
def keepIds (kept : IdFile) (registries : List (Registry Record)) : IdFile :=
  registries.foldl (fun f r ↦ f.insert r.category r.snapshot) kept

/-- Says what a rebuild did to the ids. -/
def reportRebuild (reports : List RebuildReport) : Action Unit := do
  for report in reports do
    status "Rebuilt" report.text
  for finding in checkVacancies reports do
    tell finding.lines

/-- Rebuilds registries with the ids that are kept, prints their ids and keeps them. -/
def ids (path : String) (categories : List String) (idsFile : Option String) (dryRun : Bool) :
    Action Unit := do
  let project ← loadProject path
  let idsPath := idsFile <|> project.layout.idsPath
  let kept ←
    match idsPath with
    | some path => reading fun d ↦ IdFile.readFrom d path
    | none => pure IdFile.empty
  let seeded := categories.map (seededRegistry kept project.layout.manifest.slotPolicy)
  let (registries, outcome) := rebuildAll project.loaded.tree seeded
  reportRebuild (← ofExcept outcome)
  for r in registries do
    print (String.join (r.snapshot.entries.map (idLine r.category)))
  if dryRun then status "Skipped" "writing ids (dry run)"
  else
    match idsPath with
    | some path =>
      writing fun d ↦ (keepIds kept registries).writeTo d path
      status "Wrote" path
    | none =>
      status "Skipped" s!"writing ids: set ids_file in {Manifest.fileName} or pass --ids-file"

/-! ### init -/

/-- The manifest that `init` starts from: the one that is there, without its packages. -/
def layoutToKeep (d : Disk) (manifest : String) : Except ContentError Manifest :=
  if d.exists? manifest then do
    return { ← Manifest.readFrom d manifest with packages := [] }
  else .ok Manifest.standard

/-- The error of a manifest that is not to be replaced. -/
def alreadyThere : ContentError :=
  .manifest ⟨s!"{Manifest.fileName} already exists", some "Use --force to overwrite"⟩

/-- Writes a manifest with the packages that are found. -/
def init (path : String) (force : Bool) : Action Unit := do
  let manifest := Path.join path Manifest.fileName
  if (← getThe Console).disk.exists? manifest && !force then throw alreadyThere
  status "Scanning" path
  let kept ← reading fun d ↦ layoutToKeep d manifest
  let layout := Layout.ofManifest (← getThe Console).disk path kept
  let names := layout.packages.map PackageDirectory.name
  writing fun d ↦ { layout.manifest with packages := names }.writeTo d manifest
  unless names.isEmpty do status "Discovered" (String.intercalate ", " names)
  let packages := plural names.length "package" "packages"
  let files := plural layout.fileCount "file" "files"
  status "Created" s!"{Manifest.fileName} ({packages}, {files})"

/-! ### All commands -/

/-- Runs a request. Watching and completion scripts are not the work of this library. -/
def run : Request → Action Unit
  | .check path => check path
  | .tree path category => tree path category
  | .get path project => get path project
  | .ids path categories idsFile dryRun => ids path categories idsFile dryRun
  | .init path force => init path force
  | .watch .. | .completions .. => pure ()

/-- The console after a request, and how the request ended. -/
def runOn (disk : Disk) (request : Request) : Console × Except ContentError Unit :=
  let (outcome, console) := (run request).run (Console.start disk)
  (console, outcome)

end Command

end ModContent
