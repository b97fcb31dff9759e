import ModContent.Command.Run
import ModContent.Json.IdFile
import ModContent.Yaml.Manifest

/-!
# The program

The files that a request refers to are copied into a `Disk`, the request runs on it, and the files
that it changed are written back. All decisions are those of `Request.read` and `Command.run`. Here
manifests are kept as YAML and id files as JSON.
-/

namespace ModContent.Program

/-- Adds a file with the directories around it. -/
def addFile (d : Disk) (path : String) (bytes : ByteArray) : Except DiskError Disk := do
  (← d.makeDirectory ((Path.parent? path).getD "")).writeBytes path bytes

/-- Copies what lies at a path into a disk. -/
partial def copyIn (d : Disk) (path : String) : IO Disk := do
  let place := (← IO.currentDir) / path
  if ← place.isDir then
    let mut grown := (d.makeDirectory path).toOption.getD d
    for entry in ← place.readDir do
      grown ← copyIn grown (Path.join path entry.fileName)
    return grown
  else if ← place.pathExists then
    return (addFile d path (← IO.FS.readBinFile place)).toOption.getD d
  else
    return d

/-- A disk that holds nothing but the working directory. -/
def bareDisk : IO Disk := do
  let here := (← IO.currentDir).toString
  let root := Disk.empty []
  let made := (root.makeDirectory here).toOption.getD root
  return { made with here := ((made.locate here).toOption).getD [] }

/-- A disk with the files that a request refers to. -/
def diskFor (request : Request) : IO Disk := do
  let root := request.project?.getD "."
  let known ← copyIn (← bareDisk) (Path.join root Manifest.fileName)
  let manifest := (Manifest.find? known root).getD Manifest.standard
  (root :: manifest.paths root ++ request.idsFile?.toList).foldlM addTop known
where
  /-- Copies a path; of the project directory itself only that it is there. -/
  addTop (d : Disk) (path : String) : IO Disk := do
    if path == request.project?.getD "." then
      let place := (← IO.currentDir) / path
      if ← place.isDir then return (d.makeDirectory path).toOption.getD d else return d
    else copyIn d path

/-- The files of a disk that another one does not hold in the same way. -/
def changedFiles (before after : Disk) : List (String × ByteArray) :=
  after.entries.filterMap fun (place, entry) ↦
    match entry, before.get? place with
    | .directory, _ => none
    | .file bytes, some (.file old) => if bytes == old then none else some (pathOf place, bytes)
    | .file bytes, _ => some (pathOf place, bytes)
where
  pathOf (place : DiskLocation) : String := "/" ++ String.intercalate "/" place.reverse

/-- Runs a request on the files it refers to. -/
def perform (request : Request) : IO UInt32 := do
  let disk ← diskFor request
  let (console, outcome) := Command.runOn disk request
  for (path, bytes) in changedFiles disk console.disk do
    IO.FS.writeBinFile path bytes
  IO.print console.output
  IO.eprint console.report
  match outcome with
  | .ok () => return 0
  | .error error =>
    IO.eprintln s!"Error: {error.message}"
    if let some help := error.help then IO.eprintln s!"  help: {help}"
    return 1

end ModContent.Program

open ModContent in
/-- Reads the command line and carries out what it asks for. -/
def main (words : List String) : IO UInt32 := do
  match Request.read words with
  | .ok invocation => Program.perform invocation.request
  | .error usage =>
    IO.eprintln usage.message
    return usage.exitCode
