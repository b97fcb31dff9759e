import ModContent.Text.Cut

/-!
# The disk

A disk is a set of entries by location, with a working directory. A path is followed part by part
from the root or from the working directory, and every part on the way has to be a directory.
Writing and removing give a new disk; `Disk.get?` says what is seen after them.

A file is emptied before it is written, and its bytes follow. The device may break this off, and
the first of the bytes are what stays (`Disk.save`). Names are valid Unicode, and there are no
links.
-/

namespace ModContent

/-- Why the disk refuses what is asked of it. -/
inductive DiskError where
  | missing
  | notDirectory
  | isDirectory
  | nameTooLong
  | zeroInName
  | notText
  /-- The device broke off a write, with this report. -/
  | brokenOff (report : String)
  deriving DecidableEq, Repr

/-- The report of the system. -/
def DiskError.message : DiskError → String
  | missing => "No such file or directory (os error 2)"
  | notDirectory => "Not a directory (os error 20)"
  | isDirectory => "Is a directory (os error 21)"
  | nameTooLong => "File name too long (os error 36)"
  | zeroInName => "file name contained an unexpected NUL byte"
  | notText => "stream did not contain valid UTF-8"
  | brokenOff report => report

/-- What lies at a location. -/
inductive DiskEntry where
  | directory
  | file (bytes : ByteArray)

/-- The names of a directory or file and of the directories around it, the innermost first. The
root has the empty location. -/
abbrev DiskLocation := List String

/-- A write that is broken off: how many bytes are kept, and what the system reports. -/
structure WriteFault where
  kept : Nat
  report : String

/-- A disk with a working directory. It comes with the faults of its device. -/
structure Disk where
  entries : List (DiskLocation × DiskEntry)
  /-- The working directory. -/
  here : DiskLocation
  /-- What breaks off the writing of these bytes to a file at a location. -/
  fault? : DiskLocation → ByteArray → Option WriteFault := fun _ _ ↦ none

namespace Disk

/-! ### Locations -/

/-- The disk with nothing on it, in a working directory. -/
def empty (here : DiskLocation) : Disk := { entries := [], here }

/-- What is at a location. The root is always a directory. -/
def get? (d : Disk) (place : DiskLocation) : Option DiskEntry :=
  if place = [] then some .directory else d.entries.lookup place

/-- Puts an entry at a location, in place of the one that was there. -/
def put (d : Disk) (place : DiskLocation) (entry : DiskEntry) : Disk :=
  { d with entries := (place, entry) :: d.entries }

/-- Takes away a location and everything inside it. -/
def erase (d : Disk) (place : DiskLocation) : Disk :=
  { d with entries := d.entries.filter fun entry ↦ !place.isSuffixOf entry.1 }

/-- The names inside a location. -/
def namesIn (d : Disk) (place : DiskLocation) : List String :=
  (d.entries.filterMap fun entry ↦
    match entry.1 with
    | name :: outer => if outer = place then some name else none
    | [] => none).eraseDups

/-- An entry that was put is seen at its location; elsewhere nothing changes. -/
theorem get?_put (d : Disk) (place other : DiskLocation) (entry : DiskEntry) (h : place ≠ []) :
    (d.put place entry).get? other = if other = place then some entry else d.get? other := by
  by_cases ho : other = place
  · subst ho; simp [get?, put, h]
  · by_cases hr : other = []
    · subst hr; simp [get?, ho]
    · simp [get?, put, hr, ho, List.lookup_cons, beq_eq_false_iff_ne.2 ho]

/-! ### Following paths -/

/-- The directory at which a path starts. -/
def startOf (d : Disk) (path : String) : DiskLocation :=
  if path.toList.head? == some '/' then [] else d.here

/-- A location that is a directory. -/
def directoryAt (d : Disk) (place : DiskLocation) : Except DiskError Unit :=
  match d.get? place with
  | some .directory => .ok ()
  | some (.file _) => .error .notDirectory
  | none => .error .missing

/-- The longest name of a file or directory, in bytes. -/
def nameLimit : Nat := 255

/-- The longest path, in bytes. -/
def pathLimit : Nat := 4095

/-- Whether a name is not too long. -/
def checkName (name : List Char) : Except DiskError Unit :=
  if nameLimit < Text.byteLength name then .error .nameTooLong else .ok ()

/-- Follows the parts of a path from a location. -/
def walk (d : Disk) : DiskLocation → List (List Char) → Except DiskError DiskLocation
  | place, [] => .ok place
  | place, part :: parts => do
    d.directoryAt place
    if part = [] || part = ['.'] then d.walk place parts
    else if part = ['.', '.'] then d.walk place.tail parts
    else
      checkName part
      let inner := String.ofList part :: place
      if (d.get? inner).isNone then .error .missing else d.walk inner parts

/-- Whether a text can be a path. -/
def checkPath (path : String) : Except DiskError Unit :=
  if '\x00' ∈ path.toList then .error .zeroInName
  else if path.isEmpty then .error .missing
  else if pathLimit < path.utf8ByteSize then .error .nameTooLong
  else .ok ()

/-- The location of what is there at a path. -/
def locate (d : Disk) (path : String) : Except DiskError DiskLocation := do
  checkPath path
  d.walk (d.startOf path) (Text.splitOn '/' path.toList)

/-- What is there at a path. -/
def entry? (d : Disk) (path : String) : Option DiskEntry :=
  match d.locate path with
  | .ok place => d.get? place
  | .error _ => none

/-- Whether anything is there at a path. -/
def exists? (d : Disk) (path : String) : Bool := (d.entry? path).isSome

/-- Whether a directory is there at a path. -/
def isDirectory (d : Disk) (path : String) : Bool :=
  match d.entry? path with
  | some .directory => true
  | _ => false

/-- Whether a file is there at a path. -/
def isFile (d : Disk) (path : String) : Bool :=
  match d.entry? path with
  | some (.file _) => true
  | _ => false

/-! ### Reading -/

/-- The content of a file. -/
def readBytes (d : Disk) (path : String) : Except DiskError ByteArray := do
  match d.get? (← d.locate path) with
  | some (.file bytes) => .ok bytes
  | some .directory => .error .isDirectory
  | none => .error .missing

/-- The content of a file of text. -/
def readText (d : Disk) (path : String) : Except DiskError String := do
  match String.fromUTF8? (← d.readBytes path) with
  | some text => .ok text
  | none => .error .notText

/-- The names in a directory, sorted; none if there is no such directory. -/
def list (d : Disk) (path : String) : List String :=
  match d.locate path with
  | .ok place => (d.namesIn place).mergeSort fun a b ↦ decide (a ≤ b)
  | .error _ => []

/-! ### Writing -/

/-- The location of a file to write, which need not be there yet. Its directory must be. -/
def target (d : Disk) (path : String) : Except DiskError DiskLocation := do
  checkPath path
  let parts := Text.splitOn '/' path.toList
  let kept := (parts.reverse.dropWhile List.isEmpty).reverse
  match kept.getLast? with
  | none => .error .isDirectory
  | some name =>
    let outer ← d.walk (d.startOf path) kept.dropLast
    d.directoryAt outer
    if kept.length < parts.length || name = ['.'] || name = ['.', '.'] then .error .isDirectory
    else
      checkName name
      let place := String.ofList name :: outer
      match d.get? place with
      | some .directory => .error .isDirectory
      | _ => .ok place

/-- The disk with a file of these bytes. -/
def writeBytes (d : Disk) (path : String) (bytes : ByteArray) : Except DiskError Disk := do
  return d.put (← d.target path) (.file bytes)

/-- The disk with a file of this text. -/
def writeText (d : Disk) (path text : String) : Except DiskError Disk :=
  d.writeBytes path text.toUTF8

/-- The disk after a text was written to a file, and how that ended. Nothing is changed where there
is no place for the file; once it is open, a fault leaves the first of the bytes in it. -/
def save (d : Disk) (path text : String) : Disk × Except DiskError Unit :=
  match d.target path with
  | .error error => (d, .error error)
  | .ok place =>
    match d.fault? place text.toUTF8 with
    | none => (d.put place (.file text.toUTF8), .ok ())
    | some fault =>
      (d.put place (.file (text.toUTF8.extract 0 fault.kept)), .error (.brokenOff fault.report))

/-- Follows the parts of a path and makes each directory that is missing. -/
def makeDirectories (d : Disk) : DiskLocation → List (List Char) → Except DiskError Disk
  | place, [] => do
    d.directoryAt place
    return d
  | place, part :: parts => do
    d.directoryAt place
    if part = [] || part = ['.'] then d.makeDirectories place parts
    else if part = ['.', '.'] then d.makeDirectories place.tail parts
    else
      checkName part
      let inner := String.ofList part :: place
      if (d.get? inner).isNone then (d.put inner .directory).makeDirectories inner parts
      else d.makeDirectories inner parts

/-- Makes a directory with all directories around it. -/
def makeDirectory (d : Disk) (path : String) : Except DiskError Disk := do
  if path.isEmpty then return d
  checkPath path
  d.makeDirectories (d.startOf path) (Text.splitOn '/' path.toList)

/-- Removes a file, or a directory with everything inside it. -/
def remove (d : Disk) (path : String) : Except DiskError Disk := do
  return d.erase (← d.locate path)

end Disk

end ModContent
