import ModContent.Text.Cut

/-!
# Paths

A path is a text that is shown as it was made: joining adds a separator where one is missing and
changes nothing else. What a path names is decided by its components, in which empty parts and
single dots do not count, but for a single dot at the very start.
-/

namespace ModContent.Path

/-! ### Components -/

/-- A part of a path as it is compared: the root, the working directory in front, the directory
above, or a name. -/
inductive Component where
  | root
  | here
  | up
  | name (name : String)
  deriving DecidableEq, Repr

/-- Whether a path starts at the root. -/
def isAbsolute (path : String) : Bool := path.toList.head? == some '/'

/-- The component of a part between separators. -/
def componentOf (part : List Char) : Option Component :=
  if part = [] || part = ['.'] then none
  else if part = ['.', '.'] then some .up
  else some (.name (String.ofList part))

/-- The components of a path. Empty parts do not count, and a dot counts only in front. -/
def components (path : String) : List Component :=
  let parts := Text.splitOn '/' path.toList
  let start : List Component :=
    if isAbsolute path then [.root] else if parts.head? = some ['.'] then [.here] else []
  start ++ parts.filterMap componentOf

/-- Whether two texts name the same path. -/
def same (a b : String) : Bool := components a == components b

/-- The last component, if it is a name. -/
def fileName? (path : String) : Option String :=
  match (components path).getLast? with
  | some (.name name) => some name
  | _ => none

/-- What stands behind the last dot of the file name; a dot at its start does not count. -/
def extension? (path : String) : Option String := do
  let name := (← fileName? path).toList
  match Text.cutAt '.' name.reverse with
  | some (_, []) | none => none
  | some (after, _) => some (String.ofList after.reverse)

/-! ### Joining -/

/-- The path of `inner` seen from `outer`. -/
def join (outer inner : String) : String :=
  if isAbsolute inner then inner
  else if outer.isEmpty || outer.toList.getLast? == some '/' then outer ++ inner
  else outer ++ "/" ++ inner

/-- The text without the separators and the parts that do not count at its end. -/
def trimEnd (parts : List (List Char)) : List (List Char) :=
  match parts.reverse.dropWhile fun part ↦ (componentOf part).isNone with
  | [] => parts.take 1
  | kept => kept.reverse

/-- The path without its last component; nothing for an empty path and for the root. -/
def parent? (path : String) : Option String :=
  match (components path).getLast? with
  | none | some .root => none
  | some .here => some ""
  | some _ =>
    let parts := Text.splitOn '/' path.toList
    let before := (trimEnd parts).dropLast
    if before.isEmpty then some ""
    else
      let kept := trimEnd before
      let text := List.intercalate ['/'] kept
      some (if text.isEmpty && isAbsolute path then "/" else String.ofList text)

end ModContent.Path
