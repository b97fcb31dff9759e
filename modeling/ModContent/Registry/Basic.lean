import ModContent.Diagnostic
import ModContent.Registry.IdTable
import ModContent.Tree.Path

/-!
# Registries

A registry compiles the top-level nodes of one category to definitions and gives them ids. A build
is staged first and becomes visible when it is committed; until then, and whenever staging fails,
readers see the contents of the last commit. Lookups that find nothing give the fallback entry,
which is made anew with each commit.
-/

namespace ModContent

/-- A type that is built from a content node. -/
class Definition (α : Type) where
  /-- Builds the definition of a live node. -/
  ofNode : ContentTree → NodeId → Node → Except ContentError α
  /-- What is handed out for unknown ids and names. -/
  fallback : α

/-- A definition with its id and name. Only the fallback has no id. -/
structure Entry (α : Type) where
  id : Option Nat
  name : String
  definition : α
  deriving DecidableEq, Repr

/-- The entry with no id and no name. -/
def Entry.fallback (α : Type) [Definition α] : Entry α := ⟨none, "", Definition.fallback⟩

/-- Whether this is what is given for unknown ids and names. -/
def Entry.isFallback {α : Type} (e : Entry α) : Bool := e.id.isNone

/-- The contents of a registry: the id table, the entries by id, and the id of each name. Ids are
natural numbers, and stand for numbers of 32 bits: there are to be at most `2 ^ 32` of them. -/
structure Build (α : Type) where
  table : IdTable
  entries : List (Option (Entry α))
  ids : List (String × Nat)
  deriving DecidableEq, Repr

/-- The definitions of a category by id. Readers see the contents that were committed, and a stage
is kept apart from them. -/
structure Registry (α : Type) where
  category : String
  policy : SlotPolicy
  contents : Build α
  /-- What lookups give that find nothing. -/
  fallback : Entry α
  staged : Option (Build α)
  /-- Whether anything was ever committed. -/
  built : Bool
  /-- Whether there is a committed build and no rebuild under way. -/
  locked : Bool
  deriving DecidableEq, Repr

/-- What a build did to the ids of its registry. -/
structure RebuildReport where
  category : String
  kept : Nat
  added : Nat
  removed : Nat
  /-- Ids without an entry. -/
  vacant : Nat
  idSpace : Nat
  deriving DecidableEq, Repr

/-- The line of a report. -/
def RebuildReport.text (r : RebuildReport) : String :=
  s!"{r.category}: {r.kept} kept, {r.added} added, {r.removed} removed, {r.vacant} vacant " ++
    s!"({r.idSpace} ids)"

/-- A warning for each registry that has vacant ids. -/
def checkVacancies (reports : List RebuildReport) : List Diagnostic :=
  (reports.filter fun r ↦ decide (0 < r.vacant)).map fun r ↦
    .warning "moddef::check::vacant-ids"
      s!"registry '{r.category}' has {r.vacant} vacant id(s) out of {r.idSpace}"
      (some "New definitions in this category will take the vacant ids first")

/-! ### Builds -/

namespace Build

variable {α : Type}

/-- A table without entries. -/
def bare (table : IdTable) : Build α := ⟨table, [], []⟩

/-- The table with room for an entry under each id. -/
def vacated (table : IdTable) : Build α := ⟨table, List.replicate table.idSpace none, []⟩

/-- Puts the definition of a name under an id. -/
def place (b : Build α) (id : Nat) (name : String) (definition : α) : Build α :=
  { b with
    entries := b.entries.set id (some ⟨some id, name, definition⟩)
    ids := b.ids ++ [(name, id)] }

/-- The number of ids without an entry. -/
def vacancies (b : Build α) : Nat := b.entries.countP Option.isNone

/-- The first node of each name, in order. -/
def firstOfEachName (seen : List String) : List (NodeId × Node) → List (NodeId × Node)
  | [] => []
  | (id, node) :: rest =>
    if node.key.name ∈ seen then firstOfEachName seen rest
    else (id, node) :: firstOfEachName (node.key.name :: seen) rest

/-- The nodes that a category's registry takes up: of nodes with one name only the first. -/
def sources (t : ContentTree) (category : String) : List (NodeId × Node) :=
  firstOfEachName [] (t.childrenIn ContentTree.root category)

/-- Builds the definition of a node and puts it under the id of its name. -/
def addNode [Definition α] (t : ContentTree) (b : Build α) (source : NodeId × Node) :
    Except ContentError (Build α) :=
  match b.table.lastIdOf? source.2.key.name with
  | none => .ok b
  | some id => do
    return b.place id source.2.key.name (← Definition.ofNode t source.1 source.2)

end Build

namespace Registry

variable {α : Type}

/-! ### Making -/

/-- A registry that holds nothing yet. -/
def new [Definition α] (category : String) (policy : SlotPolicy) : Registry α :=
  ⟨category, policy, Build.bare IdTable.empty, Entry.fallback α, none, false, false⟩

/-- Gives the registry the ids of an earlier run. -/
def withIds (r : Registry α) (table : IdTable) : Registry α :=
  { r with contents := { r.contents with table } }

/-- Gives the registry another slot policy. -/
def withPolicy (r : Registry α) (policy : SlotPolicy) : Registry α := { r with policy }

/-! ### Reading -/

/-- The entry under an id, if there is one. -/
def byId? (r : Registry α) (id : Nat) : Option (Entry α) := r.contents.entries[id]?.join

/-- The entry under an id, or the fallback when the id is negative, out of range or vacant. -/
def get (r : Registry α) (id : Int) : Entry α :=
  if id < 0 then r.fallback else (r.byId? id.toNat).getD r.fallback

/-- The id of a name. -/
def idOf? (r : Registry α) (name : String) : Option Nat := r.contents.ids.lookup name

/-- The entry of a name, or the fallback. -/
def getNamed (r : Registry α) (name : String) : Entry α :=
  ((r.idOf? name).bind r.byId?).getD r.fallback

/-- Whether there is an entry of a name. -/
def contains (r : Registry α) (name : String) : Bool := (r.idOf? name).isSome

/-- The entries in id order. -/
def all (r : Registry α) : List (Entry α) := r.contents.entries.filterMap id

/-- The number of entries. -/
def size (r : Registry α) : Nat := r.contents.ids.length

/-- The number of ids of the committed build, vacant ones included. -/
def idSpace (r : Registry α) : Nat := r.contents.entries.length

/-- The id table, as it is kept between runs. -/
def snapshot (r : Registry α) : IdTable := r.contents.table

/-! ### Rebuilding -/

/-- New contents for a tree, with the report of what changes. -/
def build [Definition α] (r : Registry α) (t : ContentTree) :
    Except ContentError (Build α × RebuildReport) := do
  let sources := Build.sources t r.category
  let names := sources.map fun source ↦ source.2.key.name
  let assignment ← assignIds r.category r.contents.table names r.policy
  let contents ← sources.foldlM (Build.addNode t) (Build.vacated assignment.table)
  return (contents,
    { category := r.category
      kept := assignment.kept
      added := assignment.added
      removed := assignment.removed
      vacant := contents.vacancies
      idSpace := contents.entries.length })

/-- Marks the registry as being rebuilt. Its contents stay visible. -/
def unlock (r : Registry α) : Registry α := { r with locked := false }

/-- Builds new contents without showing them. When that fails, contents staged before stay
staged. -/
def stage [Definition α] (r : Registry α) (t : ContentTree) :
    Registry α × Except ContentError RebuildReport :=
  match r.build t with
  | .ok (contents, report) => ({ r with staged := some contents }, .ok report)
  | .error error => (r, .error error)

/-- Makes staged contents visible, if there are any, and locks the registry. -/
def commit [Definition α] (r : Registry α) : Registry α :=
  match r.staged with
  | some contents =>
    { r with contents, fallback := Entry.fallback α, staged := none, built := true, locked := true }
  | none => { r with locked := r.built }

/-- Drops staged contents and locks the registry. -/
def discard (r : Registry α) : Registry α := { r with staged := none, locked := r.built }

/-- Stages and commits, or leaves the contents as they were. -/
def rebuild [Definition α] (r : Registry α) (t : ContentTree) :
    Registry α × Except ContentError RebuildReport :=
  match r.unlock.stage t with
  | (staged, .ok report) => (staged.commit, .ok report)
  | (same, .error error) => (same.discard, .error error)

end Registry

end ModContent
