import ModContent.Error

/-!
# Id tables and the assignment of ids

An id is an index into a table of names; a table may have vacant ids. A new build keeps the id of
each name that is still there, frees the ids of the names that are gone, and gives the free ids to
the new names in order, the least first. When free ids run out, the slot policy says whether the
table grows.
-/

namespace ModContent

/-- What happens when new names outnumber the free ids. -/
inductive SlotPolicy where
  | grow
  | failFast
  deriving DecidableEq, Repr

/-- The names by id; a vacant id has none. Ids stand for numbers of 32 bits, so a table is to have
at most `2 ^ 32` slots. -/
structure IdTable where
  slots : List (Option String)
  deriving DecidableEq, Repr

namespace IdTable

/-- The table without ids. -/
def empty : IdTable := ⟨[]⟩

/-- The table that numbers the names in order. -/
def ofNames (names : List String) : IdTable := ⟨names.map some⟩

/-- The number of ids, vacant ones included. -/
def idSpace (t : IdTable) : Nat := t.slots.length

/-- The number of ids with a name. -/
def live (t : IdTable) : Nat := t.slots.countP Option.isSome

/-- Whether there are no ids, not even vacant ones. -/
def isEmpty (t : IdTable) : Bool := t.slots.isEmpty

/-- The name under an id. -/
def nameOf? (t : IdTable) (id : Nat) : Option String := t.slots[id]?.join

/-- The least id of a name. -/
def idOf? (t : IdTable) (name : String) : Option Nat :=
  t.slots.findIdx? fun slot ↦ slot == some name

/-- The ids with a name, in order. -/
def entries (t : IdTable) : List (Nat × String) :=
  t.slots.zipIdx.filterMap fun (slot, id) ↦ slot.map fun name ↦ (id, name)

/-- The greatest id of a name, which is the one that its definition gets. -/
def lastIdOf? (t : IdTable) (name : String) : Option Nat :=
  (t.entries.reverse.find? fun entry ↦ entry.2 == name).map Prod.fst

/-- The vacant ids in order. -/
def vacant (t : IdTable) : List Nat :=
  t.slots.zipIdx.filterMap fun (slot, id) ↦ if slot.isNone then some id else none

/-! ### Assignment -/

/-- The table without the names that are not listed. -/
def release (t : IdTable) (names : List String) : IdTable :=
  ⟨t.slots.map fun slot ↦ slot.filter fun name ↦ decide (name ∈ names)⟩

/-- Gives the vacant ids to the names in order, and ids past the end once those are used up. -/
def fill : List (Option String) → List String → List (Option String)
  | slots, [] => slots
  | [], names => names.map some
  | none :: slots, name :: names => some name :: fill slots names
  | some kept :: slots, names => some kept :: fill slots names

end IdTable

/-- A table for a new build, and how it differs from the one before. -/
structure Assignment where
  table : IdTable
  kept : Nat
  added : Nat
  removed : Nat
  deriving DecidableEq, Repr

/-- Assigns ids to the names of a new build, which come in scan order. The first build from an
empty table may always grow. -/
def assignIds (category : String) (previous : IdTable) (names : List String)
    (policy : SlotPolicy) : Except ContentError Assignment :=
  let released := previous.release names
  let added := names.filter fun name ↦ (previous.idOf? name).isNone
  let free := released.vacant.length
  if free < added.length ∧ ¬ previous.isEmpty ∧ policy = .failFast then
    .error (.slotUnderflow category added.length free)
  else
    .ok
      { table := ⟨IdTable.fill released.slots added⟩
        kept := names.length - added.length
        added := added.length
        removed := previous.live - released.live }

end ModContent
