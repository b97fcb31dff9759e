import ModContent.Tree.Basic

/-!
# Looking things up by path

A path is followed from a node through children; each key takes the first child that it accepts.
`property?` reads the property at the end of a path below any node, `locate?` names the node and
slot of the property at a path from the root, and `childOrCreate` makes the child it does not
find.
-/

namespace ModContent

namespace ContentTree

/-! ### Following keys -/

/-- The first child that the key accepts, with its node. -/
def childNode? (t : ContentTree) (id : NodeId) (key : Key) : Option (NodeId × Node) :=
  (t.children id).find? fun child ↦ key.accepts child.2.key

/-- The first child that the key accepts. -/
def child? (t : ContentTree) (id : NodeId) (key : Key) : Option NodeId :=
  (t.childNode? id key).map Prod.fst

/-- The children of exactly this category. -/
def childrenIn (t : ContentTree) (id : NodeId) (category : String) : List (NodeId × Node) :=
  (t.children id).filter fun child ↦ child.2.key.category == some category

/-- The node that a list of keys leads to. -/
def follow? (t : ContentTree) (id : NodeId) (keys : List Key) : Option NodeId :=
  keys.foldlM t.child? id

/-- The node at a path. -/
def find? (t : ContentTree) (id : NodeId) (path : String) : Option NodeId := do
  let path ← DottedPath.parse path
  t.follow? id path.keys

/-- The property at a path: the last key names it, the others lead to its node. -/
def property? (t : ContentTree) (id : NodeId) (path : String) : Option Property := do
  let path ← DottedPath.parse path
  let owner ← t.follow? id path.nodes
  let node ← t.node? owner
  node.property? path.last

/-! ### Slots -/

/-- The first handle in a node's list of children whose node the key accepts. -/
def findChild? (t : ContentTree) (parent : NodeId) (key : Key) : Option NodeId :=
  (t.childIds parent).find? fun child ↦ (t.node? child).any fun node ↦ key.accepts node.key

/-- The node and slot of the property at a path from the root. -/
def locate? (t : ContentTree) (path : String) : Option (NodeId × Nat) := do
  let path ← DottedPath.parse path
  let owner ← path.nodes.foldlM t.findChild? root
  let node ← t.node? owner
  let slot ← node.slot? path.last
  return (owner, slot)

/-- The property in a slot of a node. -/
def slot? (t : ContentTree) (place : NodeId × Nat) : Option Property := do
  let node ← t.node? place.1
  node.properties[place.2]?

/-- Gives the property in a slot new values and reads them. -/
def assignSlot (t : ContentTree) (place : NodeId × Nat) (values : List String) : ContentTree :=
  t.modify place.1 fun node ↦ node.modifySlot place.2 fun p ↦ p.assign values

/-! ### Making nodes -/

/-- The first child that the key accepts, or a new last child with this key. Below a dead handle
the new node stays detached. -/
def childOrCreate (t : ContentTree) (parent : NodeId) (key : Key) : NodeId × ContentTree :=
  match t.findChild? parent key with
  | some child => (child, t)
  | none =>
    let (child, made) := t.create key
    (child, (made.addChild? parent child).getD made)

/-- Follows the keys, making each node that is missing. -/
def followOrCreate (t : ContentTree) (id : NodeId) : List Key → NodeId × ContentTree
  | [] => (id, t)
  | key :: keys =>
    let (child, grown) := t.childOrCreate id key
    grown.followOrCreate child keys

/-- The node at a path, made if it is missing; nothing for a malformed path. -/
def pathOrCreate? (t : ContentTree) (id : NodeId) (path : String) : Option (NodeId × ContentTree) :=
  (DottedPath.parse path).map fun path ↦ t.followOrCreate id path.keys

/-! ### Typed reads

A property that is not there reads as the fallback or as no values at all; only a property whose
readings are stale, or a list with an unreadable value, fails. -/

section Typed

variable {α : Type} [Readable α]

/-- The first value at a path, or the fallback if the property or a readable first value is
missing. -/
def valueOr (t : ContentTree) (id : NodeId) (path : String) (fallback : α) :
    Except ValueError α :=
  match t.property? id path with
  | some p => p.firstOr fallback
  | none => .ok fallback

/-- All values at a path, none if there is no property. -/
def allValues (t : ContentTree) (id : NodeId) (path : String) : Except ValueError (List α) :=
  match t.property? id path with
  | some p => p.all
  | none => .ok []

end Typed

/-- The integer at a path, zero if there is none. -/
def int (t : ContentTree) (id : NodeId) (path : String) : Except ValueError Int :=
  t.valueOr id path 0

/-- The double at a path, zero if there is none. -/
def float (t : ContentTree) (id : NodeId) (path : String) : Except ValueError Binary64 :=
  t.valueOr id path Binary64.zero

/-- The colour at a path, black if there is none. -/
def colour (t : ContentTree) (id : NodeId) (path : String) : Except ValueError Colour :=
  t.valueOr id path Colour.black

/-- The first text at a path, or the fallback if there is no property. -/
def stringOr (t : ContentTree) (id : NodeId) (path fallback : String) : String :=
  ((t.property? id path).map Property.firstText).getD fallback

/-- All texts at a path. -/
def strings (t : ContentTree) (id : NodeId) (path : String) : List String :=
  ((t.property? id path).map Property.values).getD []

end ContentTree

end ModContent
