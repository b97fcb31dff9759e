import ModContent.Tree.Arena

/-!
# The content tree

A tree keeps its nodes in an arena under handles; the root is the first of them. A node lists its
children, and each child names its parent. Nodes may also be detached: then they have no parent
and no other node lists them, but they stay in the arena until they are removed.

The walks up (`lineage`) and down (`subtree`) are bounded by the number of handles, which no chain
of parents or children can exceed as long as no node is its own ancestor.
-/

namespace ModContent

/-- Nodes by id, linked to their parents and children. -/
structure ContentTree where
  arena : Arena
  deriving DecidableEq, Repr

namespace ContentTree

/-- The handle of the root. -/
def root : NodeId := ⟨0⟩

/-- A tree of a root without name, properties and children. -/
def new : ContentTree := ⟨Arena.empty.push (Node.bare (Key.named ""))⟩

/-! ### Reading -/

/-- The node of a live handle. -/
def node? (t : ContentTree) (id : NodeId) : Option Node := t.arena.get? id

/-- Whether there is a node under an id. -/
def isLive (t : ContentTree) (id : NodeId) : Bool := (t.node? id).isSome

/-- The number of nodes, with the root and all detached ones. -/
def size (t : ContentTree) : Nat := t.arena.size

/-- The parent of a node. The root, a node that is detached and an id without a node have none. -/
def parent? (t : ContentTree) (id : NodeId) : Option NodeId := (t.node? id).bind Node.parent

/-- The handles a node lists as its children. -/
def childIds (t : ContentTree) (id : NodeId) : List NodeId :=
  ((t.node? id).map Node.children).getD []

/-- The children of a node, each with its handle. -/
def children (t : ContentTree) (id : NodeId) : List (NodeId × Node) :=
  (t.childIds id).filterMap fun child ↦ (t.node? child).map fun node ↦ (child, node)

/-- The properties of a node; none for a dead handle. -/
def properties (t : ContentTree) (id : NodeId) : List Property :=
  ((t.node? id).map Node.properties).getD []

/-- Whether the root has neither children nor properties. -/
def isEmpty (t : ContentTree) : Bool :=
  (t.childIds root).isEmpty && (t.properties root).isEmpty

/-- The key of a node; the empty one for a dead handle. -/
def keyText (t : ContentTree) (id : NodeId) : String :=
  ((t.node? id).map fun node ↦ node.key.text).getD ""

/-- A node, its parent, the parent of that, and so on for at most `fuel` further steps. -/
def lineageWithin (t : ContentTree) : Nat → NodeId → List NodeId
  | 0, id => [id]
  | fuel + 1, id =>
    match t.parent? id with
    | some parent => id :: t.lineageWithin fuel parent
    | none => [id]

/-- A node and all its ancestors, the node first. -/
def lineage (t : ContentTree) (id : NodeId) : List NodeId := t.lineageWithin t.arena.capacity id

/-- A node and what lies at most `fuel` levels below it, each node before its children. -/
def subtreeWithin (t : ContentTree) : Nat → NodeId → List NodeId
  | 0, id => [id]
  | fuel + 1, id => id :: (t.childIds id).flatMap (t.subtreeWithin fuel)

/-- A node and all its descendants, each node before its children. -/
def subtree (t : ContentTree) (id : NodeId) : List NodeId := t.subtreeWithin t.arena.capacity id

/-! ### Editing -/

/-- Changes the node of a live handle. -/
def modify (t : ContentTree) (id : NodeId) (f : Node → Node) : ContentTree :=
  ⟨t.arena.modify id f⟩

/-- Adds a node with no parent. -/
def create (t : ContentTree) (key : Key) : NodeId × ContentTree :=
  (t.arena.nextId, ⟨t.arena.push (Node.bare key)⟩)

/-- Takes a node off its parent's list of children. -/
def unlink (t : ContentTree) (id : NodeId) : ContentTree :=
  match t.parent? id with
  | some parent =>
    (t.modify parent fun node ↦ { node with children := node.children.filter (· ≠ id) }).modify id
      fun node ↦ { node with parent := none }
  | none => t

/-- Makes a node the last child of another. -/
def link (t : ContentTree) (parent child : NodeId) : ContentTree :=
  (t.modify parent fun node ↦ { node with children := node.children ++ [child] }).modify child
    fun node ↦ { node with parent := some parent }

/-- Takes a node off its parent; refused if it has none. -/
def detach? (t : ContentTree) (id : NodeId) : Option ContentTree :=
  if (t.parent? id).isSome then some (t.unlink id) else none

/-- Moves a node below another as its last child. Refused if either is dead, if the child is the
root, or if the new parent lies in the child's own subtree. -/
def addChild? (t : ContentTree) (parent child : NodeId) : Option ContentTree :=
  if t.isLive parent && t.isLive child && child ≠ root && !(t.lineage parent).contains child then
    some ((t.unlink child).link parent child)
  else none

/-- Removes a node with its subtree; refused for the root and for dead handles. -/
def remove? (t : ContentTree) (id : NodeId) : Option ContentTree :=
  if id ≠ root && t.isLive id then
    let rest := t.unlink id
    some ⟨(rest.subtree id).foldl Arena.erase rest.arena⟩
  else none

end ContentTree

end ModContent
