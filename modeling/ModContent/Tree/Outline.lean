import ModContent.Tree.Basic

/-!
# Outlines

The outline of a node is what can be seen of it without handles: its key, its properties and the
outlines of its children. Two trees with equal outlines hold the same content. An outline is
printed in the syntax of definition files (`Outline.block`, `Outline.body`) and listed in preorder.
-/

namespace ModContent

/-- What is below a node, without ids. -/
inductive Outline where
  | node (key : Key) (properties : List Property) (children : List Outline)
  deriving Repr

namespace Outline

/-- The key at the top of an outline. -/
def key : Outline → Key
  | node key _ _ => key

/-- The properties at the top of an outline. -/
def properties : Outline → List Property
  | node _ properties _ => properties

/-- The outlines right below the top, in order. -/
def children : Outline → List Outline
  | node _ _ children => children

/-! ### Printing -/

/-- Four blanks for each level. -/
def indent (depth : Nat) : List Char := List.replicate (4 * depth) ' '

/-- A property as a statement on a line of its own. It always carries its semicolon, so that an
empty value or one that ends in an equals sign does not run into the next line. -/
def statementLine (depth : Nat) (p : Property) : List Char :=
  indent depth ++ p.key.chars ++ " = ".toList ++
    List.intercalate [','] (p.values.map String.toList) ++ [';', '\n']

mutual

/-- A node as a block: header, properties, children, closing brace. -/
def block (depth : Nat) : Outline → List Char
  | node key properties children =>
    indent depth ++ key.chars ++ [' ', '{', '\n'] ++
      properties.flatMap (statementLine (depth + 1)) ++ blocks (depth + 1) children ++
      indent depth ++ ['}', '\n']

/-- The blocks of outlines, one after the other. -/
def blocks (depth : Nat) : List Outline → List Char
  | [] => []
  | outline :: rest => block depth outline ++ blocks depth rest

end

/-- What stands inside a node: its properties, then its children. -/
def body (depth : Nat) (outline : Outline) : List Char :=
  outline.properties.flatMap (statementLine depth) ++ blocks depth outline.children

/-! ### Preorder -/

mutual

/-- A node and its descendants, each before its children, with their depths. -/
def preorder (depth : Nat) : Outline → List (Nat × Outline)
  | node key properties children =>
    (depth, node key properties children) :: preorderAll (depth + 1) children

/-- The outlines below each of several, in preorder and with their depths. -/
def preorderAll (depth : Nat) : List Outline → List (Nat × Outline)
  | [] => []
  | outline :: rest => preorder depth outline ++ preorderAll depth rest

end

mutual

/-- A node and its descendants in preorder, each with the keys that lead to it. -/
def addressed (above : List Key) : Outline → List (List Key × Outline)
  | node key properties children =>
    (above ++ [key], node key properties children) :: addressedAll (above ++ [key]) children

/-- The outlines below each of several, with the keys that lead to them. -/
def addressedAll (above : List Key) : List Outline → List (List Key × Outline)
  | [] => []
  | outline :: rest => addressed above outline ++ addressedAll above rest

end

end Outline

namespace ContentTree

/-- The outline of a node down to `fuel` levels. -/
def outlineWithin (t : ContentTree) : Nat → NodeId → Option Outline
  | 0, _ => none
  | fuel + 1, id =>
    (t.node? id).map fun node ↦
      .node node.key node.properties (node.children.filterMap (t.outlineWithin fuel))

/-- The outline of a node; nothing for a dead handle. -/
def outlineOf? (t : ContentTree) (id : NodeId) : Option Outline :=
  t.outlineWithin t.arena.capacity id

/-- The outline of the whole tree, detached nodes left out. -/
def outline (t : ContentTree) : Outline :=
  (t.outlineOf? root).getD (.node (Key.named "") [] [])

/-- The tree in the syntax of definition files. -/
def dump (t : ContentTree) : String := String.ofList (t.outline.body 0)

/-- One node in the syntax of definition files; the root without a header around it. -/
def dumpOf (t : ContentTree) (id : NodeId) : String :=
  if id = root then t.dump
  else ((t.outlineOf? id).map fun outline ↦ String.ofList (outline.block 0)).getD ""

end ContentTree

end ModContent
