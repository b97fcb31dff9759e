import ModContent.Dictionary
import ModContent.Registry.Basic

/-!
# Records

A record is a definition that keeps the properties of a node as they are, under the texts of their
keys. It serves where a category has no definition type of its own.
-/

namespace ModContent

/-- The definition that keeps everything: the values of all properties by the text of their keys. -/
structure Record where
  properties : Dictionary (List String)
  /-- The number of child nodes. -/
  children : Nat
  deriving DecidableEq, Repr

namespace Record

/-- The record of a node without properties and children. -/
def empty : Record := ⟨Dictionary.empty, 0⟩

/-- The values of the property with this key text. -/
def get? (r : Record) (key : String) : Option (List String) := r.properties.get? key

/-- The record of a node. -/
def ofNode (t : ContentTree) (id : NodeId) (node : Node) : Record where
  properties := Dictionary.ofList (node.properties.map fun p ↦ (p.key.text, p.values))
  children := (t.children id).length

instance : Definition Record where
  ofNode t id node := .ok (ofNode t id node)
  fallback := empty

end Record

end ModContent
