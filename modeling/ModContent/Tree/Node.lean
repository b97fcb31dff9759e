import ModContent.Property

/-!
# Nodes

A node has a label, a parent, an ordered list of children and an ordered list of properties. The
functions of this module look at and change its properties only. A lookup takes the first property
that its key accepts; a property is put in place of the one with exactly its key.
-/

namespace ModContent

/-- A handle to a node of a tree. -/
structure NodeId where
  index : Nat
  deriving DecidableEq, Repr

/-- A key with properties and links to other nodes. The links are changed by the tree only. -/
structure Node where
  key : Key
  parent : Option NodeId
  children : List NodeId
  properties : List Property
  deriving DecidableEq, Repr

namespace Node

/-- A node without parent, children and properties. -/
def bare (key : Key) : Node := ⟨key, none, [], []⟩

/-! ### Lookup -/

/-- The first property that the key accepts. -/
def property? (n : Node) (key : Key) : Option Property :=
  n.properties.find? fun p ↦ key.accepts p.key

/-- The slot of the first property that the key accepts. -/
def slot? (n : Node) (key : Key) : Option Nat :=
  n.properties.findIdx? fun p ↦ key.accepts p.key

/-- Whether some property matches a key. -/
def hasProperty (n : Node) (key : Key) : Bool := (n.property? key).isSome

/-- The properties of exactly this category. -/
def propertiesIn (n : Node) (category : String) : List Property :=
  n.properties.filter fun p ↦ p.key.category == some category

/-! ### Insertion -/

/-- The slot that a property goes to: that of the property with its key, or the next free one. -/
def slotFor (n : Node) (key : Key) : Nat :=
  n.properties.findIdx fun p ↦ p.key == key

/-- The property that an insertion under this key replaces. -/
def replaced? (n : Node) (key : Key) : Option Property :=
  n.properties[n.slotFor key]?

/-- Puts a property in place of the one with its key, or after all others. -/
def insert (n : Node) (p : Property) : Node :=
  { n with
    properties :=
      if n.slotFor p.key < n.properties.length then n.properties.set (n.slotFor p.key) p
      else n.properties ++ [p] }

/-! ### Edits of the first property accepted -/

/-- Changes the property in a slot. -/
def modifySlot (n : Node) (slot : Nat) (f : Property → Property) : Node :=
  { n with properties := n.properties.modify slot f }

/-- Changes the first property that the key accepts. -/
def modifyProperty (n : Node) (key : Key) (f : Property → Property) : Node :=
  match n.slot? key with
  | some slot => n.modifySlot slot f
  | none => n

/-- Changes the first property that the key accepts, or adds one with this key and these values. -/
def modifyOrAdd (n : Node) (key : Key) (f : Property → Property) (values : List String) : Node :=
  match n.slot? key with
  | some slot => n.modifySlot slot f
  | none => { n with properties := n.properties ++ [Property.of key values] }

/-- Gives a property these values and reads them. -/
def setProperty (n : Node) (key : Key) (values : List String) : Node :=
  n.modifyOrAdd key (fun p ↦ p.assign values) values

/-- Adds a value at the end of a property. The readings of a property that was there are dropped. -/
def appendValue (n : Node) (key : Key) (value : String) : Node :=
  n.modifyOrAdd key (fun p ↦ p.push value) [value]

/-- Removes every copy of a value from a property. -/
def removeValue (n : Node) (key : Key) (value : String) : Node :=
  n.modifyProperty key fun p ↦ p.removeAll value

/-- How many copies of a value `removeValue` takes out. -/
def copies (n : Node) (key : Key) (value : String) : Nat :=
  ((n.property? key).map fun p ↦ p.values.count value).getD 0

/-- Takes out the first property that the key accepts. -/
def removeProperty (n : Node) (key : Key) : Node :=
  match n.slot? key with
  | some slot => { n with properties := n.properties.eraseIdx slot }
  | none => n

end Node

end ModContent
