import Mathlib.Data.List.Find
import ModContent.Proofs.Tree.Tidy

/-!
# Trees that continue others

A tree is continued by another one when all its nodes are still there, at the same places: a node
keeps its key and its parent, its children come first among those it has later, and so do the keys
of its properties (`ContentTree.Continues`). What stands under the keys may differ.

Making children and putting properties in continue a tree, and so does everything that keeps its
shape. As lookups take the first that a key accepts, what was found in a tree is found in those that
continue it (`Continues.findChild?`).

Trees of one shape are led to trees of one shape by the same steps, and a child that is made in both
gets the same handle (`SameShape.childOrCreate`).
-/

namespace ModContent

variable {n n' n'' : Node}

/-- A node with the same key and parent, and with further children and properties behind those that
there were. -/
structure Node.Continues (n n' : Node) : Prop where
  key : n'.key = n.key
  parent : n'.parent = n.parent
  children : n.children <+: n'.children
  keys : n.properties.map Property.key <+: n'.properties.map Property.key

/-- The slot of a key is given by the keys of a node. -/
theorem Node.slotFor_eq_idxOf (n : Node) (key : Key) :
    n.slotFor key = (n.properties.map Property.key).idxOf key := by
  rw [slotFor, List.idxOf, List.findIdx_map]
  rfl

namespace Node.Continues

theorem refl (n : Node) : n.Continues n := ⟨rfl, rfl, List.prefix_refl _, List.prefix_refl _⟩

theorem trans (h : n.Continues n') (h' : n'.Continues n'') : n.Continues n'' :=
  ⟨h'.key.trans h.key, h'.parent.trans h.parent, h.children.trans h'.children,
    h.keys.trans h'.keys⟩

/-- A node of the same shape goes on from the other. -/
theorem of_shape_eq (h : n'.shape = n.shape) : n.Continues n' := by
  obtain ⟨hkey, hparent, hchildren, hkeys⟩ := NodeShape.mk.inj h
  exact ⟨hkey, hparent, hchildren ▸ List.prefix_refl _, hkeys ▸ List.prefix_refl _⟩

/-- A property put in keeps its place, or comes last. -/
theorem insert (n : Node) (p : Property) : n.Continues (n.insert p) := by
  refine ⟨rfl, rfl, List.prefix_refl _, ?_⟩
  rw [keys_insert]
  split
  · exact List.prefix_refl _
  · exact List.prefix_append _ _

/-- A key that is there has the same slot later. -/
theorem slotFor_eq (h : n.Continues n') {key : Key}
    (hkey : key ∈ n.properties.map Property.key) : n'.slotFor key = n.slotFor key := by
  obtain ⟨more, hmore⟩ := h.keys
  rw [slotFor_eq_idxOf, slotFor_eq_idxOf, ← hmore, List.idxOf_append_of_mem hkey]

end Node.Continues

namespace ContentTree

variable {t t' t'' : ContentTree} {id parent child : NodeId} {key : Key}

/-- A tree that holds all nodes of another one, each with what it had before in front. -/
structure Continues (t t' : ContentTree) : Prop where
  kept : ∀ {id n}, t.node? id = some n → ∃ n', t'.node? id = some n' ∧ n.Continues n'

namespace Continues

theorem refl (t : ContentTree) : t.Continues t := ⟨fun {_ n} hn ↦ ⟨n, hn, .refl n⟩⟩

theorem trans (h : t.Continues t') (h' : t'.Continues t'') : t.Continues t'' := by
  refine ⟨fun {id n} hn ↦ ?_⟩
  obtain ⟨n', hn', hfirst⟩ := h.kept hn
  obtain ⟨n'', hn'', hsecond⟩ := h'.kept hn'
  exact ⟨n'', hn'', hfirst.trans hsecond⟩

theorem isLive (h : t.Continues t') (hid : t.isLive id) : t'.isLive id = true := by
  obtain ⟨n, hn⟩ := isLive_iff.1 hid
  obtain ⟨n', hn', -⟩ := h.kept hn
  exact isLive_iff.2 ⟨n', hn'⟩

/-- A node keeps its key. -/
theorem keyText_eq (h : t.Continues t') (hid : t.isLive id) : t'.keyText id = t.keyText id := by
  obtain ⟨n, hn⟩ := isLive_iff.1 hid
  obtain ⟨n', hn', hcontinues⟩ := h.kept hn
  rw [keyText, hn', keyText, hn, Option.map_some, Option.map_some, hcontinues.key]

/-! ### Steps that continue a tree -/

theorem of_sameShape (h : t.SameShape t') : t.Continues t' := by
  refine ⟨fun {id n} hn ↦ ?_⟩
  obtain ⟨n', hn', hshape⟩ := h.exists_node? hn
  exact ⟨n', hn', .of_shape_eq hshape⟩

/-- A change that goes on from a node goes on from the tree. -/
theorem modify (id : NodeId) {f : Node → Node} (hf : ∀ n : Node, n.Continues (f n)) :
    t.Continues (t.modify id f) := by
  refine ⟨fun {j n} hn ↦ ?_⟩
  rw [node?_modify]
  split
  · rw [hn]
    exact ⟨f n, rfl, hf n⟩
  · exact ⟨n, hn, .refl n⟩

theorem sprout (hlive : t.isLive parent) (key : Key) : t.Continues (t.sprout parent key) := by
  refine ⟨fun {id n} hn ↦ ?_⟩
  obtain ⟨m, hm⟩ := isLive_iff.1 hlive
  obtain ⟨n', hn', hkey, hparent, hchildren⟩ := exists_node?_sprout hm key hn
  have hproperties := properties_sprout hm key id
  rw [properties, properties, hn', hn] at hproperties
  have hsame : n'.properties = n.properties := hproperties
  exact ⟨n', hn', hkey, hparent, hchildren, hsame ▸ List.prefix_refl _⟩

theorem childOrCreate (ht : t.Linked) (hlive : t.isLive parent) (key : Key) :
    t.Continues (t.childOrCreate parent key).2 := by
  obtain ⟨n, hn⟩ := isLive_iff.1 hlive
  rcases ht.childOrCreate_cases hn key with ⟨child, node, h, -⟩ | ⟨h, -⟩
  · rw [h]
    exact .refl t
  · rw [h]
    exact .sprout hlive key

/-! ### What is found again -/

/-- The first child that a key accepts stays the first. -/
theorem findChild? (ht : t.Linked) (h : t.Continues t')
    (hfind : t.findChild? parent key = some child) : t'.findChild? parent key = some child := by
  have hmem := List.mem_of_find?_eq_some hfind
  obtain ⟨n, hn⟩ := isLive_iff.1 (isLive_of_mem_childIds hmem)
  obtain ⟨n', hn', hnode⟩ := h.kept hn
  obtain ⟨more, hmore⟩ := hnode.children
  -- the children that there were have the keys that they had
  have hsame : ∀ c ∈ n.children, ((t'.node? c).any fun node ↦ key.accepts node.key) =
      (t.node? c).any fun node ↦ key.accepts node.key := by
    intro c hc
    obtain ⟨m, hm⟩ := isLive_iff.1 (isLive_of_parent? ((ht.mem_children_iff hn).1 hc))
    obtain ⟨m', hm', hchild⟩ := h.kept hm
    rw [hm', hm, Option.any_some, Option.any_some, hchild.key]
  rw [ContentTree.findChild?, childIds_eq hn] at hfind
  rw [ContentTree.findChild?, childIds_eq hn', ← hmore, List.find?_append, List.find?_congr hsame,
    hfind, Option.some_or]

/-- A property is still in its slot, under the same key. -/
theorem slot? (h : t.Continues t') {i : Nat} {p : Property} (hp : t.slot? (id, i) = some p) :
    ∃ p', t'.slot? (id, i) = some p' ∧ p'.key = p.key := by
  obtain ⟨n, hn, hi⟩ := slot?_eq_some_iff.1 hp
  obtain ⟨n', hn', hnode⟩ := h.kept hn
  have hkey : (n.properties.map Property.key)[i]? = some p.key := by
    rw [List.getElem?_map, hi]
    rfl
  obtain ⟨hlt, hget⟩ := List.getElem?_eq_some_iff.1 hkey
  have hlater := List.prefix_iff_getElem?.1 hnode.keys i hlt
  rw [hget, List.getElem?_map, Option.map_eq_some_iff] at hlater
  obtain ⟨p', hp', hsame⟩ := hlater
  exact ⟨p', slot?_eq_some_iff.2 ⟨n', hn', hp'⟩, hsame⟩

end Continues

/-! ### Steps and shapes -/

/-- A property put in place of another keeps the shape. -/
theorem sameShape_insert {n : Node} (hn : t.node? id = some n) {p : Property}
    (hkey : p.key ∈ n.properties.map Property.key) :
    t.SameShape (t.modify id fun node ↦ node.insert p) := by
  refine ⟨capacity_modify .., fun j ↦ ?_⟩
  rw [node?_modify]
  split
  · next hj =>
    have hkeys := Node.keys_insert n p
    rw [if_pos hkey] at hkeys
    rw [hj, hn]
    exact congrArg (fun keys ↦ some (NodeShape.mk n.key n.parent n.children keys)) hkeys
  · rfl

namespace SameShape

theorem isLive (h : t.SameShape t') (hid : t.isLive id) : t'.isLive id = true := by
  obtain ⟨n, hn⟩ := isLive_iff.1 hid
  obtain ⟨n', hn', -⟩ := h.exists_node? hn
  exact isLive_iff.2 ⟨n', hn'⟩

/-- Links do not depend on the values of properties. -/
theorem linked (h : t.SameShape t') (ht : t.Linked) : t'.Linked := by
  refine ht.congr ?_ (fun j ↦ ?_) h.childIds_eq
  · rw [ht.live, h.isLive ht.live]
  · rcases h.node? j with ⟨hn', hn⟩ | ⟨n', n, hn', hn, hshape⟩
    · rw [parent?, hn', parent?, hn]
    · rw [parent?_eq hn', parent?_eq hn]
      exact congrArg NodeShape.parent hshape

/-- Insertions under one key. -/
theorem insert (h : t.SameShape t') (id : NodeId) {p p' : Property} (hkey : p'.key = p.key) :
    (t.modify id fun node ↦ node.insert p).SameShape
      (t'.modify id fun node ↦ node.insert p') := by
  refine ⟨by rw [capacity_modify, capacity_modify, h.capacity], fun j ↦ ?_⟩
  rw [node?_modify, node?_modify]
  split
  · rcases h.node? j with ⟨hn', hn⟩ | ⟨n', n, hn', hn, hshape⟩
    · rw [hn', hn]
      rfl
    · obtain ⟨hlabel, hparent, hchildren, hkeys⟩ := NodeShape.mk.inj hshape
      have hinserted := Node.keys_insert n' p'
      rw [hkeys, hkey, ← Node.keys_insert] at hinserted
      rw [hn', hn]
      show some (NodeShape.mk n'.key n'.parent n'.children _) = _
      rw [hlabel, hparent, hchildren, hinserted]
      rfl
  · exact h.shape j

/-- New children under one key, which get the same handle. -/
theorem sprout (h : t.SameShape t') {n : Node} (hn : t.node? id = some n) (key : Key) :
    (t'.create key).1 = (t.create key).1 ∧ (t.sprout id key).SameShape (t'.sprout id key) := by
  have hnew : (t'.create key).1 = (t.create key).1 := congrArg NodeId.mk h.capacity
  obtain ⟨n', hn', hshape⟩ := h.exists_node? hn
  obtain ⟨hlabel, hparent, hchildren, hkeys⟩ := NodeShape.mk.inj hshape
  refine ⟨hnew, by rw [capacity_sprout, capacity_sprout, h.capacity], fun j ↦ ?_⟩
  rw [node?_sprout hn, node?_sprout hn', hnew]
  split
  · rfl
  · split
    · show some (NodeShape.mk n'.key n'.parent _ (n'.properties.map Property.key)) = _
      rw [hlabel, hparent, hchildren, hkeys]
      rfl
    · exact h.shape j

/-- The same child is found, or one is made under the same handle. -/
theorem childOrCreate (h : t.SameShape t') (ht : t.Linked) (hlive : t.isLive id) (key : Key) :
    (t'.childOrCreate id key).1 = (t.childOrCreate id key).1 ∧
      (t.childOrCreate id key).2.SameShape (t'.childOrCreate id key).2 := by
  obtain ⟨n, hn⟩ := isLive_iff.1 hlive
  obtain ⟨n', hn', -⟩ := h.exists_node? hn
  have hsame : t'.findChild? id key = t.findChild? id key := by rw [h.findChild?_eq]
  cases hfind : t.findChild? id key with
  | some child =>
    rw [ContentTree.childOrCreate, hsame, hfind, ContentTree.childOrCreate, hfind]
    exact ⟨rfl, h⟩
  | none =>
    rw [hfind] at hsame
    rw [(h.linked ht).childOrCreate_eq_sprout hn' hsame, ht.childOrCreate_eq_sprout hn hfind]
    exact h.sprout hn key

end SameShape

end ContentTree

end ModContent
