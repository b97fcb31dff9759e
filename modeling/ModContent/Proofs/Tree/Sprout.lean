import Mathlib.Data.List.Nodup
import ModContent.Proofs.Tree.Shape

/-!
# Making nodes

What every node of a tree is after a node was made below another one (`sprout`), and which child a
key finds. The **stem** of a node is the node without its properties; trees that differ in
properties only have the same stems (`SameStems`).
-/

namespace ModContent

/-- A node without its properties. -/
def Node.stem (n : Node) : Node := { n with properties := [] }

/-- Nodes have one stem if they have the same key and links. -/
theorem Node.stem_eq_iff {n m : Node} :
    n.stem = m.stem ↔ n.key = m.key ∧ n.parent = m.parent ∧ n.children = m.children := by
  simp [Node.stem]

@[simp] theorem Node.stem_insert (n : Node) (p : Property) : (n.insert p).stem = n.stem := rfl

/-- The stem belongs to the shape. -/
theorem Node.stem_eq_of_shape_eq {n m : Node} (h : n.shape = m.shape) : n.stem = m.stem := by
  simp only [Node.shape, NodeShape.mk.injEq] at h
  exact Node.stem_eq_iff.2 ⟨h.1, h.2.1, h.2.2.1⟩

namespace ContentTree

variable {t t' : ContentTree} {id parent child : NodeId} {key : Key} {n : Node}

/-! ### Live nodes -/

theorem index_lt_of_node? (h : t.node? id = some n) : id.index < t.arena.capacity := by
  by_contra hle
  have hnone : t.arena.slots[id.index]? = none := Array.getElem?_eq_none (Nat.le_of_not_lt hle)
  rw [node?, Arena.get?, hnone] at h
  cases h

theorem isLive_iff : t.isLive id = true ↔ ∃ n, t.node? id = some n := Option.isSome_iff_exists

@[simp] theorem isLive_modify (t : ContentTree) (id j : NodeId) (f : Node → Node) :
    (t.modify id f).isLive j = t.isLive j := by
  rw [isLive, isLive, node?_modify]
  split
  · rw [Option.isSome_map]
  · rfl

/-! ### Making a node -/

/-- A node that is created is bare and unlinked, and the others stay. -/
theorem node?_create (t : ContentTree) (key : Key) (j : NodeId) :
    (t.create key).2.node? j = if j = (t.create key).1 then some (Node.bare key) else t.node? j :=
  Arena.get?_push t.arena (Node.bare key) j

/-- The handle of a new node is none of those in use. -/
theorem ne_create_of_node? (h : t.node? id = some n) (key : Key) : id ≠ (t.create key).1 := by
  rintro rfl
  exact absurd (index_lt_of_node? h) (Nat.lt_irrefl _)

/-- A node is created under an id that was not in use. -/
theorem node?_create_eq_none (t : ContentTree) (key : Key) : t.node? (t.create key).1 = none := by
  by_contra hlive
  obtain ⟨n, hn⟩ := Option.ne_none_iff_exists'.1 hlive
  exact ne_create_of_node? hn key rfl

theorem node?_create_of_node? (h : t.node? id = some n) : (t.create key).2.node? id = some n := by
  rw [node?_create, if_neg (ne_create_of_node? h key)]
  exact h

/-- A new node, listed as the last child of another. -/
def sprout (t : ContentTree) (parent : NodeId) (key : Key) : ContentTree :=
  (t.create key).2.link parent (t.create key).1

/-- A new child is bare and has its parent. -/
theorem node?_sprout (hlive : t.node? parent = some n) (key : Key) (j : NodeId) :
    (t.sprout parent key).node? j =
      if j = (t.create key).1 then some { Node.bare key with parent := some parent }
      else if j = parent then some { n with children := n.children ++ [(t.create key).1] }
      else t.node? j := by
  have hne : (t.create key).1 ≠ parent := (ne_create_of_node? hlive key).symm
  rw [sprout, link, node?_modify]
  by_cases hj : j = (t.create key).1
  · subst hj
    rw [if_pos rfl, if_pos rfl, node?_modify_of_ne _ _ hne, node?_create, if_pos rfl]
    rfl
  · rw [if_neg hj, if_neg hj]
    by_cases hparent : j = parent
    · subst hparent
      rw [if_pos rfl, node?_modify_self, node?_create_of_node? hlive]
      rfl
    · rw [if_neg hparent, node?_modify_of_ne _ _ hparent, node?_create, if_neg hj]

/-- The parent has it behind the other children. -/
theorem node?_sprout_parent (hlive : t.node? parent = some n) (key : Key) :
    (t.sprout parent key).node? parent =
      some { n with children := n.children ++ [(t.create key).1] } := by
  rw [node?_sprout hlive, if_neg (ne_create_of_node? hlive key), if_pos rfl]

@[simp] theorem capacity_sprout (t : ContentTree) (parent : NodeId) (key : Key) :
    (t.sprout parent key).arena.capacity = t.arena.capacity + 1 := by
  simp [sprout, link, create, Arena.capacity, modify, Arena.modify, Arena.push]

/-! ### A tree with one node more -/

/-- The nodes after a child was made: the child, its parent, and those that were there. -/
theorem node?_sprout_cases (hlive : t.node? parent = some n) {key : Key} {j : NodeId} {m : Node}
    (h : (t.sprout parent key).node? j = some m) :
    (j = (t.create key).1 ∧ m = { Node.bare key with parent := some parent }) ∨
      (j = parent ∧ m = { n with children := n.children ++ [(t.create key).1] }) ∨
      (j ≠ parent ∧ t.node? j = some m) := by
  rw [node?_sprout hlive] at h
  split at h
  · next heq => exact .inl ⟨heq, (Option.some.inj h).symm⟩
  · split at h
    · next heq => exact .inr (.inl ⟨heq, (Option.some.inj h).symm⟩)
    · next hne => exact .inr (.inr ⟨hne, h⟩)

/-- A node that was there keeps its key and its parent, and may list further children. -/
theorem exists_node?_sprout (hlive : t.node? parent = some n) (key : Key) {j : NodeId} {m : Node}
    (hm : t.node? j = some m) :
    ∃ m', (t.sprout parent key).node? j = some m' ∧ m'.key = m.key ∧ m'.parent = m.parent ∧
      m.children <+: m'.children := by
  rw [node?_sprout hlive, if_neg (ne_create_of_node? hm key)]
  by_cases hj : j = parent
  · subst hj
    obtain rfl := Option.some.inj (hlive.symm.trans hm)
    rw [if_pos rfl]
    exact ⟨_, rfl, rfl, rfl, List.prefix_append _ _⟩
  · rw [if_neg hj]
    exact ⟨m, hm, rfl, rfl, List.prefix_refl _⟩

/-- A new node has no properties, and the others keep theirs. -/
theorem properties_sprout (hlive : t.node? parent = some n) (key : Key) (id : NodeId) :
    (t.sprout parent key).properties id = t.properties id := by
  rw [properties, node?_sprout hlive, properties]
  split
  · next hnew =>
    rw [hnew, node?_create_eq_none]
    rfl
  · split
    · next hparent =>
      rw [hparent, hlive]
      rfl
    · rfl

/-! ### Finding a child -/

/-- A child that is found is one of the children, and the key accepts it. -/
theorem findChild?_eq_some (h : t.findChild? id key = some child) :
    child ∈ t.childIds id ∧ ∃ node, t.node? child = some node ∧ key.accepts node.key = true := by
  refine ⟨List.mem_of_find?_eq_some h, ?_⟩
  have haccepts := List.find?_some h
  cases hnode : t.node? child with
  | none => simp [hnode] at haccepts
  | some node => exact ⟨node, rfl, by simpa [hnode] using haccepts⟩

/-- None is found if the key accepts none of them. -/
theorem findChild?_eq_none_iff : t.findChild? id key = none ↔
    ∀ child ∈ t.childIds id, ∀ node, t.node? child = some node → key.accepts node.key = false := by
  rw [findChild?, List.find?_eq_none]
  refine forall₂_congr fun child _ ↦ ?_
  cases t.node? child <;> simp

theorem childIds_eq (h : t.node? id = some n) : t.childIds id = n.children := by
  rw [childIds, h]
  rfl

/-! ### Stems -/

/-- Two trees that differ in properties at most. -/
structure SameStems (t t' : ContentTree) : Prop where
  capacity : t'.arena.capacity = t.arena.capacity
  stem : ∀ id, (t'.node? id).map Node.stem = (t.node? id).map Node.stem

namespace SameStems

theorem symm (h : SameStems t t') : SameStems t' t :=
  ⟨h.capacity.symm, fun id ↦ (h.stem id).symm⟩

/-- A node of one tree is one of the other, with the same key, parent and children. -/
theorem exists_node? (h : SameStems t t') (hn : t.node? id = some n) :
    ∃ n', t'.node? id = some n' ∧ n'.key = n.key ∧ n'.parent = n.parent ∧
      n'.children = n.children := by
  have hstem := h.stem id
  rw [hn] at hstem
  obtain ⟨n', hn', heq⟩ := Option.map_eq_some_iff.1 hstem
  exact ⟨n', hn', Node.stem_eq_iff.1 heq⟩

/-- A change that keeps stems keeps those of all nodes. -/
theorem modify (t : ContentTree) (id : NodeId) {f : Node → Node} (hf : ∀ n, (f n).stem = n.stem) :
    SameStems t (t.modify id f) := by
  refine ⟨capacity_modify t id f, fun j ↦ ?_⟩
  rw [node?_modify]
  split
  · rw [Option.map_map]
    exact congrArg (Option.map · (t.node? j)) (funext hf)
  · rfl

theorem of_sameShape (h : t.SameShape t') : SameStems t t' := by
  refine ⟨h.capacity, fun id ↦ ?_⟩
  rcases h.node? id with ⟨hn', hn⟩ | ⟨n', n, hn', hn, heq⟩
  · rw [hn', hn]
  · rw [hn', hn, Option.map_some, Option.map_some, Node.stem_eq_of_shape_eq heq]

end SameStems

/-! ### A new tree -/

theorem node?_new : ContentTree.new.node? id =
    if id = root then some (Node.bare (Key.named "")) else none := by
  rw [new, node?, Arena.get?_push, Arena.get?_empty]
  rfl

/-- The root is the only node of a new tree. -/
theorem eq_of_node?_new (hn : ContentTree.new.node? id = some n) :
    id = root ∧ n = Node.bare (Key.named "") := by
  rw [node?_new] at hn
  split at hn
  · next heq => exact ⟨heq, (Option.some.inj hn).symm⟩
  · cases hn

end ContentTree

end ModContent
