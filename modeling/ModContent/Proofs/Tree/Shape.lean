import ModContent.Tree.Path

/-!
# The shape of a tree

The **shape** of a tree is everything of it but the values and readings of its properties: which
handles are live, the keys, the links between nodes, and the keys of the properties in slot order.
Filling a slot changes no shape (`sameShape_assignSlot`), and a look-up by path reads nothing but
the shape (`SameShape.locate?_eq`). So a path leads to the same slot before and after any number of
slots are filled, which is what lets references be resolved one at a time.

A slot is a node with an index into its properties. `slot?_assignSlot` says what every slot holds
after one of them is filled.
-/

namespace ModContent

/-- What a node is apart from the values and readings of its properties. -/
structure NodeShape where
  key : Key
  parent : Option NodeId
  children : List NodeId
  propertyKeys : List Key

/-- The shape of a node. -/
def Node.shape (n : Node) : NodeShape :=
  ⟨n.key, n.parent, n.children, n.properties.map Property.key⟩

@[simp] theorem Property.key_assign (p : Property) (values : List String) :
    (p.assign values).key = p.key := rfl

/-- A change of one property that keeps its key keeps the shape of the node. -/
theorem Node.shape_modifySlot (n : Node) (slot : Nat) {f : Property → Property}
    (hf : ∀ p, (f p).key = p.key) : (n.modifySlot slot f).shape = n.shape := by
  simp only [Node.shape, Node.modifySlot, NodeShape.mk.injEq, true_and]
  refine List.ext_getElem? fun i ↦ ?_
  rw [List.getElem?_map, List.getElem?_map, List.getElem?_modify]
  by_cases h : slot = i
  · cases n.properties[i]? <;> simp [h, hf]
  · cases n.properties[i]? <;> simp [h]

/-- The slot of a look-up depends on the shape of the node only. -/
theorem Node.slot?_eq_shape (n : Node) (key : Key) :
    n.slot? key = n.shape.propertyKeys.findIdx? fun k ↦ key.accepts k := by
  simp [Node.slot?, Node.shape, List.findIdx?_map, Function.comp_def]

namespace ContentTree

/-! ### Reading an edited tree -/

theorem node?_modify (t : ContentTree) (id j : NodeId) (f : Node → Node) :
    (t.modify id f).node? j = if j = id then (t.node? j).map f else t.node? j :=
  Arena.get?_modify t.arena id j f

@[simp] theorem node?_modify_self (t : ContentTree) (id : NodeId) (f : Node → Node) :
    (t.modify id f).node? id = (t.node? id).map f := by
  rw [node?_modify, if_pos rfl]

theorem node?_modify_of_ne (t : ContentTree) {id j : NodeId} (f : Node → Node) (h : j ≠ id) :
    (t.modify id f).node? j = t.node? j := by
  rw [node?_modify, if_neg h]

@[simp] theorem capacity_modify (t : ContentTree) (id : NodeId) (f : Node → Node) :
    (t.modify id f).arena.capacity = t.arena.capacity := by
  simp [modify, Arena.modify, Arena.capacity]

theorem slot?_eq_bind (t : ContentTree) (place : NodeId × Nat) :
    t.slot? place = (t.node? place.1).bind fun node ↦ node.properties[place.2]? := rfl

/-- A slot is looked up among the properties at an id. -/
theorem slot?_eq_properties (t : ContentTree) (place : NodeId × Nat) :
    t.slot? place = (t.properties place.1)[place.2]? := by
  rw [slot?_eq_bind, properties]
  cases t.node? place.1 <;> rfl

theorem slot?_eq_some_iff {t : ContentTree} {id : NodeId} {i : Nat} {p : Property} :
    t.slot? (id, i) = some p ↔ ∃ n, t.node? id = some n ∧ n.properties[i]? = some p := by
  rw [slot?_eq_bind, Option.bind_eq_some_iff]

/-- A path that leads somewhere leads to a property. -/
theorem exists_slot?_of_locate? {t : ContentTree} {path : String} {place : NodeId × Nat}
    (h : t.locate? path = some place) : ∃ property, t.slot? place = some property := by
  simp only [locate?, Option.bind_eq_bind, Option.bind_eq_some_iff] at h
  obtain ⟨path, -, owner, -, node, hnode, slot, hslot, heq⟩ := h
  obtain rfl := Option.some.inj heq
  rw [Node.slot?, List.findIdx?_eq_some_iff_getElem] at hslot
  obtain ⟨hlt, -⟩ := hslot
  exact ⟨node.properties[slot], by simp [slot?_eq_bind, hnode, hlt]⟩

/-- Assigning to a slot changes one property of one node. -/
theorem node?_assignSlot (t : ContentTree) (place : NodeId × Nat) (values : List String)
    (j : NodeId) :
    (t.assignSlot place values).node? j =
      if j = place.1 then
        (t.node? j).map fun node ↦ node.modifySlot place.2 fun p ↦ p.assign values
      else t.node? j :=
  node?_modify t place.1 j _

/-- Filling a slot gives its property the values and leaves every other slot as it was. -/
theorem slot?_assignSlot (t : ContentTree) (place other : NodeId × Nat) (values : List String) :
    (t.assignSlot place values).slot? other =
      if other = place then (t.slot? other).map fun p ↦ p.assign values else t.slot? other := by
  rcases place with ⟨id, i⟩
  rcases other with ⟨j, k⟩
  rw [slot?_eq_bind, slot?_eq_bind, node?_assignSlot]
  by_cases hj : j = id
  · subst hj
    cases t.node? j with
    | none => simp
    | some node =>
      by_cases hk : i = k
      · subst hk
        simp [Node.modifySlot]
      · simp [Node.modifySlot, hk, Ne.symm hk]
  · simp [hj]

/-! ### Equal shapes -/

/-- Two trees that differ in the values and readings of properties at most. -/
structure SameShape (t t' : ContentTree) : Prop where
  capacity : t'.arena.capacity = t.arena.capacity
  shape : ∀ id, (t'.node? id).map Node.shape = (t.node? id).map Node.shape

namespace SameShape

variable {t t' t'' : ContentTree}

theorem refl (t : ContentTree) : SameShape t t := ⟨rfl, fun _ ↦ rfl⟩

theorem symm (h : SameShape t t') : SameShape t' t :=
  ⟨h.capacity.symm, fun id ↦ (h.shape id).symm⟩

theorem trans (h : SameShape t t') (h' : SameShape t' t'') : SameShape t t'' :=
  ⟨h'.capacity.trans h.capacity, fun id ↦ (h'.shape id).trans (h.shape id)⟩

/-- At every id both trees have a node of one shape, or neither has one. -/
theorem node? (h : SameShape t t') (id : NodeId) :
    (t'.node? id = none ∧ t.node? id = none) ∨
      ∃ node' node, t'.node? id = some node' ∧ t.node? id = some node ∧
        node'.shape = node.shape := by
  have hid := h.shape id
  cases h' : t'.node? id <;> cases ht : t.node? id <;> rw [h', ht] at hid
  · exact .inl ⟨rfl, rfl⟩
  · simp at hid
  · simp at hid
  · exact .inr ⟨_, _, rfl, rfl, by simpa using hid⟩

/-- A node of one tree is one of the other, with the same shape. -/
theorem exists_node? (h : SameShape t t') {id : NodeId} {n : Node} (hn : t.node? id = some n) :
    ∃ n', t'.node? id = some n' ∧ n'.shape = n.shape := by
  have hshape := h.shape id
  rw [hn] at hshape
  exact Option.map_eq_some_iff.1 hshape

theorem childIds_eq (h : SameShape t t') (id : NodeId) : t'.childIds id = t.childIds id := by
  rcases h.node? id with ⟨h', ht⟩ | ⟨node', node, h', ht, heq⟩
  · simp [childIds, h', ht]
  · have hchildren : node'.children = node.children := congrArg NodeShape.children heq
    simp [childIds, h', ht, hchildren]

theorem findChild?_eq (h : SameShape t t') : t'.findChild? = t.findChild? := by
  funext parent key
  rw [findChild?, findChild?, h.childIds_eq]
  congr 1
  funext child
  rcases h.node? child with ⟨h', ht⟩ | ⟨node', node, h', ht, heq⟩
  · rw [h', ht]
  · have hkey : node'.key = node.key := congrArg NodeShape.key heq
    simp [h', ht, hkey]

/-- A path leads to the same slot in trees of one shape. -/
theorem locate?_eq (h : SameShape t t') (path : String) : t'.locate? path = t.locate? path := by
  unfold locate?
  rw [h.findChild?_eq]
  refine congrArg _ (funext fun path ↦ congrArg _ (funext fun owner ↦ ?_))
  rcases h.node? owner with ⟨h', ht⟩ | ⟨node', node, h', ht, heq⟩
  · rw [h', ht]
  · rw [h', ht]
    show (node'.slot? path.last >>= _) = (node.slot? path.last >>= _)
    rw [Node.slot?_eq_shape, Node.slot?_eq_shape, heq]

/-- The number of slots of a node belongs to its shape. -/
theorem slot?_isSome (h : SameShape t t') (place : NodeId × Nat) :
    (t'.slot? place).isSome = (t.slot? place).isSome := by
  rw [slot?_eq_bind, slot?_eq_bind]
  rcases h.node? place.1 with ⟨h', ht⟩ | ⟨node', node, h', ht, heq⟩
  · rw [h', ht]
  · have hkeys : node'.properties.map Property.key = node.properties.map Property.key :=
      congrArg NodeShape.propertyKeys heq
    have hlength : node'.properties.length = node.properties.length := by
      simpa using congrArg List.length hkeys
    rw [h', ht]
    show (node'.properties[place.2]?).isSome = (node.properties[place.2]?).isSome
    rw [Bool.eq_iff_iff, isSome_getElem?, isSome_getElem?, hlength]

end SameShape

/-- Filling a slot keeps the shape of the tree. -/
theorem sameShape_assignSlot (t : ContentTree) (place : NodeId × Nat) (values : List String) :
    SameShape t (t.assignSlot place values) := by
  refine ⟨capacity_modify t _ _, fun id ↦ ?_⟩
  rw [node?_assignSlot]
  by_cases h : id = place.1
  · cases t.node? id with
    | none => simp
    | some node =>
      rw [if_pos h, Option.map_some, Option.map_some, Option.map_some]
      exact congrArg some (node.shape_modifySlot place.2 fun p ↦ p.key_assign values)
  · simp [h]

/-- A tree is given by the number of its handles and by the node of each handle. -/
theorem eq_of_node?_eq {t t' : ContentTree} (hcapacity : t'.arena.capacity = t.arena.capacity)
    (hnode : ∀ id, t'.node? id = t.node? id) : t' = t := by
  rcases t with ⟨⟨slots⟩⟩
  rcases t' with ⟨⟨slots'⟩⟩
  have hsize : slots'.size = slots.size := hcapacity
  suffices slots' = slots by rw [this]
  refine Array.ext hsize fun i hi' hi ↦ ?_
  have hi_node : (slots'[i]?).join = (slots[i]?).join := hnode ⟨i⟩
  simpa [Array.getElem?_eq_getElem hi, Array.getElem?_eq_getElem hi'] using hi_node

/-- Trees of one shape with the same property in each slot are equal. -/
theorem SameShape.eq_of_slot?_eq {t t' : ContentTree} (h : SameShape t t')
    (hslots : ∀ place, t'.slot? place = t.slot? place) : t' = t := by
  refine eq_of_node?_eq h.capacity fun id ↦ ?_
  rcases h.node? id with ⟨h', ht⟩ | ⟨node', node, h', ht, heq⟩
  · rw [h', ht]
  · have hproperties : node'.properties = node.properties := by
      refine List.ext_getElem? fun i ↦ ?_
      simpa [slot?_eq_bind, h', ht] using hslots (id, i)
    rcases node' with ⟨key', parent', children', properties'⟩
    rcases node with ⟨key, parent, children, properties⟩
    simp only [Node.shape, NodeShape.mk.injEq] at heq
    obtain ⟨rfl, rfl, rfl, -⟩ := heq
    subst hproperties
    rw [h', ht]

end ContentTree

end ModContent
