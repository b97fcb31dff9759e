import Mathlib.Data.List.Find
import ModContent.Proofs.Tree.Outline
import ModContent.Proofs.Tree.Within

/-!
# Looking things up in outlines

A path can be followed in the outline of a tree as in the tree itself, since both take the first
child and the first property that a key accepts. So what is found at a path depends on the outline
only (`Linked.property?_root`, `Linked.locate?_bind_slot?`): handles do not matter.

When two trees of one shape differ in their properties, so do their outlines
(`Linked.outline_eq_mapProperties`), and the properties in the slots of a grown tree are those of
its outline (`Grown.has_outline_iff`).
-/

namespace ModContent

namespace Outline

variable {o child : Outline} {p : Property} {f : Property → Property}

/-! ### Lookups -/

/-- The first child that the key accepts. -/
def child? (o : Outline) (key : Key) : Option Outline :=
  o.children.find? fun child ↦ key.accepts child.key

/-- The outline that a list of keys leads to. -/
def follow? (o : Outline) (keys : List Key) : Option Outline := keys.foldlM child? o

/-- The first of the properties that the key accepts. -/
def named? (o : Outline) (key : Key) : Option Property :=
  o.properties.find? fun p ↦ key.accepts p.key

/-- The property at a path: the last key names it, the others lead to its outline. -/
def property? (o : Outline) (path : String) : Option Property := do
  let path ← DottedPath.parse path
  let owner ← o.follow? path.nodes
  owner.named? path.last

/-! ### All properties -/

/-- The property stands in the outline, or in one below it. -/
inductive Has : Outline → Property → Prop
  | here {o : Outline} {p : Property} (mem : p ∈ o.properties) : Has o p
  | inside {o child : Outline} {p : Property} (mem : child ∈ o.children) (has : Has child p) :
      Has o p

mutual

/-- Changes every property. -/
def mapProperties (f : Property → Property) : Outline → Outline
  | node key properties children => node key (properties.map f) (mapPropertiesAll f children)

def mapPropertiesAll (f : Property → Property) : List Outline → List Outline
  | [] => []
  | outline :: rest => mapProperties f outline :: mapPropertiesAll f rest

end

theorem mapPropertiesAll_eq (f : Property → Property) (children : List Outline) :
    mapPropertiesAll f children = children.map (mapProperties f) := by
  induction children with
  | nil => rfl
  | cons child rest ih => rw [mapPropertiesAll, ih, List.map_cons]

/-- A change of all properties, taken apart at the top. -/
theorem mapProperties_eq (f : Property → Property) (o : Outline) : o.mapProperties f =
    node o.key (o.properties.map f) (o.children.map (mapProperties f)) := by
  obtain ⟨key, properties, children⟩ := o
  rw [mapProperties, mapPropertiesAll_eq]
  rfl

@[simp] theorem key_mapProperties (f : Property → Property) (o : Outline) :
    (o.mapProperties f).key = o.key := by
  rw [mapProperties_eq]
  rfl

end Outline

namespace ContentTree

variable {t t' : ContentTree} {id : NodeId} {keys : List Key} {n : Node} {p : Property}

/-! ### Lookups in the tree -/

/-- The child seen is the one found, with its node. -/
theorem childNode?_eq (t : ContentTree) (id : NodeId) (key : Key) :
    t.childNode? id key =
      (t.findChild? id key).bind fun c ↦ (t.node? c).map fun node ↦ (c, node) := by
  have hnode : (fun c ↦ ((t.node? c).map fun node ↦ (c, node)).any fun child ↦
      key.accepts child.2.key) = fun c ↦ (t.node? c).any fun node ↦ key.accepts node.key := by
    funext c
    rw [Option.any_map]
  rw [childNode?, children, List.find?_filterMap, hnode, findChild?]

theorem child?_eq_findChild? (t : ContentTree) (id : NodeId) (key : Key) :
    t.child? id key = t.findChild? id key := by
  rw [child?, childNode?_eq]
  cases hfind : t.findChild? id key with
  | none => rfl
  | some c =>
    obtain ⟨-, node, hc, -⟩ := findChild?_eq_some hfind
    show Option.map Prod.fst ((t.node? c).map fun node ↦ (c, node)) = some c
    rw [hc]
    rfl

theorem follow?_eq (t : ContentTree) (id : NodeId) (keys : List Key) :
    t.follow? id keys = keys.foldlM t.findChild? id := by
  rw [follow?, funext₂ t.child?_eq_findChild?]

/-- The last key is followed from where the others lead. -/
theorem follow?_concat (t : ContentTree) (id : NodeId) (keys : List Key) (key : Key) :
    t.follow? id (keys ++ [key]) = (t.follow? id keys).bind fun owner ↦ t.child? owner key := by
  simp only [follow?, List.foldlM_append, List.foldlM_cons, List.foldlM_nil]
  exact congrArg _ (funext fun _ ↦ Option.bind_fun_some _)

/-- A node that keys lead to is live, unless it is the start. -/
theorem exists_node?_of_follow? {id owner : NodeId} (h : t.follow? id keys = some owner)
    (hne : owner ≠ id) : ∃ node, t.node? owner = some node := by
  rcases List.eq_nil_or_concat' keys with rfl | ⟨front, key, rfl⟩
  · exact absurd (Option.some.inj h).symm hne
  · rw [follow?_concat, Option.bind_eq_some_iff] at h
    obtain ⟨parent, -, hchild⟩ := h
    rw [child?_eq_findChild?] at hchild
    obtain ⟨-, node, hnode, -⟩ := findChild?_eq_some hchild
    exact ⟨node, hnode⟩

namespace Linked

/-- The child that a key leads to, seen in the outlines. -/
theorem findChild?_bind_outlineOf? (ht : t.Linked) (id : NodeId) (key : Key) :
    (t.findChild? id key).bind t.outlineOf? = (t.outlineOf? id).bind fun o ↦ o.child? key := by
  rw [ht.findChild?_eq, ht.outlineOf?_eq, Option.bind_map, childIds]
  cases t.node? id with
  | none => rfl
  | some n => exact List.find?_filterMap.symm

/-- Keys lead to the outline that they lead to in the outline. -/
theorem follow_bind_outlineOf? (ht : t.Linked) (keys : List Key) (id : NodeId) :
    (keys.foldlM t.findChild? id).bind t.outlineOf? =
      (t.outlineOf? id).bind fun o ↦ o.follow? keys := by
  induction keys generalizing id with
  | nil => exact (Option.bind_fun_some _).symm
  | cons key keys ih =>
    have hcons : (fun o : Outline ↦ o.follow? (key :: keys)) =
        fun o ↦ (o.child? key).bind fun child ↦ child.follow? keys :=
      funext fun o ↦ List.foldlM_cons
    rw [List.foldlM_cons, hcons, ← Option.bind_assoc, ← ht.findChild?_bind_outlineOf?]
    show ((t.findChild? id key).bind _).bind _ = _
    rw [Option.bind_assoc, Option.bind_assoc]
    exact congrArg _ (funext ih)

/-- A lookup among the properties of a node, seen in its outline. -/
theorem outlineOf?_bind_named? (ht : t.Linked) (id : NodeId) (key : Key) :
    (t.outlineOf? id).bind (fun o ↦ o.named? key) =
      (t.node? id).bind fun node ↦ node.property? key := by
  rw [ht.outlineOf?_eq, Option.bind_map]
  rfl

/-- What is found from the root is found in the outline. -/
theorem follow_root_bind (ht : t.Linked) (path : DottedPath) :
    (path.nodes.foldlM t.findChild? root).bind (fun owner ↦
        (t.node? owner).bind fun node ↦ node.property? path.last) =
      (t.outline.follow? path.nodes).bind fun owner ↦ owner.named? path.last := by
  have hfollow := ht.follow_bind_outlineOf? path.nodes root
  rw [ht.outlineOf?_root, Option.bind_some] at hfollow
  rw [← hfollow, Option.bind_assoc]
  exact congrArg _ (funext fun owner ↦ (ht.outlineOf?_bind_named? owner path.last).symm)

/-- **A property found by its path** is found in the outline. -/
theorem property?_root (ht : t.Linked) (path : String) :
    t.property? root path = t.outline.property? path := by
  rw [ContentTree.property?, Outline.property?]
  refine congrArg _ (funext fun path ↦ ?_)
  rw [follow?_eq]
  exact ht.follow_root_bind path

/-- The slot at a path holds the property that the outline has at that path. -/
theorem locate?_bind_slot? (ht : t.Linked) (path : String) :
    (t.locate? path).bind t.slot? = t.outline.property? path := by
  rw [locate?, Outline.property?]
  show ((DottedPath.parse path).bind _).bind _ = (DottedPath.parse path).bind _
  rw [Option.bind_assoc]
  refine congrArg _ (funext fun path ↦ ?_)
  refine Eq.trans ?_ (ht.follow_root_bind path)
  show ((path.nodes.foldlM t.findChild? root).bind _).bind _ = _
  rw [Option.bind_assoc]
  refine congrArg _ (funext fun owner ↦ ?_)
  cases hnode : t.node? owner with
  | none => rfl
  | some node =>
    show ((node.slot? path.last).bind fun slot ↦ some (owner, slot)).bind t.slot? =
      node.property? path.last
    rw [Option.bind_assoc, Node.property?, List.find?_eq_bind_findIdx?_getElem?]
    refine congrArg _ (funext fun slot ↦ ?_)
    rw [Option.bind_some, slot?_eq_bind, hnode]
    rfl

/-! ### Trees of one shape -/

/-- When the properties of a tree are changed, those of its outlines are. -/
theorem outlineOf?_mapProperties (ht : t.Linked) (ht' : t'.Linked) (hshape : t.SameShape t')
    {f : Property → Property} (hslots : ∀ place, t'.slot? place = (t.slot? place).map f)
    (id : NodeId) : t'.outlineOf? id = (t.outlineOf? id).map (Outline.mapProperties f) := by
  induction id using ht.induction with
  | step id ih =>
    rw [ht'.outlineOf?_eq, ht.outlineOf?_eq]
    rcases hshape.node? id with ⟨hn', hn⟩ | ⟨n', n, hn', hn, heq⟩
    · rw [hn', hn]
      rfl
    · obtain ⟨hkey, -, hchildren, -⟩ := NodeShape.mk.inj heq
      have hproperties : n'.properties = n.properties.map f := by
        refine List.ext_getElem? fun i ↦ ?_
        have hslot := hslots (id, i)
        rwa [slot?_eq_bind, hn', slot?_eq_bind, hn, Option.bind_some, Option.bind_some,
          ← List.getElem?_map] at hslot
      have hbelow : n'.children.filterMap t'.outlineOf? =
          (n.children.filterMap t.outlineOf?).map (Outline.mapProperties f) := by
        rw [hchildren, List.map_filterMap]
        exact List.filterMap_congr fun c hc ↦ ih c ((ht.mem_children_iff hn).1 hc)
      rw [hn', hn, Option.map_some, Option.map_some, Option.map_some, hkey, hproperties, hbelow,
        Outline.mapProperties_eq]
      rfl

/-- A change of every slot is a change of the outline. -/
theorem outline_eq_mapProperties (ht : t.Linked) (ht' : t'.Linked) (hshape : t.SameShape t')
    {f : Property → Property} (hslots : ∀ place, t'.slot? place = (t.slot? place).map f) :
    t'.outline = t.outline.mapProperties f := by
  have hroot := ht.outlineOf?_mapProperties ht' hshape hslots root
  rw [ht'.outlineOf?_root, ht.outlineOf?_root] at hroot
  exact Option.some.inj hroot

/-! ### All properties of a tree -/

/-- A property of an outline stands in a slot. -/
theorem exists_slot?_of_has (ht : t.Linked) {o : Outline} (h : o.Has p) :
    ∀ {id}, t.outlineOf? id = some o → ∃ place, t.slot? place = some p := by
  have hnode : ∀ {id o}, t.outlineOf? id = some o → ∃ n, t.node? id = some n ∧
      o = .node n.key n.properties (n.children.filterMap t.outlineOf?) := by
    intro id o ho
    rw [ht.outlineOf?_eq, Option.map_eq_some_iff] at ho
    obtain ⟨n, hn, rfl⟩ := ho
    exact ⟨n, hn, rfl⟩
  induction h with
  | here mem =>
    intro id ho
    obtain ⟨n, hn, rfl⟩ := hnode ho
    obtain ⟨i, hi⟩ := List.mem_iff_getElem?.1 mem
    exact ⟨(id, i), slot?_eq_some_iff.2 ⟨n, hn, hi⟩⟩
  | inside mem _ ih =>
    intro id ho
    obtain ⟨n, -, rfl⟩ := hnode ho
    obtain ⟨c, -, hc⟩ := List.mem_filterMap.1 mem
    exact ih hc

/-- An outline has what the outlines below it have. -/
theorem has_of_below (ht : t.Linked) {j : NodeId} (hbelow : t.Below id j) {o below : Outline}
    (ho : t.outlineOf? id = some o) (hj : t.outlineOf? j = some below) (h : below.Has p) :
    o.Has p := by
  induction hbelow using Relation.ReflTransGen.head_induction_on generalizing o with
  | refl =>
    obtain rfl := Option.some.inj (hj.symm.trans ho)
    exact h
  | @head a c hparent hrest ih =>
    obtain ⟨n, hn⟩ := isLive_iff.1 (ht.isLive_parent hparent)
    obtain ⟨m, hm⟩ := isLive_iff.1 (isLive_of_parent? hparent)
    have hc := ht.outlineOf?_of_node? hm
    rw [ht.outlineOf?_of_node? hn] at ho
    obtain rfl := Option.some.inj ho
    exact .inside (List.mem_filterMap.2 ⟨c, (ht.mem_children_iff hn).2 hparent, hc⟩) (ih hc)

end Linked

namespace Grown

/-- Every node of a grown tree lies below the root. -/
theorem below_of_isLive (ht : t.Grown) (hid : t.isLive id) : t.Below ContentTree.root id :=
  ht.induction_down .refl (fun hp _ hbelow ↦ hbelow.tail hp) hid

/-- The properties of a grown tree are those of its outline. -/
theorem has_outline_iff (ht : t.Grown) : t.outline.Has p ↔ ∃ place, t.slot? place = some p := by
  refine ⟨fun h ↦ ht.linked.exists_slot?_of_has h ht.linked.outlineOf?_root, ?_⟩
  rintro ⟨⟨id, i⟩, hp⟩
  obtain ⟨n, hn, hi⟩ := slot?_eq_some_iff.1 hp
  exact ht.linked.has_of_below (ht.below_of_isLive (isLive_iff.2 ⟨n, hn⟩))
    ht.linked.outlineOf?_root (ht.linked.outlineOf?_of_node? hn) (.here (List.mem_of_getElem? hi))

end Grown

end ContentTree

end ModContent
