import Mathlib.Data.Nat.Count
import Mathlib.Data.Set.Card
import ModContent.Proofs.Tree.Calls

/-!
# Moving and removing nodes

A move takes a node off its parent and makes it the last child of another. A removal takes a node
off its parent and erases it with all that lies below it. Both change the links of few nodes and no
contents (`map_content_link`, `map_content_unlink`), and what lies below a node is the same once the
node is off its parent (`Linked.below_unlink_iff`). So a move leaves the subtree as it is
(`Linked.subtree_congr`), and a removal erases what lay below the node in the tree before.

The size of a tree is the number of its live handles (`card_liveHandles`), so it drops by the number
of those that go. Main statement: `effect_of_addChild_remove`.
-/

namespace ModContent

/-- What a node holds apart from its links. -/
def Node.content (n : Node) : Key × List Property := (n.key, n.properties)

namespace ContentTree

variable {t t' : ContentTree} {id parent child : NodeId}

/-! ### What links do not change -/

theorem map_content_modify {f : Node → Node} (hf : ∀ n, (f n).content = n.content)
    (t : ContentTree) (id j : NodeId) :
    ((t.modify id f).node? j).map Node.content = (t.node? j).map Node.content := by
  rw [node?_modify]
  split
  · rw [Option.map_map]
    exact congrArg (Option.map · _) (funext hf)
  · rfl

theorem map_content_unlink (t : ContentTree) (id j : NodeId) :
    ((t.unlink id).node? j).map Node.content = (t.node? j).map Node.content := by
  rw [unlink]
  split
  · refine (map_content_modify (by intro; rfl) _ _ j).trans ?_
    exact map_content_modify (by intro; rfl) t _ j
  · rfl

theorem map_content_link (t : ContentTree) (parent child j : NodeId) :
    ((t.link parent child).node? j).map Node.content = (t.node? j).map Node.content := by
  refine (map_content_modify (by intro; rfl) _ child j).trans ?_
  exact map_content_modify (by intro; rfl) t parent j

/-- Only a node that is taken off and its parent change. -/
theorem node?_unlink_of_ne {j : NodeId} (hid : j ≠ id) (hparent : t.parent? id ≠ some j) :
    (t.unlink id).node? j = t.node? j := by
  rw [unlink]
  split
  · next p hp =>
    have hj : j ≠ p := by
      rintro rfl
      exact hparent hp
    rw [node?_modify_of_ne _ _ hid, node?_modify_of_ne _ _ hj]
  · rfl

/-- Only a node that is put somewhere and its new parent change. -/
theorem node?_link_of_ne (t : ContentTree) {j : NodeId} (hchild : j ≠ child)
    (hparent : j ≠ parent) : (t.link parent child).node? j = t.node? j := by
  rw [link, node?_modify_of_ne _ _ hchild, node?_modify_of_ne _ _ hparent]

namespace Linked

/-- The old parent of a node that is taken off lists it no longer. -/
theorem node?_unlink_parent (ht : t.Linked) {p : NodeId} (hp : t.parent? id = some p) :
    (t.unlink id).node? p = (t.node? p).map (Node.unlisting id) := by
  have hne : p ≠ id := by
    rintro rfl
    exact ht.not_below_of_isParent hp .refl
  rw [ContentTree.unlink, hp]
  exact (node?_modify_of_ne _ _ hne).trans (node?_modify_self t p _)

/-- The way down from a node does not pass the link to the node. -/
theorem below_unlink_iff (ht : t.Linked) {j : NodeId} :
    (t.unlink id).Below id j ↔ t.Below id j := by
  refine ⟨Below.mono fun _ _ ↦ IsParent.of_unlink, fun h ↦ ?_⟩
  induction h with
  | refl => exact .refl
  | @tail p c hbelow hlink ih =>
    refine ih.tail ?_
    have hne : c ≠ id := by
      rintro rfl
      exact ht.not_below_of_isParent hlink hbelow
    rw [IsParent, parent?_unlink, if_neg hne]
    exact hlink

/-- A subtree depends on the lists of children in it. -/
theorem subtree_congr (ht : t.Linked) (ht' : t'.Linked)
    (h : ∀ j, t.Below id j → t'.childIds j = t.childIds j) : t'.subtree id = t.subtree id := by
  induction id using ht.induction with
  | step id ih =>
    rw [ht.subtree_eq, ht'.subtree_eq, h id .refl]
    congr 1
    refine List.flatMap_congr fun c hc ↦ ?_
    have hparent := ht.links.1 hc
    exact ih c hparent fun j hj ↦ h j (.head hparent hj)

/-- An outline depends on the contents and the lists of children in the subtree. -/
theorem outlineOf?_congr_content (ht : t.Linked) (ht' : t'.Linked)
    (hchildren : ∀ j, t.Below id j → t'.childIds j = t.childIds j)
    (hcontent : ∀ j, (t'.node? j).map Node.content = (t.node? j).map Node.content) :
    t'.outlineOf? id = t.outlineOf? id := by
  induction id using ht.induction with
  | step id ih =>
    have hself := hcontent id
    cases hn : t.node? id with
    | none =>
      rw [hn, Option.map_none, Option.map_eq_none_iff] at hself
      rw [ht.outlineOf?_eq, ht'.outlineOf?_eq, hn, hself]
      rfl
    | some n =>
      rw [hn, Option.map_some, Option.map_eq_some_iff] at hself
      obtain ⟨n', hn', hsame⟩ := hself
      obtain ⟨hkey, hproperties⟩ := Prod.mk.inj hsame
      have hlist : n'.children = n.children := by
        rw [← childIds_eq hn', ← childIds_eq hn, hchildren id .refl]
      rw [ht.outlineOf?_of_node? hn, ht'.outlineOf?_of_node? hn', hkey, hproperties, hlist]
      congr 2
      refine List.filterMap_congr fun c hc ↦ ?_
      have hparent := (ht.mem_children_iff hn).1 hc
      exact ih c hparent fun j hj ↦ hchildren j (.head hparent hj)

end Linked

/-! ### Moving -/

/-- A node was moved below another as its last child, and nothing else changed. -/
structure Moved (t t' : ContentTree) (parent child : NodeId) : Prop where
  /-- The node is the last child of its new parent, and listed once. -/
  last : t'.childIds parent = (t.childIds parent).filter (· ≠ child) ++ [child]
  /-- The other nodes list what they listed, in order, without the node. -/
  others : ∀ id ≠ parent, t'.childIds id = (t.childIds id).filter (· ≠ child)
  parents : ∀ id, t'.parent? id = if id = child then some parent else t.parent? id
  contents : ∀ id, (t'.node? id).map Node.content = (t.node? id).map Node.content
  /-- Nodes other than the one moved, its old parent and its new one do not change at all. -/
  frame : ∀ id, id ≠ child → id ≠ parent → t.parent? child ≠ some id → t'.node? id = t.node? id
  subtree : t'.subtree child = t.subtree child
  outline : t'.outlineOf? child = t.outlineOf? child

namespace Linked

/-- A child that is added is the last one of its parent and no child of any other. -/
theorem childIds_addChild? (ht : t.Linked) (h : t.addChild? parent child = some t')
    (j : NodeId) : t'.childIds j =
      if j = parent then (t.childIds j).filter (· ≠ child) ++ [child]
      else (t.childIds j).filter (· ≠ child) := by
  obtain ⟨hparent, -, -, -, rfl⟩ := ht.addChild?_eq_some_iff.1 h
  rw [childIds_link ((isLive_unlink ..).trans hparent), ht.childIds_unlink]

/-- A child that is added has its new parent, and all others keep theirs. -/
theorem parent?_addChild? (ht : t.Linked) (h : t.addChild? parent child = some t')
    (j : NodeId) : t'.parent? j = if j = child then some parent else t.parent? j := by
  obtain ⟨-, hchild, -, -, rfl⟩ := ht.addChild?_eq_some_iff.1 h
  rw [parent?_link ((isLive_unlink ..).trans hchild), parent?_unlink]
  split
  · rfl
  · rfl

/-- Neither the old parent of a node nor its new one lies below it. -/
theorem childIds_addChild?_of_below (ht : t.Linked) (h : t.addChild? parent child = some t')
    {j : NodeId} (hj : t.Below child j) : t'.childIds j = t.childIds j := by
  obtain ⟨-, -, -, hnot, -⟩ := ht.addChild?_eq_some_iff.1 h
  have hnew : j ≠ parent := by
    rintro rfl
    exact hnot hj
  rw [ht.childIds_addChild? h, if_neg hnew, ht.filter_childIds]
  exact fun hold ↦ ht.not_below_of_isParent hold hj

/-- Adding a child touches the child and its two parents. -/
theorem node?_addChild?_of_ne (ht : t.Linked) (h : t.addChild? parent child = some t')
    (hchild : id ≠ child) (hparent : id ≠ parent) (hold : t.parent? child ≠ some id) :
    t'.node? id = t.node? id := by
  obtain ⟨-, -, -, -, rfl⟩ := ht.addChild?_eq_some_iff.1 h
  rw [node?_link_of_ne _ hchild hparent, node?_unlink_of_ne hchild hold]

/-- No node gets another key or other properties. -/
theorem map_content_addChild? (ht : t.Linked) (h : t.addChild? parent child = some t')
    (j : NodeId) : (t'.node? j).map Node.content = (t.node? j).map Node.content := by
  obtain ⟨-, -, -, -, rfl⟩ := ht.addChild?_eq_some_iff.1 h
  rw [map_content_link, map_content_unlink]

theorem moved (ht : t.Linked) (h : t.addChild? parent child = some t') :
    t.Moved t' parent child where
  last := (ht.childIds_addChild? h parent).trans (if_pos rfl)
  others id hid := (ht.childIds_addChild? h id).trans (if_neg hid)
  parents := ht.parent?_addChild? h
  contents := ht.map_content_addChild? h
  frame _ := ht.node?_addChild?_of_ne h
  subtree := ht.subtree_congr (ht.addChild? h) fun _ ↦ ht.childIds_addChild?_of_below h
  outline := ht.outlineOf?_congr_content (ht.addChild? h)
    (fun _ ↦ ht.childIds_addChild?_of_below h) (ht.map_content_addChild? h)

end Linked

/-! ### Removing -/

/-- The live handles. -/
def liveHandles (t : ContentTree) : Finset NodeId :=
  ((Finset.range t.arena.capacity).image NodeId.mk).filter fun id ↦ t.isLive id

theorem mem_liveHandles : id ∈ t.liveHandles ↔ t.isLive id := by
  rw [liveHandles, Finset.mem_filter, Finset.mem_image]
  refine and_iff_right_of_imp fun hlive ↦ ?_
  exact ⟨id.index, Finset.mem_range.2 (Linked.index_lt_of_isLive hlive), rfl⟩

theorem countP_isSome_eq_count {β : Type} (slots : List (Option β)) :
    slots.countP Option.isSome = Nat.count (fun i ↦ (slots[i]?.join).isSome) slots.length := by
  induction slots with
  | nil => rfl
  | cons slot rest ih =>
    rw [List.countP_cons, List.length_cons, Nat.count_succ', ih]
    rfl

/-- The size of a tree is the number of its live handles. -/
theorem card_liveHandles (t : ContentTree) : t.liveHandles.card = t.size := by
  have hinjective : Function.Injective NodeId.mk := fun _ _ h ↦ congrArg NodeId.index h
  rw [size, Arena.size, ← Array.countP_toList, countP_isSome_eq_count,
    Nat.count_eq_card_filter_range, liveHandles, Finset.filter_image,
    Finset.card_image_of_injective _ hinjective]
  simp only [Array.length_toList, Array.getElem?_toList]
  rfl

/-- A node was removed with all that lies below it, and nothing else changed. -/
structure Removed (t t' : ContentTree) (id : NodeId) : Prop where
  gone : ∀ j, t.Below id j → t'.node? j = none
  /-- The old parent lists its other children, in order, and does not change otherwise. -/
  parent : ∀ p, t.parent? id = some p → t'.node? p = (t.node? p).map (Node.unlisting id)
  /-- All other nodes do not change at all. -/
  frame : ∀ j, ¬ t.Below id j → t.parent? id ≠ some j → t'.node? j = t.node? j
  size : t'.size + {j | t.Below id j}.ncard = t.size

/-- All nodes can be removed but the root, and each goes with what is below it. -/
theorem remove?_eq_some_iff : t.remove? id = some t' ↔
    t.isLive id ∧ id ≠ root ∧ t' = (t.unlink id).without ((t.unlink id).subtree id) := by
  rw [remove?, Option.ite_none_right_eq_some]
  simp only [Bool.and_eq_true, decide_eq_true_eq, Option.some.injEq, and_assoc]
  constructor
  · rintro ⟨hroot, hlive, rfl⟩
    exact ⟨hlive, hroot, rfl⟩
  · rintro ⟨hlive, hroot, rfl⟩
    exact ⟨hroot, hlive, rfl⟩

namespace Linked

/-- What is removed with a node is what lay below it before the node was taken off. -/
theorem mem_subtree_unlink (ht : t.Linked) (hlive : t.isLive id) {j : NodeId} :
    j ∈ (t.unlink id).subtree id ↔ t.Below id j := by
  rw [(ht.unlink id).mem_subtree_iff ((isLive_unlink ..).trans hlive), ht.below_unlink_iff]

/-- What is below a removed node is gone. -/
theorem node?_remove?_of_below (ht : t.Linked) (h : t.remove? id = some t') {j : NodeId}
    (hj : t.Below id j) : t'.node? j = none := by
  obtain ⟨hlive, -, rfl⟩ := remove?_eq_some_iff.1 h
  rw [node?_without, if_pos ((ht.mem_subtree_unlink hlive).2 hj)]

/-- All else is what it was once the node was unlinked. -/
theorem node?_remove?_of_not_below (ht : t.Linked) (h : t.remove? id = some t') {j : NodeId}
    (hj : ¬ t.Below id j) : t'.node? j = (t.unlink id).node? j := by
  obtain ⟨hlive, -, rfl⟩ := remove?_eq_some_iff.1 h
  rw [node?_without, if_neg fun hmem ↦ hj ((ht.mem_subtree_unlink hlive).1 hmem)]

/-- There are fewer nodes by those below the one that was removed. -/
theorem size_remove? (ht : t.Linked) (h : t.remove? id = some t') :
    t'.size + {j | t.Below id j}.ncard = t.size := by
  classical
  have hlive : t.isLive id := (remove?_eq_some_iff.1 h).1
  have hgone : {j | t.Below id j} = ↑(t.liveHandles.filter (t.Below id)) := by
    ext j
    rw [Finset.mem_coe, Finset.mem_filter, mem_liveHandles]
    exact (and_iff_right_of_imp fun hj ↦ hj.isLive hlive).symm
  have hkept : t'.liveHandles = t.liveHandles.filter (¬ t.Below id ·) := by
    ext j
    rw [Finset.mem_filter, mem_liveHandles, mem_liveHandles]
    by_cases hj : t.Below id j
    · simp [isLive, ht.node?_remove?_of_below h hj, hj]
    · rw [isLive, ht.node?_remove?_of_not_below h hj, ← isLive, isLive_unlink]
      exact (and_iff_left hj).symm
  rw [hgone, Set.ncard_coe_finset, ← card_liveHandles, hkept, ← card_liveHandles, Nat.add_comm]
  exact Finset.card_filter_add_card_filter_not _

/-- A node that was removed is gone with what is below it. -/
theorem removed (ht : t.Linked) (h : t.remove? id = some t') : t.Removed t' id where
  gone _ := ht.node?_remove?_of_below h
  parent p hp := by
    rw [ht.node?_remove?_of_not_below h (ht.not_below_of_isParent hp)]
    exact ht.node?_unlink_parent hp
  frame j hj hp := by
    rw [ht.node?_remove?_of_not_below h hj]
    refine node?_unlink_of_ne ?_ hp
    rintro rfl
    exact hj .refl
  size := ht.size_remove? h

end Linked

/-- **What moving and removing do** in a tree that can be reached, with any handles. A node is moved
below another if and only if both are live and it is neither the root nor the other nor above it. A
node is removed if and only if it is live and not the root. Where they are refused, nothing
changes. -/
theorem effect_of_addChild_remove (ht : t.Reachable) :
    (∀ parent child,
      ((∃ t', t.addChild? parent child = some t') ↔
        t.isLive parent ∧ t.isLive child ∧ child ≠ root ∧ ¬ t.Below child parent) ∧
      (∀ t', t.addChild? parent child = some t' → t.Moved t' parent child) ∧
      (t.addChild? parent child = none → (Call.addChild parent child).apply t = t)) ∧
    ∀ id,
      ((∃ t', t.remove? id = some t') ↔ t.isLive id ∧ id ≠ root) ∧
      (∀ t', t.remove? id = some t' → t.Removed t' id) ∧
      (t.remove? id = none → (Call.remove id).apply t = t) := by
  have hlinked := ht.linked
  refine ⟨fun parent child ↦ ⟨?_, fun t' ↦ hlinked.moved, fun hnone ↦ ?_⟩,
    fun id ↦ ⟨?_, fun t' ↦ hlinked.removed, fun hnone ↦ ?_⟩⟩
  · constructor
    · rintro ⟨t', h⟩
      obtain ⟨hparent, hchild, hroot, hnot, -⟩ := hlinked.addChild?_eq_some_iff.1 h
      exact ⟨hparent, hchild, hroot, hnot⟩
    · rintro ⟨hparent, hchild, hroot, hnot⟩
      exact ⟨_, hlinked.addChild?_eq_some_iff.2 ⟨hparent, hchild, hroot, hnot, rfl⟩⟩
  · rw [Call.apply, hnone, Option.getD_none]
  · constructor
    · rintro ⟨t', h⟩
      obtain ⟨hlive, hroot, -⟩ := remove?_eq_some_iff.1 h
      exact ⟨hlive, hroot⟩
    · rintro ⟨hlive, hroot⟩
      exact ⟨_, remove?_eq_some_iff.2 ⟨hlive, hroot, rfl⟩⟩
  · rw [Call.apply, hnone, Option.getD_none]

/-- A tree whose root has two children, the first of them with a child, and a detached node with a
child of its own. -/
def armyCalls : List Call :=
  [.childOrCreate root (.named "archer"), .childOrCreate root (.named "knight"),
    .childOrCreate ⟨1⟩ (.named "bow"), .create (.named "camp"), .childOrCreate ⟨4⟩ (.named "fire")]

/-- The first child moves behind the second and keeps its own child. It does not go below that, and
a detached node goes with its child. -/
theorem effect_of_addChild_remove_army :
    (Call.run new armyCalls).Reachable ∧
      (∃ t', (Call.run new armyCalls).addChild? root ⟨1⟩ = some t' ∧
        (Call.run new armyCalls).Moved t' root ⟨1⟩ ∧ t'.childIds root = [⟨2⟩, ⟨1⟩] ∧
        t'.subtree ⟨1⟩ = [⟨1⟩, ⟨3⟩]) ∧
      (Call.run new armyCalls).addChild? ⟨3⟩ ⟨1⟩ = none ∧
      ∃ t', (Call.run new armyCalls).remove? ⟨4⟩ = some t' ∧
        (Call.run new armyCalls).Removed t' ⟨4⟩ ∧ (Call.run new armyCalls).size = 6 ∧
        t'.size = 4 := by
  have hreachable : (Call.run new armyCalls).Reachable := Call.reachable_run .new armyCalls
  obtain ⟨hmoves, hremovals⟩ := effect_of_addChild_remove hreachable
  refine ⟨hreachable, ⟨_, rfl, (hmoves root ⟨1⟩).2.1 _ rfl, by decide, by decide⟩, by decide,
    ⟨_, rfl, (hremovals ⟨4⟩).2.1 _ rfl, by decide, by decide⟩⟩

end ContentTree

end ModContent
