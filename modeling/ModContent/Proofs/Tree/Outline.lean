import Mathlib.Algebra.Ring.Nat
import ModContent.Proofs.Tree.Growth
import ModContent.Tree.Outline

/-!
# Outlines of linked trees

In a linked tree there are fewer levels below a node than handles, so an outline is never cut short.
That gives the outline of a node by the outlines of its children, without a bound
(`Linked.outlineOf?_eq`), and an outline reads only nodes below its own
(`Linked.outlineOf?_congr`). In a grown tree it shows all nodes (`Grown.size_eq`).
-/

namespace ModContent

namespace Outline

mutual

/-- The number of nodes in an outline. -/
def count : Outline → Nat
  | node _ _ children => 1 + countAll children

def countAll : List Outline → Nat
  | [] => 0
  | outline :: rest => count outline + countAll rest

end

theorem countAll_eq_sum (children : List Outline) :
    countAll children = (children.map count).sum := by
  induction children with
  | nil => rfl
  | cons child rest ih => rw [countAll, ih, List.map_cons, List.sum_cons]

end Outline

namespace ContentTree

variable {t t' : ContentTree} {id : NodeId} {n : Node}

namespace Linked

/-- **The outline of a node** is its key, its properties and the outlines of its children. -/
theorem outlineOf?_eq (ht : t.Linked) (id : NodeId) :
    t.outlineOf? id = (t.node? id).map fun node ↦
      .node node.key node.properties (node.children.filterMap t.outlineOf?) := by
  obtain ⟨height, hdown, hbound⟩ := ht.exists_height
  -- a bound beyond the height of a node does not matter
  have hfuel : ∀ fuel fuel' id, height id < fuel → height id < fuel' →
      t.outlineWithin fuel id = t.outlineWithin fuel' id := by
    intro fuel
    induction fuel with
    | zero => exact fun _ _ h ↦ absurd h (Nat.not_lt_zero _)
    | succ fuel ih =>
      intro fuel' id hlt hlt'
      obtain ⟨fuel', rfl⟩ : ∃ k, fuel' = k + 1 := ⟨fuel' - 1, by omega⟩
      rw [outlineWithin, outlineWithin]
      refine Option.map_congr fun node hnode ↦ ?_
      congr 1
      refine List.filterMap_congr fun c hc ↦ ?_
      have hchild := hdown ((ht.mem_children_iff hnode).1 hc)
      exact ih fuel' c (by omega) (by omega)
  have hpos : 0 < t.arena.capacity := Nat.lt_of_le_of_lt (Nat.zero_le _) (hbound ht.live)
  obtain ⟨fuel, hcapacity⟩ := Nat.exists_eq_succ_of_ne_zero (Nat.ne_of_gt hpos)
  rw [outlineOf?, hcapacity, outlineWithin]
  refine Option.map_congr fun node hnode ↦ ?_
  congr 1
  refine List.filterMap_congr fun c hc ↦ ?_
  have hc' := (ht.mem_children_iff hnode).1 hc
  have hchild := hdown hc'
  have hlive := hbound (isLive_iff.2 ⟨node, hnode⟩)
  rw [outlineOf?, hcapacity]
  exact hfuel _ _ c (by omega) (by omega)

/-- The outline of a node is made of those of its children. -/
theorem outlineOf?_of_node? (ht : t.Linked) (hn : t.node? id = some n) :
    t.outlineOf? id = some (.node n.key n.properties (n.children.filterMap t.outlineOf?)) := by
  rw [ht.outlineOf?_eq, hn, Option.map_some]

/-- An outline depends on the nodes below its own. -/
theorem outlineOf?_congr (ht : t.Linked) (ht' : t'.Linked)
    (h : ∀ j, t.Below id j → t'.node? j = t.node? j) : t'.outlineOf? id = t.outlineOf? id := by
  induction id using ht.induction with
  | step id ih =>
    rw [ht.outlineOf?_eq, ht'.outlineOf?_eq, h id .refl]
    refine Option.map_congr fun node hnode ↦ ?_
    congr 1
    refine List.filterMap_congr fun c hc ↦ ?_
    have hparent := (ht.mem_children_iff hnode).1 hc
    exact ih c hparent fun j hj ↦ h j (.head hparent hj)

/-- The outline of the tree is that of its root. -/
theorem outlineOf?_root (ht : t.Linked) : t.outlineOf? ContentTree.root = some t.outline := by
  obtain ⟨r, hr⟩ := isLive_iff.1 ht.live
  rw [outline, ht.outlineOf?_of_node? hr]
  rfl

end Linked

namespace Grown

/-- Below a node lie only nodes that come after it. -/
theorem index_le_of_below (ht : t.Grown) {j : NodeId} (h : t.Below id j) : id.index ≤ j.index := by
  induction h with
  | refl => exact Nat.le_refl _
  | tail _ h ih =>
    obtain ⟨n, hn, hparent⟩ := Option.bind_eq_some_iff.1 h
    exact Nat.le_trans ih (Nat.le_of_lt (ht.parent hn hparent).1)

/-! ### Counting nodes

Each node but the root is a child of exactly one node. So over all nodes, the numbers of nodes below
their children add up to the numbers of nodes below all nodes but the root; what is left for the
root is one for each node (`below_root`). -/

/-- All handles given so far. -/
def handles (t : ContentTree) : List NodeId := (List.range t.arena.capacity).map NodeId.mk

/-- The number of nodes in the outline of a node. -/
def below (t : ContentTree) (id : NodeId) : Nat := ((t.outlineOf? id).map Outline.count).getD 0

/-- The handles of a tree are its live ids. -/
theorem mem_handles_iff (ht : t.Grown) : id ∈ handles t ↔ t.isLive id := by
  rw [handles, List.mem_map]
  constructor
  · rintro ⟨i, hi, rfl⟩
    exact ht.full (List.mem_range.1 hi)
  · intro hlive
    obtain ⟨n, hn⟩ := isLive_iff.1 hlive
    exact ⟨id.index, List.mem_range.2 (index_lt_of_node? hn), rfl⟩

theorem nodup_handles (t : ContentTree) : (handles t).Nodup :=
  List.nodup_range.map fun _ _ h ↦ congrArg NodeId.index h

theorem mem_childIds_iff {child : NodeId} :
    child ∈ t.childIds id ↔ ∃ n, t.node? id = some n ∧ child ∈ n.children := by
  rw [childIds]
  cases t.node? id <;> simp

/-- The children of all nodes are all nodes but the root. -/
theorem flatMap_childIds_perm (ht : t.Grown) :
    ((handles t).flatMap t.childIds).Perm ((handles t).erase ContentTree.root) := by
  refine (List.perm_ext_iff_of_nodup ?_ ((nodup_handles t).erase _)).2 fun child ↦ ?_
  · refine List.nodup_flatMap.2 ⟨fun id hid ↦ ?_, (nodup_handles t).imp fun {a b} hne c ha hb ↦ ?_⟩
    · obtain ⟨n, hn⟩ := isLive_iff.1 (ht.mem_handles_iff.1 hid)
      rw [childIds_eq hn]
      exact ht.nodup hn
    · obtain ⟨n, hn, hc⟩ := mem_childIds_iff.1 ha
      obtain ⟨m, hm, hc'⟩ := mem_childIds_iff.1 hb
      obtain ⟨k, hk, hparent⟩ := ht.child hn hc
      obtain ⟨k', hk', hparent'⟩ := ht.child hm hc'
      obtain rfl := Option.some.inj (hk.symm.trans hk')
      exact hne (Option.some.inj (hparent.symm.trans hparent'))
  · rw [(nodup_handles t).mem_erase_iff, ht.mem_handles_iff, List.mem_flatMap]
    constructor
    · rintro ⟨id, -, hid⟩
      obtain ⟨n, hn, hc⟩ := mem_childIds_iff.1 hid
      obtain ⟨m, hm, -⟩ := ht.child hn hc
      exact ⟨ht.ne_root_of_mem hn hc, isLive_iff.2 ⟨m, hm⟩⟩
    · rintro ⟨hroot, hlive⟩
      obtain ⟨n, hn⟩ := isLive_iff.1 hlive
      cases hparent : n.parent with
      | none => exact absurd ((ht.orphan hn).1 hparent) hroot
      | some p =>
        obtain ⟨-, m, hm, hmem⟩ := ht.parent hn hparent
        exact ⟨p, ht.mem_handles_iff.2 (isLive_iff.2 ⟨m, hm⟩), mem_childIds_iff.2 ⟨m, hm, hmem⟩⟩

/-- Below a node are the node and what is below its children. -/
theorem below_eq (ht : t.Grown) (hn : t.node? id = some n) :
    below t id = 1 + ((t.childIds id).map (below t)).sum := by
  rw [below, ht.linked.outlineOf?_of_node? hn, Option.map_some, Option.getD_some, Outline.count,
    Outline.countAll_eq_sum, childIds_eq hn]
  congr 1
  induction n.children with
  | nil => rfl
  | cons child rest ih =>
    rw [List.map_cons, List.sum_cons, ← ih, below]
    cases hchild : t.outlineOf? child with
    | none => simp [hchild]
    | some o => simp [hchild]

/-- The outline of a grown tree shows each of its nodes. -/
theorem below_root (ht : t.Grown) : below t ContentTree.root = t.arena.capacity := by
  have hroot : ContentTree.root ∈ handles t := ht.mem_handles_iff.2 ht.linked.live
  have hall : ((handles t).map (below t)).sum =
      t.arena.capacity + (((handles t).flatMap t.childIds).map (below t)).sum := by
    have hsum : ∀ ids : List NodeId, (∀ id ∈ ids, t.isLive id) →
        (ids.map (below t)).sum =
          ids.length + ((ids.flatMap t.childIds).map (below t)).sum := by
      intro ids hids
      induction ids with
      | nil => rfl
      | cons id rest ih =>
        obtain ⟨hid, hrest⟩ := List.forall_mem_cons.1 hids
        obtain ⟨n, hn⟩ := isLive_iff.1 hid
        rw [List.map_cons, List.sum_cons, ih hrest, ht.below_eq hn, List.flatMap_cons,
          List.map_append, List.sum_append, List.length_cons]
        omega
    rw [hsum _ fun id ↦ ht.mem_handles_iff.1, handles, List.length_map, List.length_range]
  -- the same sum once more, with the root taken out
  have herase : ((handles t).map (below t)).sum =
      below t ContentTree.root + (((handles t).erase ContentTree.root).map (below t)).sum := by
    rw [((List.perm_cons_erase hroot).map (below t)).sum_nat, List.map_cons, List.sum_cons]
  rw [((ht.flatMap_childIds_perm.map (below t)).sum_nat)] at hall
  omega

/-- **A grown tree has no nodes but those of its outline.** -/
theorem size_eq (ht : t.Grown) : t.size = t.outline.count := by
  have hfull : t.arena.size = t.arena.capacity := by
    rw [Arena.size, Arena.capacity, Array.countP_eq_size]
    intro slot hslot
    obtain ⟨i, hi, rfl⟩ := Array.mem_iff_getElem.1 hslot
    have hindex : (⟨i⟩ : NodeId).index < t.arena.capacity := hi
    have hlive : ((t.arena.slots[i]?).join).isSome = true := ht.full hindex
    rw [Array.getElem?_eq_getElem hi, Option.join_some] at hlive
    exact hlive
  have hroot := ht.below_root
  rw [below, ht.linked.outlineOf?_root, Option.map_some, Option.getD_some] at hroot
  rw [size, hfull, hroot]

end Grown

end ContentTree

end ModContent
