import ModContent.Proofs.Grammar.Path
import ModContent.Proofs.Tree.Lookup
import ModContent.Proofs.Tree.Tidy
import ModContent.Proofs.Tree.Walks

/-!
# Nodes and their own paths

The path of a node is made of the keys of its ancestors and its own, from the top down
(`ContentTree.ownPath`). In an orderly tree each of these keys finds the node that it was taken
from, since no earlier child is accepted by it (`Orderly.findChild?_eq`). So if the keys can stand
in labels, the path leads back to the node (`Addressable.find?_ownPath`), and with the key of a
property behind it to the first property that this key accepts (`Addressable.locate?_ownPath`).
-/

namespace ModContent

namespace ContentTree

variable {t : ContentTree} {id p : NodeId} {n : Node} {K : Key → Prop} {W : Property → Prop}

/-! ### The keys that lead to a node -/

/-- The keys on the way to a node, its own last; those of the nodes below the root only. -/
def ownKeys (t : ContentTree) (id : NodeId) : List Key :=
  ((t.lineage id).filter (· ≠ root)).reverse.filterMap fun j ↦ (t.node? j).map Node.key

/-- The path of a node from the root. -/
def ownPath (t : ContentTree) (id : NodeId) : String :=
  String.intercalate "." ((t.ownKeys id).map Key.text)

theorem Linked.ownKeys_root (ht : t.Linked) : t.ownKeys root = [] := by
  rw [ownKeys, ht.lineage_eq, ht.top]
  simp

/-- The keys that lead to a node are those that lead to its parent, and its own. -/
theorem Linked.ownKeys_eq (ht : t.Linked) (hn : t.node? id = some n) (hp : t.IsParent p id) :
    t.ownKeys id = t.ownKeys p ++ [n.key] := by
  have hroot : id ≠ root := by
    rintro rfl
    exact absurd (ht.top.symm.trans hp) (Option.some_ne_none p).symm
  have hparent : t.parent? id = some p := hp
  rw [ownKeys, ht.lineage_eq, hparent]
  simp [hroot, hn, ownKeys]

namespace Orderly

/-- The key of a child finds the child. -/
theorem findChild?_eq (h : t.Orderly K W) (ht : t.Linked) (hn : t.node? id = some n)
    (hp : t.IsParent p id) : t.findChild? p n.key = some id := by
  have hmem : id ∈ t.childIds p := ht.links.2 hp
  obtain ⟨m, hm⟩ := isLive_iff.1 (isLive_of_mem_childIds hmem)
  rw [childIds_eq hm] at hmem
  obtain ⟨before, after, hchildren⟩ := List.append_of_mem hmem
  have hapart := h.apart hm
  rw [hchildren, List.pairwise_append] at hapart
  rw [findChild?, childIds_eq hm, List.find?_eq_some_iff_append]
  refine ⟨by rw [hn, Option.any_some, Key.accepts_self], before, after, hchildren, fun c hc ↦ ?_⟩
  cases hnode : t.node? c with
  | none => rfl
  | some k =>
    rw [Option.any_some, hapart.2.2 c hc id List.mem_cons_self k n hnode hn]
    rfl

/-- The keys of a node lead to it. -/
theorem foldlM_ownKeys (h : t.Orderly K W) (ht : t.Grown) (hlive : t.isLive id) :
    (t.ownKeys id).foldlM t.findChild? root = some id := by
  refine ht.induction_down (motive := fun j ↦ (t.ownKeys j).foldlM t.findChild? root = some j)
    ?_ (fun {p id n} hp hn ih ↦ ?_) hlive
  · rw [ht.linked.ownKeys_root]
    rfl
  · rw [ht.linked.ownKeys_eq hn hp, List.foldlM_append, ih]
    show (t.findChild? p n.key).bind some = some id
    rw [h.findChild?_eq ht.linked hn hp, Option.bind_some]

/-- The keys that lead to a node are of the kind of labels. -/
theorem label_of_mem_ownKeys (h : t.Orderly K W) {key : Key} (hkey : key ∈ t.ownKeys id) :
    K key := by
  obtain ⟨j, hj, hnode⟩ := List.mem_filterMap.1 hkey
  obtain ⟨n, hn, rfl⟩ := Option.map_eq_some_iff.1 hnode
  rw [List.mem_reverse, List.mem_filter, decide_eq_true_iff] at hj
  exact h.label hn hj.2

/-- A property that none before it takes the name of is the first that its key accepts; with a
category it is so anyhow. -/
theorem accepts_eq_false (h : t.Orderly K W) (hn : t.node? id = some n) {i j : Nat}
    {q q' : Property} (hq : n.properties[i]? = some q) (hq' : n.properties[j]? = some q')
    (hj : j < i) (hname : q.key.category ≠ none ∨ q'.key.name ≠ q.key.name) :
    q.key.accepts q'.key = false := by
  by_contra haccepts
  rw [Bool.not_eq_false] at haccepts
  rcases hname with hcategory | hname
  · -- the keys of the properties differ
    have hsame : q'.key = q.key := Key.eq_of_accepts haccepts hcategory
    have hlt : i < (n.properties.map Property.key).length := by
      rw [List.length_map]
      exact (List.getElem?_eq_some_iff.1 hq).1
    refine List.nodup_iff_getElem?_ne_getElem?.1 (h.keys hn) j i hj hlt ?_
    rw [List.getElem?_map, List.getElem?_map, hq, hq', Option.map_some, Option.map_some, hsame]
  · exact hname (Key.name_eq_of_accepts haccepts)

end Orderly

/-! ### Paths -/

/-- A tree in which nothing is hidden, with the labels of nodes and properties such as can be read
from a path. -/
structure Addressable (t : ContentTree) : Prop where
  grown : t.Grown
  orderly : t.Orderly Key.Labelled fun q ↦ q.key.Labelled

namespace Addressable

theorem ownKeys_ne_nil (h : t.Addressable) (hn : t.node? id = some n) (hroot : id ≠ root) :
    t.ownKeys id ≠ [] := by
  obtain ⟨p, -, hp, -⟩ := h.grown.exists_isParent hn hroot
  rw [h.grown.linked.ownKeys_eq hn hp]
  exact List.append_ne_nil_of_right_ne_nil _ (List.cons_ne_nil _ _)

/-- **The path of a node leads to it.** -/
theorem find?_ownPath (h : t.Addressable) (hn : t.node? id = some n) (hroot : id ≠ root) :
    t.find? root (t.ownPath id) = some id := by
  have hlinked := h.grown.linked
  obtain ⟨p, -, hp, -⟩ := h.grown.exists_isParent hn hroot
  have hkeys : t.ownKeys id = DottedPath.keys ⟨t.ownKeys p, n.key⟩ := hlinked.ownKeys_eq hn hp
  have hparse : DottedPath.parse (t.ownPath id) = some ⟨t.ownKeys p, n.key⟩ := by
    rw [ownPath, hkeys]
    exact DottedPath.parse_text fun key hkey ↦ h.orderly.label_of_mem_ownKeys (hkeys ▸ hkey)
  have hlead := h.orderly.foldlM_ownKeys h.grown (isLive_iff.2 ⟨n, hn⟩)
  rw [find?, hparse, Option.bind_eq_bind, Option.bind_some, ← hkeys, follow?_eq]
  exact hlead

/-- With a key behind it, the path of a node leads to the properties of the node. -/
theorem parse_ownPath_append (h : t.Addressable) (hn : t.node? id = some n) (hroot : id ≠ root)
    {key : Key} (hkey : key.Labelled) :
    DottedPath.parse (t.ownPath id ++ "." ++ key.text) = some ⟨t.ownKeys id, key⟩ := by
  have hne : (t.ownKeys id).map Key.text ≠ [] :=
    fun hnil ↦ h.ownKeys_ne_nil hn hroot (List.map_eq_nil_iff.1 hnil)
  have htext : t.ownPath id ++ "." ++ key.text = DottedPath.text ⟨t.ownKeys id, key⟩ := by
    rw [ownPath, DottedPath.text, DottedPath.keys, List.map_append, List.map_singleton,
      String.intercalate_append_of_ne_nil hne (List.cons_ne_nil _ _), String.intercalate_singleton]
  rw [htext]
  refine DottedPath.parse_text fun k hk ↦ ?_
  rcases List.mem_append.1 hk with hk | hk
  · exact h.orderly.label_of_mem_ownKeys hk
  · obtain rfl := List.mem_singleton.1 hk
    exact hkey

section Property

variable (h : t.Addressable) (hn : t.node? id = some n) (hroot : id ≠ root) {i : Nat}
  {q : Property} (hq : n.properties[i]? = some q)
  (hname : q.key.category ≠ none ∨
    ∀ j < i, ∀ q', n.properties[j]? = some q' → q'.key.name ≠ q.key.name)
include h hn hroot hq hname

/-- **The path of a property leads to its slot**, if it has a category or is the first of its
name. -/
theorem locate?_ownPath : t.locate? (t.ownPath id ++ "." ++ q.key.text) = some (id, i) := by
  have hparse := h.parse_ownPath_append hn hroot (h.orderly.written hn (List.mem_of_getElem? hq))
  have hlead := h.orderly.foldlM_ownKeys h.grown (isLive_iff.2 ⟨n, hn⟩)
  have hslot : n.slot? q.key = some i := by
    obtain ⟨hi, hget⟩ := List.getElem?_eq_some_iff.1 hq
    refine List.findIdx?_eq_some_iff_getElem.2 ⟨hi, ?_, fun j hj ↦ ?_⟩
    · rw [hget, Key.accepts_self]
    · have hq' := List.getElem?_eq_getElem (hj.trans hi)
      rw [h.orderly.accepts_eq_false hn hq hq' hj (hname.imp_right fun hfirst ↦ hfirst j hj _ hq')]
      exact Bool.false_ne_true
  rw [locate?, hparse]
  simp only [bind, Option.bind, hlead, hn, hslot]
  rfl

/-- The property is found behind the path of its node. -/
theorem property?_ownPath : t.property? root (t.ownPath id ++ "." ++ q.key.text) = some q := by
  have hlinked := h.grown.linked
  rw [hlinked.property?_root, ← hlinked.locate?_bind_slot?, h.locate?_ownPath hn hroot hq hname]
  exact slot?_eq_some_iff.2 ⟨n, hn, hq⟩

end Property

end Addressable

end ContentTree

end ModContent
