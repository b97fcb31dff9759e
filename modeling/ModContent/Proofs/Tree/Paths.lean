import ModContent.Proofs.Grammar.Path
import ModContent.Proofs.Tree.Calls
import ModContent.Proofs.Tree.Extension
import ModContent.Proofs.Tree.Lookup

/-!
# Making paths

The node at a path is found, or it is made with all nodes on the way that are missing. The keys of
the path that find a node come first. From the first one that finds none, every key gets a new node:
the first new node is the last child of the node that the walk came to, and each of the others is
the only child of the one before. Apart from that the tree stays as it was (`Extended`).

So afterwards the path leads to the node (`Linked.follow?_followOrCreate`), and making it once more
makes nothing (`followOrCreate_of_follow?`). Main statement: `pathOrCreate?_agrees_with_find?`.
-/

namespace ModContent

namespace ContentTree

variable {t t' : ContentTree} {id child scope : NodeId} {key : Key} {keys missing : List Key}
  {n : Node}

/-! ### Found again -/

theorem follow?_cons (t : ContentTree) (id : NodeId) (key : Key) (keys : List Key) :
    t.follow? id (key :: keys) = (t.findChild? id key).bind fun child ↦ t.follow? child keys := by
  simp only [follow?_eq]
  exact List.foldlM_cons

theorem followOrCreate_cons (t : ContentTree) (id : NodeId) (key : Key) (keys : List Key) :
    t.followOrCreate id (key :: keys) =
      (t.childOrCreate id key).2.followOrCreate (t.childOrCreate id key).1 keys := rfl

/-- Where the keys lead to a node already, nothing is made. -/
theorem followOrCreate_of_follow? (h : t.follow? id keys = some child) :
    t.followOrCreate id keys = (child, t) := by
  induction keys generalizing id with
  | nil =>
    obtain rfl := Option.some.inj h
    rfl
  | cons key keys ih =>
    rw [follow?_cons] at h
    obtain ⟨next, hnext, h⟩ := Option.bind_eq_some_iff.1 h
    rw [followOrCreate_cons, childOrCreate, hnext]
    exact ih h

namespace Linked

/-- Following keys and making what is missing leaves all nodes in place. -/
theorem continues_followOrCreate (ht : t.Linked) (hlive : t.isLive id) (keys : List Key) :
    t.Continues (t.followOrCreate id keys).2 := by
  induction keys generalizing t id with
  | nil => exact .refl t
  | cons key keys ih =>
    exact (Continues.childOrCreate ht hlive key).trans
      (ih (ht.childOrCreate hlive key) (ht.isLive_childOrCreate hlive key))

/-- The keys lead to the node that was found or made. -/
theorem follow?_followOrCreate (ht : t.Linked) (hlive : t.isLive id) (keys : List Key) :
    (t.followOrCreate id keys).2.follow? id keys = some (t.followOrCreate id keys).1 := by
  induction keys generalizing t id with
  | nil => rfl
  | cons key keys ih =>
    have hlinked := ht.childOrCreate hlive key
    have hchild := ht.isLive_childOrCreate hlive key
    have hfind := (hlinked.continues_followOrCreate hchild keys).findChild? hlinked
      (Edited.childOrCreate ht hlive key).2
    rw [followOrCreate_cons, follow?_cons, hfind]
    exact ih hlinked hchild

end Linked

/-! ### What is made -/

/-- The handle of the new node that comes after so many others. -/
def handle (t : ContentTree) (i : Nat) : NodeId := ⟨t.arena.capacity + i⟩

/-- That handle alone, or nothing if there are no more than so many new nodes. -/
def handleOf (t : ContentTree) (count i : Nat) : List NodeId :=
  if i < count then [t.handle i] else []

/-- A tree with new nodes for keys that are missing below a node, each below the one before. -/
structure Extended (t t' : ContentTree) (scope : NodeId) (missing : List Key) : Prop where
  /-- Each missing key has a new node without properties, which lists the next one only. -/
  made : ∀ i (h : i < missing.length), t'.node? (t.handle i) = some
    { key := missing[i]
      parent := some (if i = 0 then scope else t.handle (i - 1))
      children := t.handleOf missing.length (i + 1)
      properties := [] }
  /-- The scope lists the first new node behind the children that it had. -/
  listed : ∀ n, t.node? scope = some n → t'.node? scope =
    some { n with children := n.children ++ t.handleOf missing.length 0 }
  /-- All other nodes do not change at all. -/
  frame : ∀ j ≠ scope, (∀ i < missing.length, j ≠ t.handle i) → t'.node? j = t.node? j
  capacity : t'.arena.capacity = t.arena.capacity + missing.length

/-- A new child takes the next handle, so the ones after it move up. -/
theorem handle_sprout (t : ContentTree) (scope : NodeId) (key : Key) (i : Nat) :
    (t.sprout scope key).handle i = t.handle (i + 1) := by
  rw [handle, handle, capacity_sprout, Nat.add_right_comm, Nat.add_assoc]

theorem handleOf_sprout (t : ContentTree) (scope : NodeId) (key : Key) (count i : Nat) :
    (t.sprout scope key).handleOf count i = t.handleOf (count + 1) (i + 1) := by
  simp only [handleOf, handle_sprout, Nat.add_lt_add_iff_right]

theorem ne_handle_of_node? (hn : t.node? id = some n) (i : Nat) : id ≠ t.handle i := by
  rintro rfl
  exact Nat.not_lt.2 (Nat.le_add_right _ i) (index_lt_of_node? hn)

theorem Extended.refl (t : ContentTree) (scope : NodeId) : t.Extended t scope [] where
  made i h := absurd h (Nat.not_lt_zero i)
  listed n hn := by
    rw [hn]
    simp [handleOf]
  frame _ _ _ := rfl
  capacity := rfl

/-- A new node, and the others below it. -/
theorem Extended.sprout (hn : t.node? scope = some n)
    (h : (t.sprout scope key).Extended t' (t.handle 0) missing) :
    t.Extended t' scope (key :: missing) where
  made i hi := by
    cases i with
    | zero =>
      have hnew : (t.sprout scope key).node? (t.handle 0) =
          some { Node.bare key with parent := some scope } := by
        rw [node?_sprout hn]
        exact if_pos rfl
      rw [h.listed _ hnew, handleOf_sprout]
      rfl
    | succ i =>
      have hmade := h.made i (Nat.lt_of_succ_lt_succ hi)
      rw [handle_sprout, handle_sprout, handleOf_sprout] at hmade
      rw [hmade]
      cases i with
      | zero => rfl
      | succ i => rfl
  listed m hm := by
    obtain rfl := Option.some.inj (hn.symm.trans hm)
    rw [h.frame scope (ne_handle_of_node? hn 0) fun i _ ↦ ?_, node?_sprout_parent hn]
    · rfl
    · rw [handle_sprout]
      exact ne_handle_of_node? hn (i + 1)
  frame j hscope hnew := by
    have hfirst : j ≠ t.handle 0 := hnew 0 (Nat.zero_lt_succ _)
    rw [h.frame j hfirst fun i hi ↦ ?_, node?_sprout hn, if_neg hscope]
    · exact if_neg hfirst
    · rw [handle_sprout]
      exact hnew (i + 1) (Nat.succ_lt_succ hi)
  capacity := by
    rw [h.capacity, capacity_sprout, List.length_cons, Nat.add_right_comm, Nat.add_assoc]

/-! ### What a walk makes -/

namespace Linked

/-- Below a node that a key finds nothing below, it and all keys after it are missing. -/
theorem extended_followOrCreate (ht : t.Linked) (hlive : t.isLive scope)
    (hnone : t.findChild? scope key = none) (keys : List Key) :
    t.Extended (t.followOrCreate scope (key :: keys)).2 scope (key :: keys) := by
  induction keys generalizing t scope key with
  | nil =>
    obtain ⟨n, hn⟩ := isLive_iff.1 hlive
    rw [followOrCreate_cons, ht.childOrCreate_eq_sprout hn hnone]
    exact .sprout hn (.refl _ _)
  | cons next keys ih =>
    obtain ⟨n, hn⟩ := isLive_iff.1 hlive
    have hnew : (t.sprout scope key).node? (t.create key).1 =
        some { Node.bare key with parent := some scope } := by
      rw [node?_sprout hn, if_pos rfl]
    -- a new node has no children for the next key to find
    have hbare : (t.sprout scope key).findChild? (t.create key).1 next = none := by
      rw [ContentTree.findChild?, childIds_eq hnew]
      rfl
    rw [followOrCreate_cons, ht.childOrCreate_eq_sprout hn hnone]
    exact .sprout hn (ih (ht.sprout hn key) (isLive_iff.2 ⟨_, hnew⟩) hbare)

/-- A walk follows the keys that find a node, and makes nodes for all others. -/
theorem exists_extended_followOrCreate (ht : t.Linked) (hlive : t.isLive id) (keys : List Key) :
    ∃ found missing scope, keys = found ++ missing ∧ t.follow? id found = some scope ∧
      (∀ key ∈ missing.head?, t.findChild? scope key = none) ∧
      t.Extended (t.followOrCreate id keys).2 scope missing := by
  induction keys generalizing id with
  | nil => exact ⟨[], [], id, rfl, rfl, nofun, .refl t id⟩
  | cons key keys ih =>
    cases hfind : t.findChild? id key with
    | none =>
      refine ⟨[], key :: keys, id, rfl, rfl, ?_, ht.extended_followOrCreate hlive hfind keys⟩
      rintro _ ⟨⟩
      exact hfind
    | some child =>
      obtain ⟨-, m, hm, -⟩ := findChild?_eq_some hfind
      obtain ⟨found, missing, scope, rfl, hfollow, hnone, hextended⟩ :=
        ih (isLive_iff.2 ⟨m, hm⟩)
      refine ⟨key :: found, missing, scope, rfl, ?_, hnone, ?_⟩
      · rw [follow?_cons, hfind]
        exact hfollow
      · rw [followOrCreate_cons, ContentTree.childOrCreate, hfind]
        exact hextended

end Linked

/-- A path is refused only if it is malformed. -/
theorem pathOrCreate?_eq_none_iff {path : String} :
    t.pathOrCreate? id path = none ↔ ¬ PathText path.toList := by
  rw [pathOrCreate?, Option.map_eq_none_iff, DottedPath.parse_eq_none_iff]

/-- **Making a path agrees with finding it**, below a live node of a tree that can be reached. A
malformed path is refused, and nothing changes. At any other path there is a node then, the one that
is found there, and making the path once more gives the same node and changes nothing. The keys of
the path that find nothing get new nodes, each as the last child of its scope, and everything that
was there stays as it was. -/
theorem pathOrCreate?_agrees_with_find? (ht : t.Reachable) {parent : NodeId}
    (hlive : t.isLive parent) (path : String) :
    (t.pathOrCreate? parent path = none ↔ ¬ PathText path.toList) ∧
    (¬ PathText path.toList → (Call.pathOrCreate parent path).apply t = t) ∧
    (PathText path.toList → ∃ id t', t.pathOrCreate? parent path = some (id, t') ∧
      t'.find? parent path = some id ∧ t'.pathOrCreate? parent path = some (id, t') ∧
      ∃ p found missing scope, DottedPath.parse path = some p ∧ p.keys = found ++ missing ∧
        t.follow? parent found = some scope ∧
        (∀ key ∈ missing.head?, t.findChild? scope key = none) ∧
        t.Extended t' scope missing) := by
  refine ⟨pathOrCreate?_eq_none_iff, fun hpath ↦ ?_, fun hpath ↦ ?_⟩
  · rw [Call.apply, pathOrCreate?_eq_none_iff.2 hpath]
    rfl
  · have hparse : DottedPath.parse path ≠ none :=
      fun hnone ↦ DottedPath.parse_eq_none_iff.1 hnone hpath
    obtain ⟨p, hp⟩ := Option.ne_none_iff_exists'.1 hparse
    have hfollow := ht.linked.follow?_followOrCreate hlive p.keys
    obtain ⟨found, missing, scope, hkeys, hscope, hnone, hextended⟩ :=
      ht.linked.exists_extended_followOrCreate hlive p.keys
    refine ⟨(t.followOrCreate parent p.keys).1, (t.followOrCreate parent p.keys).2, ?_, ?_, ?_,
      p, found, missing, scope, hp, hkeys, hscope, hnone, hextended⟩
    · rw [pathOrCreate?, hp]
      rfl
    · rw [find?, hp]
      exact hfollow
    · rw [pathOrCreate?, hp, Option.map_some, followOrCreate_of_follow? hfollow]

/-- A path whose first key finds a node with a category, and whose other keys find nothing. -/
theorem pathOrCreate?_agrees_with_find?_of_archer :
    let t := Call.run new [.childOrCreate root ⟨"archer", some "unit"⟩]
    t.Reachable ∧ t.isLive root ∧ t.pathOrCreate? root "archer..bow" = none ∧
      PathText "archer.bow.item:string".toList ∧
      ∃ t', t.pathOrCreate? root "archer.bow.item:string" = some (⟨3⟩, t') ∧
        t'.find? root "archer.bow.item:string" = some ⟨3⟩ ∧
        t'.subtree root = [root, ⟨1⟩, ⟨2⟩, ⟨3⟩] := by
  intro t
  have hreachable : t.Reachable := Call.reachable_run .new _
  have hlive : t.isLive root := by decide
  have hpath : PathText "archer.bow.item:string".toList := by decide +kernel
  obtain ⟨hmalformed, -, -⟩ := pathOrCreate?_agrees_with_find? hreachable hlive "archer..bow"
  obtain ⟨-, -, hmade⟩ :=
    pathOrCreate?_agrees_with_find? hreachable hlive "archer.bow.item:string"
  obtain ⟨id, t', heq, hfind, -⟩ := hmade hpath
  have hseen : (t.pathOrCreate? root "archer.bow.item:string").map
      (fun made ↦ (made.1, made.2.subtree root)) = some (⟨3⟩, [root, ⟨1⟩, ⟨2⟩, ⟨3⟩]) := by
    decide +kernel
  rw [heq, Option.map_some, Option.some.injEq, Prod.mk.injEq] at hseen
  obtain ⟨rfl, hsubtree⟩ := hseen
  exact ⟨hreachable, hlive, hmalformed.2 (by decide +kernel), hpath, t', heq, hfind, hsubtree⟩

end ContentTree

end ModContent
