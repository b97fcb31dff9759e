import ModContent.Proofs.Tree.Outline
import ModContent.Proofs.Tree.Walks

/-!
# Calls on a tree

A tree is changed by calls (`ContentTree.Call`), each with any handles, live or dead; a call that is
refused changes nothing. After any calls on a new tree the links between its nodes are in order, the
loops through it end, and no operation looks under a dead handle (`sound_of_calls`).

The last is said of the operations written with look-ups that fail at a dead handle (`nodeAt`,
`updateAt`). They never fail, and do what the operations do.
-/

namespace ModContent

namespace Node

/-- Lists one child more. -/
def listing (child : NodeId) (n : Node) : Node := { n with children := n.children ++ [child] }

/-- Lists a child no longer. -/
def unlisting (child : NodeId) (n : Node) : Node :=
  { n with children := n.children.filter (· ≠ child) }

/-- Names another parent, or none. -/
def under (parent : Option NodeId) (n : Node) : Node := { n with parent }

end Node

namespace ContentTree

variable {t : ContentTree} {id parent child : NodeId} {n : Node}

/-! ### Looking under handles that must be live -/

/-- The node under a handle. It fails, with the handle, when that is dead. -/
def nodeAt (t : ContentTree) (id : NodeId) : Except NodeId Node :=
  match t.node? id with
  | some node => .ok node
  | none => .error id

/-- Changes the node under a handle, and fails when that is dead. -/
def updateAt (t : ContentTree) (id : NodeId) (f : Node → Node) : Except NodeId ContentTree :=
  (t.nodeAt id).map fun _ ↦ t.modify id f

/-- The first of the nodes under these handles that the key accepts. -/
def searchAt (t : ContentTree) (key : Key) : List NodeId → Except NodeId (Option NodeId)
  | [] => .ok none
  | id :: rest => do
    let node ← t.nodeAt id
    if key.accepts node.key then return some id else t.searchAt key rest

/-- `detach?`, with the node looked up again when its parent no longer lists it. -/
def detachAt (t : ContentTree) (id : NodeId) : Except NodeId (Option ContentTree) :=
  match t.parent? id with
  | none => .ok none
  | some parent => ((t.modify parent (Node.unlisting id)).updateAt id (Node.under none)).map some

/-- `addChild?`, with both nodes looked up again when the child is detached. -/
def addChildAt (t : ContentTree) (parent child : NodeId) : Except NodeId (Option ContentTree) :=
  if t.isLive parent && t.isLive child && child ≠ root && !(t.lineage parent).contains child then do
    let detached ← t.detachAt child
    let listed ← (detached.getD t).updateAt parent (Node.listing child)
    return some (← listed.updateAt child (Node.under (some parent)))
  else .ok none

/-- Looking at a node under a live id does not fail. -/
theorem nodeAt_eq_ok (h : t.node? id = some n) : t.nodeAt id = .ok n := by
  rw [nodeAt, h]

theorem updateAt_eq_ok (h : t.isLive id) (f : Node → Node) :
    t.updateAt id f = .ok (t.modify id f) := by
  obtain ⟨n, hn⟩ := isLive_iff.1 h
  rw [updateAt, nodeAt_eq_ok hn]
  rfl

/-- A search among live nodes does not fail. -/
theorem searchAt_eq_ok {ids : List NodeId} (h : ∀ id ∈ ids, t.isLive id) (key : Key) :
    t.searchAt key ids =
      .ok (ids.find? fun id ↦ (t.node? id).any fun node ↦ key.accepts node.key) := by
  induction ids with
  | nil => rfl
  | cons id rest ih =>
    rw [List.forall_mem_cons] at h
    obtain ⟨n, hn⟩ := isLive_iff.1 h.1
    rw [searchAt, nodeAt_eq_ok hn, List.find?_cons, hn, Option.any_some]
    show (if key.accepts n.key = true then _ else _) = _
    cases key.accepts n.key with
    | true => rfl
    | false => exact ih h.2

theorem detachAt_eq_ok (t : ContentTree) (id : NodeId) : t.detachAt id = .ok (t.detach? id) := by
  rw [detachAt, detach?, unlink]
  cases hp : t.parent? id with
  | none => rfl
  | some p =>
    have hlive := (isLive_modify t p id (Node.unlisting id)).trans (isLive_of_parent? hp)
    simp only [updateAt_eq_ok hlive]
    rfl

/-- A node that has no parent is refused, and is off already. -/
theorem getD_detach? (t : ContentTree) (id : NodeId) : (t.detach? id).getD t = t.unlink id := by
  rw [detach?]
  cases hp : t.parent? id with
  | none =>
    rw [unlink, hp]
    rfl
  | some p => rfl

theorem addChildAt_eq_ok (t : ContentTree) (parent child : NodeId) :
    t.addChildAt parent child = .ok (t.addChild? parent child) := by
  rw [addChildAt, addChild?]
  split
  · next hguard =>
    simp only [Bool.and_eq_true] at hguard
    obtain ⟨⟨⟨hparent, hchild⟩, -⟩, -⟩ := hguard
    have hlisted := updateAt_eq_ok ((isLive_unlink t child parent).trans hparent)
      (Node.listing child)
    have hlinked := updateAt_eq_ok (((isLive_modify _ parent child (Node.listing child)).trans
      (isLive_unlink t child child)).trans hchild) (Node.under (some parent))
    rw [detachAt_eq_ok]
    show (do
      let listed ← ((t.detach? child).getD t).updateAt parent (Node.listing child)
      return some (← listed.updateAt child (Node.under (some parent)))) = _
    rw [getD_detach?, hlisted]
    show (((t.unlink child).modify parent (Node.listing child)).updateAt child _).map some = _
    rw [hlinked]
    rfl
  · rfl

/-! ### Calls -/

/-- A change of a node that touches its properties only. -/
structure PropertyEdit where
  edit : Node → Node
  keeps : ∀ n, (edit n).stem = n.stem

/-- A call that may change a tree. -/
inductive Call where
  | create (key : Key)
  | childOrCreate (parent : NodeId) (key : Key)
  | pathOrCreate (parent : NodeId) (path : String)
  | addChild (parent child : NodeId)
  | detach (id : NodeId)
  | remove (id : NodeId)
  | edit (id : NodeId) (change : PropertyEdit)

namespace Call

/-- The tree after a call. -/
def apply (t : ContentTree) : Call → ContentTree
  | create key => (t.create key).2
  | childOrCreate parent key => (t.childOrCreate parent key).2
  | pathOrCreate parent path => ((t.pathOrCreate? parent path).map Prod.snd).getD t
  | addChild parent child => (t.addChild? parent child).getD t
  | detach id => (t.detach? id).getD t
  | remove id => (t.remove? id).getD t
  | edit id change => t.modify id change.edit

/-- The tree after calls one after the other. -/
def run (t : ContentTree) (calls : List Call) : ContentTree := calls.foldl apply t

/-- One call leads from a tree that can be reached to another. -/
theorem reachable_apply (ht : t.Reachable) (call : Call) : (call.apply t).Reachable := by
  cases call with
  | create key => exact ht.create key
  | childOrCreate parent key => exact ht.childOrCreate parent key
  | pathOrCreate parent path =>
    rw [apply, pathOrCreate?]
    cases DottedPath.parse path with
    | none => exact ht
    | some path => exact ht.followOrCreate parent path.keys
  | addChild parent child =>
    rw [apply]
    cases hmoved : t.addChild? parent child with
    | none => exact ht
    | some moved => exact ht.addChild hmoved
  | detach id =>
    rw [apply]
    cases hdetached : t.detach? id with
    | none => exact ht
    | some detached => exact ht.detach hdetached
  | remove id =>
    rw [apply]
    cases hremoved : t.remove? id with
    | none => exact ht
    | some removed => exact ht.remove hremoved
  | edit id change => exact ht.edit change.keeps id

/-- Calls lead from reachable trees to reachable ones. -/
theorem reachable_run (ht : t.Reachable) (calls : List Call) : (run t calls).Reachable := by
  induction calls generalizing t with
  | nil => exact ht
  | cons call calls ih => exact ih (reachable_apply ht call)

end Call

/-! ### What holds after any calls -/

/-- The links of a tree are in order, and what relies on them works. -/
structure Sound (t : ContentTree) : Prop where
  /-- The root is live and has no parent. -/
  root : t.isLive root ∧ t.parent? root = none
  /-- A node names the node that lists it. -/
  parent : ∀ p c, t.parent? c = some p ↔ t.isLive p ∧ c ∈ t.childIds p
  /-- A node that is listed is live and listed once. -/
  listed : ∀ p, ∀ c ∈ t.childIds p, t.isLive c ∧ (t.childIds p).count c = 1
  /-- No node is its own ancestor. -/
  acyclic : ∀ id, ¬ Relation.TransGen t.IsParent id id
  /-- The search for an ancestor ends, and tells what `addChild?` asks. -/
  climb : ∀ ancestor id, Ends (t.climb ancestor) id ((t.lineage id).contains ancestor)
  /-- The search for the way to a node ends. -/
  ascend : ∀ id,
    Ends t.ascend ([id], id) (((t.lineage id).tail.filter (· ≠ ContentTree.root)).reverse ++ [id])
  /-- The loop of a removal ends with the tree that `remove?` gives. -/
  sweep : ∀ id, ∀ left ∈ t.remove? id, Ends ContentTree.sweep (t.unlink id, [id]) left
  /-- The walk through all nodes below the root ends, in preorder. -/
  visit : Ends t.visit ([], t.childIds ContentTree.root) (t.subtree ContentTree.root).tail
  /-- The outline of a node goes down to its last descendants. -/
  outline : ∀ id, t.outlineOf? id = (t.node? id).map fun node ↦
    .node node.key node.properties (node.children.filterMap t.outlineOf?)
  /-- No operation looks under a dead handle. -/
  findChildAt : ∀ id key, t.searchAt key (t.childIds id) = .ok (t.findChild? id key)
  detachAt : ∀ id, t.detachAt id = .ok (t.detach? id)
  addChildAt : ∀ parent child, t.addChildAt parent child = .ok (t.addChild? parent child)

theorem Linked.sound (ht : t.Linked) : t.Sound where
  root := ⟨ht.live, ht.top⟩
  parent p c := by
    rw [ht.links]
    exact ⟨fun h ↦ ⟨ht.isLive_parent h, h⟩, And.right⟩
  listed p c hc := ⟨isLive_of_parent? (ht.links.1 hc), List.count_eq_one_of_mem (ht.nodup p) hc⟩
  acyclic := ht.acyclic
  climb := ht.ends_climb
  ascend id := ht.ends_ascend id [id]
  sweep id left hleft := by
    obtain ⟨-, heq⟩ := Option.ite_none_right_eq_some.1 hleft
    obtain rfl := Option.some.inj heq
    exact (ht.unlink id).ends_sweep id
  visit := by
    rw [ht.subtree_eq, List.tail_cons]
    exact ht.ends_visit [] _
  outline := ht.outlineOf?_eq
  findChildAt id key := searchAt_eq_ok (fun c hc ↦ isLive_of_parent? (ht.links.1 hc)) key
  detachAt := t.detachAt_eq_ok
  addChildAt := t.addChildAt_eq_ok

/-- **After any calls on a new tree** its links are in order, the loops through it end and no
operation looks under a dead handle. -/
theorem sound_of_calls (calls : List Call) : (Call.run new calls).Sound :=
  (Call.reachable_run .new calls).linked.sound

end ContentTree

end ModContent
