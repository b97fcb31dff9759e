import ModContent.Proofs.Tree.Calls
import ModContent.Proofs.Tree.Lookup

/-!
# Places and properties at a path

A path is followed in two ways. A reference needs the place of a property, so it goes from handle to
handle and ends with a slot (`locate?`); every handle on the way must be live. A reader wants the
property itself, so it goes from node to node, and passes over what is not there (`property?`).

In a linked tree no handle on the way is dead. The search with look-ups that fail at one
(`locateAt`) therefore does not fail (`Linked.locateAt_eq_ok`), and both ways lead to the same
property (`Linked.property?_root_eq`). A single step is the same in both, and a child that is found
is seen with its own node (`childNode?_eq_some_iff`).
-/

namespace ModContent

namespace ContentTree

variable {t : ContentTree} {id child : NodeId} {key : Key} {n : Node}

/-! ### Looking under live handles only -/

/-- The node that keys lead to, each child searched for under handles that must be live. -/
def followAt (t : ContentTree) (id : NodeId) : List Key → Except NodeId (Option NodeId)
  | [] => .ok (some id)
  | key :: keys => do
    match ← t.searchAt key (t.childIds id) with
    | some child => t.followAt child keys
    | none => return none

/-- `locate?`, with every handle on the way looked under, that of the owner included. It fails, with
the handle, when one is dead. -/
def locateAt (t : ContentTree) (path : String) : Except NodeId (Option (NodeId × Nat)) :=
  match DottedPath.parse path with
  | none => .ok none
  | some path => do
    match ← t.followAt root path.nodes with
    | some owner =>
      let node ← t.nodeAt owner
      return (node.slot? path.last).map fun slot ↦ (owner, slot)
    | none => return none

namespace Linked

/-- Following keys does not fail in a linked tree. -/
theorem followAt_eq_ok (ht : t.Linked) (id : NodeId) (keys : List Key) :
    t.followAt id keys = .ok (keys.foldlM t.findChild? id) := by
  induction keys generalizing id with
  | nil => rfl
  | cons key keys ih =>
    rw [followAt, ht.sound.findChildAt, List.foldlM_cons]
    cases t.findChild? id key with
    | none => rfl
    | some child => exact ih child

/-- What keys lead to from the root is live. -/
theorem exists_node?_of_root (ht : t.Linked) {keys : List Key} {owner : NodeId}
    (h : t.follow? root keys = some owner) : ∃ node, t.node? owner = some node := by
  by_cases hroot : owner = root
  · rw [hroot]
    exact isLive_iff.1 ht.live
  · exact exists_node?_of_follow? h hroot

/-- **No dead handle is met** on the way to a place. -/
theorem locateAt_eq_ok (ht : t.Linked) (path : String) :
    t.locateAt path = .ok (t.locate? path) := by
  rw [locateAt, locate?]
  cases DottedPath.parse path with
  | none => rfl
  | some path =>
    show (t.followAt root path.nodes >>= _) = _
    rw [ht.followAt_eq_ok]
    show _ = Except.ok ((path.nodes.foldlM t.findChild? root).bind _)
    cases hfollow : path.nodes.foldlM t.findChild? root with
    | none => rfl
    | some owner =>
      obtain ⟨node, hnode⟩ := ht.exists_node?_of_root ((t.follow?_eq root _).trans hfollow)
      show (t.nodeAt owner >>= _) = Except.ok ((t.node? owner).bind _)
      rw [nodeAt_eq_ok hnode, hnode]
      show Except.ok ((node.slot? path.last).map _) = Except.ok ((node.slot? path.last).bind _)
      rw [Option.map_eq_bind]
      rfl

/-- **The property at a path** is the one in the slot at that path. -/
theorem property?_root_eq (ht : t.Linked) (path : String) :
    t.property? root path = (t.locate? path).bind t.slot? := by
  rw [ht.property?_root, ht.locate?_bind_slot?]

/-- A place that is found at a path is that of the property there. -/
theorem exists_property?_of_locate? (ht : t.Linked) {path : String} {place : NodeId × Nat}
    (h : t.locate? path = some place) :
    ∃ p, t.slot? place = some p ∧ t.property? root path = some p := by
  obtain ⟨p, hp⟩ := exists_slot?_of_locate? h
  exact ⟨p, hp, by rw [ht.property?_root_eq, h, Option.bind_some, hp]⟩

/-- A property that is found at a path has a place, which is found there too. -/
theorem exists_locate?_of_property? (ht : t.Linked) {path : String} {p : Property}
    (h : t.property? root path = some p) :
    ∃ place, t.locate? path = some place ∧ t.slot? place = some p := by
  rw [ht.property?_root_eq] at h
  exact Option.bind_eq_some_iff.1 h

end Linked

/-- The child seen is the one found, with its node. -/
theorem childNode?_eq_some_iff :
    t.childNode? id key = some (child, n) ↔
      t.findChild? id key = some child ∧ t.node? child = some n := by
  rw [childNode?_eq, Option.bind_eq_some_iff]
  constructor
  · rintro ⟨c, hc, hnode⟩
    obtain ⟨m, hm, heq⟩ := Option.map_eq_some_iff.1 hnode
    obtain ⟨rfl, rfl⟩ := Prod.mk.inj heq
    exact ⟨hc, hm⟩
  · rintro ⟨hc, hn⟩
    exact ⟨child, hc, by rw [hn, Option.map_some]⟩

end ContentTree

end ModContent
