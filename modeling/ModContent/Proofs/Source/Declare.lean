import ModContent.Package
import ModContent.Proofs.Tree.Tidy

/-!
# Declaring a statement

A declaration inserts a property in one node and changes nothing else in the tree
(`Content.tree_declare`). It drops what waited in the slot of the property, and a reference waits
there in turn (`Content.queue_declare`).
-/

namespace ModContent

namespace Content

variable {content : Content} {id : NodeId} {s : Statement} {location : Location} {node : Node}

@[simp] theorem key_declaredProperty (s : Statement) : (declaredProperty s).key = s.key := by
  rw [declaredProperty]
  cases s.value <;> rfl

/-- The tree after a declaration. -/
theorem tree_declare (content : Content) (id : NodeId) (s : Statement) (location : Location) :
    (content.declare id s location).tree =
      content.tree.modify id fun node ↦ node.insert (declaredProperty s) := by
  rw [declare]
  cases hnode : content.tree.node? id with
  | none =>
    refine (ContentTree.eq_of_node?_eq (ContentTree.capacity_modify ..) fun j ↦ ?_).symm
    rw [ContentTree.node?_modify]
    split
    · next heq => rw [heq, hnode, Option.map_none]
    · rfl
  | some node => rfl

@[simp] theorem isLive_declare (content : Content) (id : NodeId) (s : Statement)
    (location : Location) (j : NodeId) :
    (content.declare id s location).tree.isLive j = content.tree.isLive j := by
  rw [tree_declare, ContentTree.isLive_modify]

/-- Every reference in the queue waits in a slot that is there. -/
def Seated (content : Content) : Prop := ∀ r ∈ content.queue, (content.tree.slot? r.place).isSome

/-- The queue after a declaration: the slot waits if and only if it was given a reference. -/
theorem queue_declare (h : content.Seated) (hnode : content.tree.node? id = some node) :
    (content.declare id s location).queue =
      Reference.cancel content.queue (id, node.slotFor s.key) ++
        match s.value with
        | .values _ => []
        | .reference path => [⟨id, node.slotFor s.key, path, location⟩] := by
  -- a slot that is not there yet is not in the queue
  have hkept : (if (node.replaced? s.key).isSome
      then Reference.cancel content.queue (id, node.slotFor s.key) else content.queue) =
      Reference.cancel content.queue (id, node.slotFor s.key) := by
    split
    · rfl
    · next hnew =>
      refine (List.filter_eq_self.2 fun r hr ↦ bne_iff_ne.2 fun heq ↦ hnew ?_).symm
      obtain ⟨p, hp⟩ := Option.isSome_iff_exists.1 (h r hr)
      rw [heq, ContentTree.slot?_eq_some_iff] at hp
      obtain ⟨n, hn, hi⟩ := hp
      obtain rfl := Option.some.inj (hnode.symm.trans hn)
      rw [Node.replaced?, hi]
      rfl
  simp only [declare, hnode, hkept]
  cases s.value with
  | values values => exact (List.append_nil _).symm
  | reference path => rfl

end Content

end ModContent
