import ModContent.Proofs.Tree.Linked

/-!
# Loops over a tree

Four loops go through a tree one node at a time: up from a node until an ancestor is found
(`climb`) or for the way that leads to the node (`ascend`), down from a node to remove it with all
that lies below it (`sweep`), and down from some nodes in preorder (`visit`). A loop takes steps
until one of them gives the result (`Ends`), and nothing in it bounds how many.

In a linked tree all four end, and give what the bounded walks of the tree give. The loops up go by
induction from the parent of a node to the node (`Linked.induction_up`), the loops down by induction
from its children. In both the walk of a node is told by those of its neighbours, without a bound
(`Linked.lineage_eq`, `Linked.subtree_eq`).
-/

namespace ModContent

/-- A loop that goes from state to state until a step gives the result. -/
inductive Ends {σ ρ : Type} (step : σ → σ ⊕ ρ) : σ → ρ → Prop
  | stop {s : σ} {r : ρ} (last : step s = .inr r) : Ends step s r
  | next {s n : σ} {r : ρ} (onward : step s = .inl n) (rest : Ends step n r) : Ends step s r

namespace ContentTree

variable {t u result : ContentTree} {id p : NodeId} {doomed siblings : List NodeId}

/-! ### The walks without their bounds -/

namespace Linked

/-- Induction from the parent of a node to the node. -/
theorem induction_up {motive : NodeId → Prop} (ht : t.Linked)
    (step : ∀ id, (∀ p, t.IsParent p id → motive p) → motive id) (id : NodeId) : motive id := by
  obtain ⟨depth, hup, -⟩ := ht.exists_depth
  induction hdepth : depth id using Nat.strong_induction_on generalizing id with
  | _ k ih => exact step id fun p hp ↦ ih (depth p) (hdepth ▸ hup hp) p rfl

/-- A node and then the lineage of its parent. -/
theorem lineage_eq (ht : t.Linked) (id : NodeId) :
    t.lineage id = id :: ((t.parent? id).map t.lineage).getD [] := by
  obtain ⟨depth, hup, hbound⟩ := ht.exists_depth
  -- a bound beyond the depth of a node does not matter
  have hfuel : ∀ fuel id, depth id ≤ fuel →
      t.lineageWithin (fuel + 1) id = t.lineageWithin fuel id := by
    intro fuel
    induction fuel with
    | zero =>
      intro id hid
      cases hp : t.parent? id with
      | none => simp [lineageWithin, hp]
      | some p => exact absurd (hup hp) (by omega)
    | succ fuel ih =>
      intro id hid
      rw [lineageWithin, lineageWithin]
      cases hp : t.parent? id with
      | none => rfl
      | some p =>
        have hlt := hup hp
        simp only [ih p (by omega)]
  cases hp : t.parent? id with
  | none => cases hcapacity : t.arena.capacity <;> simp [lineage, hcapacity, lineageWithin, hp]
  | some p =>
    have hlt := hup hp
    have hlive := hbound (isLive_of_parent? hp)
    obtain ⟨fuel, hcapacity⟩ : ∃ k, t.arena.capacity = k + 1 := ⟨t.arena.capacity - 1, by omega⟩
    simp only [lineage, hcapacity, Option.map_some, Option.getD_some]
    rw [hfuel fuel p (by omega), lineageWithin, hp]

/-- A node and then the subtrees of its children. -/
theorem subtree_eq (ht : t.Linked) (id : NodeId) :
    t.subtree id = id :: (t.childIds id).flatMap t.subtree := by
  obtain ⟨height, hdown, hbound⟩ := ht.exists_height
  -- a bound beyond the height of a node does not matter
  have hfuel : ∀ fuel id, height id ≤ fuel →
      t.subtreeWithin (fuel + 1) id = t.subtreeWithin fuel id := by
    intro fuel
    induction fuel with
    | zero =>
      intro id hid
      have hchildren : t.childIds id = [] :=
        List.eq_nil_iff_forall_not_mem.2 fun c hc ↦ absurd (hdown (ht.links.1 hc)) (by omega)
      simp [subtreeWithin, hchildren]
    | succ fuel ih =>
      intro id hid
      rw [subtreeWithin, subtreeWithin]
      congr 1
      refine List.flatMap_congr fun c hc ↦ ih c ?_
      have hlt := hdown (ht.links.1 hc)
      omega
  cases hchildren : t.childIds id with
  | nil => cases hcapacity : t.arena.capacity <;>
      simp [subtree, hcapacity, subtreeWithin, hchildren]
  | cons first rest =>
    have hlive := hbound (isLive_of_mem_childIds (hchildren ▸ List.mem_cons_self))
    obtain ⟨fuel, hcapacity⟩ : ∃ k, t.arena.capacity = k + 1 := ⟨t.arena.capacity - 1, by omega⟩
    rw [← hchildren, subtree, hcapacity, subtreeWithin]
    congr 1
    refine List.flatMap_congr fun c hc ↦ ?_
    have hlt := hdown (ht.links.1 hc)
    rw [subtree, hcapacity, hfuel fuel c (by omega)]

end Linked

/-! ### Up -/

/-- One step up from a node in search of an ancestor. -/
def climb (t : ContentTree) (ancestor id : NodeId) : NodeId ⊕ Bool :=
  if id = ancestor then .inr true
  else
    match t.parent? id with
    | some parent => .inl parent
    | none => .inr false

/-- One step up for the nodes on the way to a node, the root left out. -/
def ascend (t : ContentTree) : List NodeId × NodeId → (List NodeId × NodeId) ⊕ List NodeId
  | (way, id) =>
    match t.parent? id with
    | some parent => if parent = root then .inr way else .inl (parent :: way, parent)
    | none => .inr way

namespace Linked

/-- The search for an ancestor ends, and finds it if it stands in the lineage. -/
theorem ends_climb (ht : t.Linked) (ancestor id : NodeId) :
    Ends (t.climb ancestor) id ((t.lineage id).contains ancestor) := by
  induction id using ht.induction_up with
  | step id ih =>
    rw [ht.lineage_eq]
    by_cases hid : id = ancestor
    · refine .stop ?_
      simp [climb, hid]
    · cases hp : t.parent? id with
      | none =>
        refine .stop ?_
        simp [climb, hid, hp, Ne.symm hid]
      | some p =>
        refine .next (n := p) (by simp [climb, hid, hp]) ?_
        simpa [Ne.symm hid] using ih p hp

/-- The way to a node is found: the node and its ancestors but the root. -/
theorem ends_ascend (ht : t.Linked) (id : NodeId) (way : List NodeId) :
    Ends t.ascend (way, id)
      (((t.lineage id).tail.filter (· ≠ root)).reverse ++ way) := by
  induction id using ht.induction_up generalizing way with
  | step id ih =>
    rw [ht.lineage_eq, List.tail_cons]
    cases hp : t.parent? id with
    | none => exact .stop (by simp [ascend, hp])
    | some p =>
      by_cases hroot : p = root
      · refine .stop ?_
        simp [ascend, hp, hroot, ht.lineage_eq root, ht.top]
      · refine .next (n := (p :: way, p)) (by simp [ascend, hp, hroot]) ?_
        have hrest := ih p hp (p :: way)
        rw [Option.map_some, Option.getD_some]
        rw [ht.lineage_eq p] at hrest ⊢
        simpa [hroot] using hrest

end Linked

/-! ### Down in preorder -/

/-- One step down: the first node that waits is taken, and its children wait before the others. -/
def visit (t : ContentTree) :
    List NodeId × List NodeId → (List NodeId × List NodeId) ⊕ List NodeId
  | (seen, []) => .inr seen
  | (seen, id :: waiting) => .inl (seen ++ [id], t.childIds id ++ waiting)

/-- A node that waits is followed by its subtree. -/
theorem Linked.ends_visit_cons (ht : t.Linked) (id : NodeId) {seen waiting all : List NodeId}
    (h : Ends t.visit (seen ++ t.subtree id, waiting) all) :
    Ends t.visit (seen, id :: waiting) all := by
  induction id using ht.induction generalizing seen waiting with
  | step id ih =>
    refine .next (n := (seen ++ [id], t.childIds id ++ waiting)) rfl ?_
    rw [ht.subtree_eq] at h
    -- the children follow one another
    suffices hsiblings : ∀ siblings seen, (∀ c ∈ siblings, t.IsParent id c) →
        Ends t.visit (seen ++ siblings.flatMap t.subtree, waiting) all →
        Ends t.visit (seen, siblings ++ waiting) all from
      hsiblings (t.childIds id) (seen ++ [id]) (fun c hc ↦ ht.links.1 hc) (by simpa using h)
    intro siblings
    induction siblings with
    | nil => intro seen _ h; simpa using h
    | cons c rest ihrest =>
      intro seen hchild h
      rw [List.forall_mem_cons] at hchild
      refine ih c hchild.1 (ihrest _ hchild.2 ?_)
      simpa using h

/-- The walk down ends with the subtrees of the nodes that waited, one after the other. -/
theorem Linked.ends_visit (ht : t.Linked) (seen waiting : List NodeId) :
    Ends t.visit (seen, waiting) (seen ++ waiting.flatMap t.subtree) := by
  induction waiting generalizing seen with
  | nil => exact .stop (by simp [visit])
  | cons id waiting ih =>
    refine ht.ends_visit_cons id ?_
    simpa using ih (seen ++ t.subtree id)

/-! ### Down to remove -/

/-- The tree without the nodes under these handles. -/
def without (t : ContentTree) (ids : List NodeId) : ContentTree :=
  ⟨ids.foldl Arena.erase t.arena⟩

/-- Nodes that are taken away are gone, and the others stay. -/
theorem node?_without (t : ContentTree) (ids : List NodeId) (j : NodeId) :
    (t.without ids).node? j = if j ∈ ids then none else t.node? j :=
  get?_foldl_erase ids t.arena j

@[simp] theorem capacity_without (t : ContentTree) (ids : List NodeId) :
    (t.without ids).arena.capacity = t.arena.capacity := by
  rw [without]
  induction ids generalizing t with
  | nil => rfl
  | cons id ids ih =>
    rw [List.foldl_cons]
    refine (ih ⟨t.arena.erase id⟩).trans ?_
    simp [Arena.capacity, Arena.erase]

theorem without_append (t : ContentTree) (ids ids' : List NodeId) :
    t.without (ids ++ ids') = (t.without ids).without ids' := by
  rw [without, without, without, List.foldl_append]

/-- In which order nodes go does not matter. -/
theorem without_eq_of_perm {ids ids' : List NodeId} (h : ids.Perm ids') :
    t.without ids = t.without ids' := by
  refine eq_of_node?_eq (by simp) fun j ↦ ?_
  simp only [node?_without, h.mem_iff]

/-- One step of a removal: the last node that was found goes, and its children are found. -/
def sweep : ContentTree × List NodeId → (ContentTree × List NodeId) ⊕ ContentTree
  | (t, []) => .inr t
  | (t, id :: doomed) =>
    match t.node? id with
    | some removed => .inl (t.without [id], removed.children.reverse ++ doomed)
    | none => .inl (t, doomed)

/-- A node that was found goes with its subtree, in any tree that still has all of it. -/
def Swept (t : ContentTree) (id : NodeId) : Prop :=
  ∀ {u result : ContentTree} {doomed : List NodeId}, (∀ j, t.Below id j → u.node? j = t.node? j) →
    Ends sweep (u.without (t.subtree id), doomed) result → Ends sweep (u, id :: doomed) result

namespace Linked

/-- Children of one node go one after the other; the first takes nothing that is below the
others. -/
theorem ends_sweep_siblings (ht : t.Linked) (hswept : ∀ c ∈ siblings, t.Swept c)
    (hchild : ∀ c ∈ siblings, t.IsParent p c) (hnodup : siblings.Nodup)
    (hsame : ∀ c ∈ siblings, ∀ j, t.Below c j → u.node? j = t.node? j)
    (h : Ends sweep (u.without (siblings.flatMap t.subtree), doomed) result) :
    Ends sweep (u, siblings ++ doomed) result := by
  induction siblings generalizing u with
  | nil => exact h
  | cons c rest ih =>
    rw [List.forall_mem_cons] at hswept hchild hsame
    obtain ⟨hnot, hrest⟩ := List.nodup_cons.1 hnodup
    refine hswept.1 hsame.1 (ih hswept.2 hchild.2 hrest (fun c' hc' j hj ↦ ?_) ?_)
    · rw [node?_without, if_neg, hsame.2 c' hc' j hj]
      intro hmem
      have hbelow := ht.below_of_mem_subtreeWithin hmem
      exact hnot (ht.eq_of_below hchild.1 (hchild.2 c' hc') hbelow hj ▸ hc')
    · rwa [← without_append, ← List.flatMap_cons]

/-- In a linked tree a walk sweeps all that is below a node. -/
theorem swept (ht : t.Linked) (id : NodeId) : t.Swept id := by
  induction id using ht.induction with
  | step id ih =>
    intro u result doomed hsame h
    have hid := hsame id .refl
    cases hn : t.node? id with
    | none =>
      -- nothing is there, so nothing goes
      have hsubtree : t.subtree id = [id] := by
        rw [ht.subtree_eq, childIds, hn]
        rfl
      have hu : u.without [id] = u := by
        refine eq_of_node?_eq (by simp) fun j ↦ ?_
        rw [node?_without]
        split
        · next hj => rw [List.mem_singleton.1 hj, hid, hn]
        · rfl
      rw [hsubtree, hu] at h
      exact .next (by rw [sweep, hid, hn]) h
    | some n =>
      refine .next (n := (u.without [id], n.children.reverse ++ doomed))
        (by rw [sweep, hid, hn]) ?_
      have hchild : ∀ c ∈ n.children.reverse, t.IsParent id c :=
        fun c hc ↦ (ht.mem_children_iff hn).1 (List.mem_reverse.1 hc)
      refine ht.ends_sweep_siblings (p := id) (fun c hc ↦ ih c (hchild c hc)) hchild ?_ ?_ ?_
      · rw [List.nodup_reverse, ← childIds_eq hn]
        exact ht.nodup id
      · intro c hc j hj
        rw [node?_without, if_neg, hsame j (.head (hchild c hc) hj)]
        rintro hj'
        obtain rfl := List.mem_singleton.1 hj'
        exact ht.not_below_of_isParent (hchild c hc) hj
      · rw [ht.subtree_eq, childIds_eq hn, ← List.singleton_append, without_append,
          without_eq_of_perm ((List.reverse_perm n.children).flatMap_right t.subtree).symm] at h
        exact h

/-- The loop of a removal ends, and what is left is the tree without the subtree. -/
theorem ends_sweep (ht : t.Linked) (id : NodeId) :
    Ends sweep (t, [id]) (t.without (t.subtree id)) :=
  ht.swept id (fun _ _ ↦ rfl) (.stop rfl)

end Linked

end ContentTree

end ModContent
