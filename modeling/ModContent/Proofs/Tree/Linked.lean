import Mathlib.Data.Finset.Card
import Mathlib.Logic.Relation
import ModContent.Proofs.Tree.Sprout

/-!
# Linked trees

In a tree the links between nodes lead both ways, and no node is its own ancestor (`Linked`). That
bounds how far one can go up and down, so the walks of the tree reach all ancestors
(`mem_lineage_iff`) and all descendants (`mem_subtree_iff`), and there is an induction from the
children of a node to the node (`Linked.induction`).

Every tree that its operations can make of a new one is linked (`Reachable.linked`).
-/

namespace ModContent

open Relation

namespace ContentTree

variable {t t' : ContentTree} {id parent child : NodeId} {key : Key} {n : Node}

/-- The second node names the first as its parent. -/
def IsParent (t : ContentTree) (p c : NodeId) : Prop := t.parent? c = some p

/-- The second node is the first or lies below it. -/
def Below (t : ContentTree) (a b : NodeId) : Prop := ReflTransGen t.IsParent a b

/-- The root is there and has no parent, the nodes that name a parent are those that it lists, each
once, and no node is its own ancestor. -/
structure Linked (t : ContentTree) : Prop where
  live : t.isLive root
  top : t.parent? root = none
  links : ∀ {p c}, c ∈ t.childIds p ↔ t.parent? c = some p
  nodup : ∀ id, (t.childIds id).Nodup
  acyclic : ∀ id, ¬ TransGen t.IsParent id id

/-! ### Parents and children -/

theorem parent?_eq (h : t.node? id = some n) : t.parent? id = n.parent := by
  rw [parent?, h]
  rfl

/-- An id with a parent is live. -/
theorem isLive_of_parent? {p : NodeId} (h : t.parent? id = some p) : t.isLive id = true := by
  obtain ⟨n, hn, -⟩ := Option.bind_eq_some_iff.1 h
  exact isLive_iff.2 ⟨n, hn⟩

/-- An id with children is live. -/
theorem isLive_of_mem_childIds {c : NodeId} (h : c ∈ t.childIds id) : t.isLive id = true := by
  rw [childIds] at h
  cases hn : t.node? id with
  | none => simp [hn] at h
  | some n => exact isLive_iff.2 ⟨n, hn⟩

/-- A node has one parent at most. -/
theorem IsParent.unique {p p' c : NodeId} (h : t.IsParent p c) (h' : t.IsParent p' c) : p = p' :=
  Option.some.inj (h.symm.trans h')

/-- Two nodes that a third lies below lie one below the other. -/
theorem Below.total {a b c : NodeId} (ha : t.Below a c) (hb : t.Below b c) :
    t.Below a b ∨ t.Below b a := by
  have hunique : Relator.RightUnique (Function.swap t.IsParent) := fun _ _ _ h h' ↦ h.unique h'
  rcases ReflTransGen.total_of_right_unique hunique (reflTransGen_swap.2 ha)
    (reflTransGen_swap.2 hb) with h | h
  · exact .inr (reflTransGen_swap.1 h)
  · exact .inl (reflTransGen_swap.1 h)

/-- Below a live node lie live nodes. -/
theorem Below.isLive {a b : NodeId} (h : t.Below a b) (ha : t.isLive a) : t.isLive b = true := by
  rcases h.cases_tail with rfl | ⟨p, -, hp⟩
  · exact ha
  · exact isLive_of_parent? hp

/-- What lies below a node lies below it with its parent, but for the node itself. -/
theorem Below.of_isParent {a p c : NodeId} (h : t.Below a c) (hne : c ≠ a) (hp : t.IsParent p c) :
    t.Below a p := by
  rcases h.cases_tail with rfl | ⟨q, hq, hqc⟩
  · exact absurd rfl hne
  · exact hp.unique hqc ▸ hq

/-- Fewer links, fewer ancestors. -/
theorem Below.mono (h : ∀ p c, t'.IsParent p c → t.IsParent p c) {a b : NodeId}
    (hab : t'.Below a b) : t.Below a b :=
  ReflTransGen.mono h a b hab

namespace Linked

/-- The children of a node are those whose parent it is. -/
theorem mem_children_iff (ht : t.Linked) (hn : t.node? id = some n) {c : NodeId} :
    c ∈ n.children ↔ t.parent? c = some id := by
  rw [← ht.links, childIds_eq hn]

/-- The parent of a node is live. -/
theorem isLive_parent (ht : t.Linked) {p : NodeId} (h : t.parent? id = some p) :
    t.isLive p = true :=
  isLive_of_mem_childIds (ht.links.2 h)

/-- The root lies below no other node. -/
theorem not_below_root (ht : t.Linked) (hroot : id ≠ root) : ¬ t.Below id root := by
  intro h
  rcases h.cases_tail with hid | ⟨p, -, hp⟩
  · exact hroot hid.symm
  · cases ht.top.symm.trans hp

/-- A node does not lie below its children. -/
theorem not_below_of_isParent (ht : t.Linked) {p c : NodeId} (h : t.IsParent p c) :
    ¬ t.Below c p :=
  fun hbelow ↦ ht.acyclic c (TransGen.tail' hbelow h)

/-- What lies below two children of a node lies below one child. -/
theorem eq_of_below (ht : t.Linked) {p a b c : NodeId} (ha : t.IsParent p a)
    (hb : t.IsParent p b) (hac : t.Below a c) (hbc : t.Below b c) : a = b := by
  have hnot : ∀ {a b}, t.IsParent p a → t.IsParent p b → t.Below a b → a = b := by
    intro a b ha hb hab
    rcases hab.cases_tail with rfl | ⟨q, haq, hq⟩
    · rfl
    · exact absurd (hq.unique hb ▸ haq) (ht.not_below_of_isParent ha)
  rcases hac.total hbc with hab | hba
  · exact hnot ha hb hab
  · exact (hnot hb ha hba).symm

end Linked

/-! ### Bounds -/

/-- A relation on handles below a bound that never returns goes down in rank. -/
theorem exists_rank {r : NodeId → NodeId → Prop} {bound : Nat}
    (hbound : ∀ {a b}, r a b → b.index < bound) (hacyclic : ∀ a, ¬ TransGen r a a) :
    ∃ rank : NodeId → Nat, (∀ {a b}, r a b → rank b < rank a) ∧
      ∀ {a : NodeId}, a.index < bound → rank a < bound := by
  classical
  -- the rank of a node is the number of nodes that it leads to
  let reach (a : NodeId) := (Finset.range bound).filter fun i ↦ TransGen r a ⟨i⟩
  have hself : ∀ a : NodeId, a.index ∉ reach a :=
    fun a hmem ↦ hacyclic a (Finset.mem_filter.1 hmem).2
  refine ⟨fun a ↦ (reach a).card, fun {a b} hab ↦ Finset.card_lt_card ?_, fun {a} ha ↦ ?_⟩
  · refine (Finset.ssubset_iff_of_subset fun i hi ↦ ?_).2 ⟨b.index, ?_, hself b⟩
    · obtain ⟨hlt, hreach⟩ := Finset.mem_filter.1 hi
      exact Finset.mem_filter.2 ⟨hlt, .head hab hreach⟩
    · exact Finset.mem_filter.2 ⟨Finset.mem_range.2 (hbound hab), .single hab⟩
  · have hssub : reach a ⊂ Finset.range bound :=
      (Finset.ssubset_iff_of_subset (Finset.filter_subset _ _)).2
        ⟨a.index, Finset.mem_range.2 ha, hself a⟩
    have hlt := Finset.card_lt_card hssub
    rwa [Finset.card_range] at hlt

namespace Linked

/-- Live ids lie inside the arena. -/
theorem index_lt_of_isLive (hlive : t.isLive id) : id.index < t.arena.capacity := by
  obtain ⟨n, hn⟩ := isLive_iff.1 hlive
  exact index_lt_of_node? hn

/-- There are fewer levels below a node than handles. -/
theorem exists_height (ht : t.Linked) : ∃ height : NodeId → Nat,
    (∀ {p c}, t.IsParent p c → height c < height p) ∧
      ∀ {id}, t.isLive id → height id < t.arena.capacity := by
  obtain ⟨height, hdown, hbound⟩ := exists_rank (r := t.IsParent)
    (fun h ↦ index_lt_of_isLive (isLive_of_parent? h)) ht.acyclic
  exact ⟨height, hdown, fun hlive ↦ hbound (index_lt_of_isLive hlive)⟩

/-- There are fewer levels above a node than handles. -/
theorem exists_depth (ht : t.Linked) : ∃ depth : NodeId → Nat,
    (∀ {p c}, t.IsParent p c → depth p < depth c) ∧
      ∀ {id}, t.isLive id → depth id < t.arena.capacity := by
  have hacyclic : ∀ id, ¬ TransGen (Function.swap t.IsParent) id id :=
    fun id h ↦ ht.acyclic id (transGen_swap.1 h)
  obtain ⟨depth, hup, hbound⟩ := exists_rank (r := Function.swap t.IsParent)
    (fun h ↦ index_lt_of_isLive (ht.isLive_parent h)) hacyclic
  exact ⟨depth, hup, fun hlive ↦ hbound (index_lt_of_isLive hlive)⟩

/-- Induction from the children of a node to the node. -/
theorem induction {motive : NodeId → Prop} (ht : t.Linked)
    (step : ∀ id, (∀ c, t.IsParent id c → motive c) → motive id) (id : NodeId) : motive id := by
  obtain ⟨height, hdown, -⟩ := ht.exists_height
  obtain ⟨k, hk⟩ : ∃ k, height id ≤ k := ⟨_, Nat.le_refl _⟩
  induction k generalizing id with
  | zero =>
    refine step id fun c hc ↦ ?_
    have hlt := hdown hc
    omega
  | succ k ih =>
    refine step id fun c hc ↦ ih c ?_
    have hlt := hdown hc
    omega

end Linked

/-! ### Walks -/

/-- A node is below all the nodes on its way up. -/
theorem below_of_mem_lineageWithin {fuel : Nat} {j : NodeId} (h : j ∈ t.lineageWithin fuel id) :
    t.Below j id := by
  induction fuel generalizing id with
  | zero =>
    obtain rfl := List.mem_singleton.1 h
    exact .refl
  | succ fuel ih =>
    rw [lineageWithin] at h
    cases hp : t.parent? id with
    | none =>
      simp only [hp] at h
      obtain rfl := List.mem_singleton.1 h
      exact .refl
    | some p =>
      simp only [hp] at h
      rcases List.mem_cons.1 h with rfl | h
      · exact .refl
      · exact (ih h).tail hp

/-- The lineage of a node holds the node and all its ancestors. -/
theorem Linked.mem_lineage_iff (ht : t.Linked) (hlive : t.isLive id) {j : NodeId} :
    j ∈ t.lineage id ↔ t.Below j id := by
  refine ⟨below_of_mem_lineageWithin, fun h ↦ ?_⟩
  obtain ⟨depth, hup, hbound⟩ := ht.exists_depth
  suffices hall : ∀ fuel id, depth id ≤ fuel → t.Below j id → j ∈ t.lineageWithin fuel id from
    hall _ id (Nat.le_of_lt (hbound hlive)) h
  intro fuel
  induction fuel with
  | zero =>
    intro id hid h
    rcases h.cases_tail with rfl | ⟨p, -, hp⟩
    · exact List.mem_cons_self
    · have hlt := hup hp
      omega
  | succ fuel ih =>
    intro id hid h
    rw [lineageWithin]
    rcases h.cases_tail with rfl | ⟨p, hjp, hp⟩
    · cases t.parent? id <;> exact List.mem_cons_self
    · have hlt := hup hp
      have hparent : t.parent? id = some p := hp
      rw [hparent]
      exact List.mem_cons_of_mem _ (ih p (by omega) hjp)

/-- What is walked through from a node is below it. -/
theorem Linked.below_of_mem_subtreeWithin (ht : t.Linked) {fuel : Nat} {j : NodeId}
    (h : j ∈ t.subtreeWithin fuel id) : t.Below id j := by
  induction fuel generalizing id with
  | zero =>
    obtain rfl := List.mem_singleton.1 h
    exact .refl
  | succ fuel ih =>
    rw [subtreeWithin] at h
    rcases List.mem_cons.1 h with rfl | h
    · exact .refl
    · obtain ⟨c, hc, h⟩ := List.mem_flatMap.1 h
      exact .head (ht.links.1 hc) (ih h)

/-- The subtree of a node holds the node and all that lies below it. -/
theorem Linked.mem_subtree_iff (ht : t.Linked) (hlive : t.isLive id) {j : NodeId} :
    j ∈ t.subtree id ↔ t.Below id j := by
  refine ⟨ht.below_of_mem_subtreeWithin, fun h ↦ ?_⟩
  obtain ⟨height, hdown, hbound⟩ := ht.exists_height
  suffices hall : ∀ fuel id, height id ≤ fuel → t.Below id j → j ∈ t.subtreeWithin fuel id from
    hall _ id (Nat.le_of_lt (hbound hlive)) h
  intro fuel
  induction fuel with
  | zero =>
    intro id hid h
    rcases h.cases_head with rfl | ⟨c, hc, -⟩
    · exact List.mem_cons_self
    · have hlt := hdown hc
      omega
  | succ fuel ih =>
    intro id hid h
    rw [subtreeWithin]
    rcases h.cases_head with rfl | ⟨c, hc, hcj⟩
    · exact List.mem_cons_self
    · have hlt := hdown hc
      exact List.mem_cons_of_mem _
        (List.mem_flatMap.2 ⟨c, ht.links.2 hc, ih c (by omega) hcj⟩)

/-! ### Links after an edit -/

section Modify

variable {f : Node → Node}

/-- A change that keeps the parent of a node keeps all parents. -/
theorem parent?_modify_of_eq (hf : ∀ n, (f n).parent = n.parent) (t : ContentTree)
    (id j : NodeId) : (t.modify id f).parent? j = t.parent? j := by
  rw [parent?, node?_modify]
  split
  · cases hn : t.node? j <;> simp [parent?, hn, hf]
  · rfl

/-- A change that keeps the children of a node keeps all children. -/
theorem childIds_modify_of_eq (hf : ∀ n, (f n).children = n.children) (t : ContentTree)
    (id j : NodeId) : (t.modify id f).childIds j = t.childIds j := by
  rw [childIds, node?_modify]
  split
  · cases hn : t.node? j <;> simp [childIds, hn, hf]
  · rfl

/-- A change that gives a node a parent gives it to no other. -/
theorem parent?_modify_const {p : Option NodeId} (hf : ∀ n, (f n).parent = p)
    (hlive : t.isLive id) (j : NodeId) :
    (t.modify id f).parent? j = if j = id then p else t.parent? j := by
  rw [parent?, node?_modify]
  split
  · next hj =>
    obtain ⟨n, hn⟩ := isLive_iff.1 hlive
    rw [hj, hn]
    exact hf n
  · rfl

/-- A change of the children of a node changes no others. -/
theorem childIds_modify_map {g : List NodeId → List NodeId}
    (hf : ∀ n, (f n).children = g n.children) (hlive : t.isLive id) (j : NodeId) :
    (t.modify id f).childIds j = if j = id then g (t.childIds j) else t.childIds j := by
  rw [childIds, node?_modify]
  split
  · next hj =>
    obtain ⟨n, hn⟩ := isLive_iff.1 hlive
    rw [hj, childIds_eq hn, hn]
    exact hf n
  · rfl

end Modify

@[simp] theorem isLive_link (t : ContentTree) (parent child j : NodeId) :
    (t.link parent child).isLive j = t.isLive j := by
  rw [link, isLive_modify, isLive_modify]

/-- Linking gives the child its parent. -/
theorem parent?_link (hlive : t.isLive child) (parent j : NodeId) :
    (t.link parent child).parent? j = if j = child then some parent else t.parent? j := by
  refine (parent?_modify_const (by intro; rfl) ((isLive_modify ..).trans hlive) j).trans ?_
  rw [parent?_modify_of_eq (by intro; rfl)]

/-- Linking puts the child behind the other children. -/
theorem childIds_link (hlive : t.isLive parent) (child j : NodeId) :
    (t.link parent child).childIds j =
      if j = parent then t.childIds j ++ [child] else t.childIds j := by
  refine (childIds_modify_of_eq (by intro; rfl) _ _ j).trans ?_
  exact childIds_modify_map (g := (· ++ [child])) (by intro; rfl) hlive j

@[simp] theorem isLive_unlink (t : ContentTree) (id j : NodeId) :
    (t.unlink id).isLive j = t.isLive j := by
  rw [unlink]
  split
  · rw [isLive_modify, isLive_modify]
  · rfl

/-- Unlinking leaves a node without a parent. -/
theorem parent?_unlink (t : ContentTree) (id j : NodeId) :
    (t.unlink id).parent? j = if j = id then none else t.parent? j := by
  rw [unlink]
  split
  · next p hp =>
    refine (parent?_modify_const (by intro; rfl)
      ((isLive_modify ..).trans (isLive_of_parent? hp)) j).trans ?_
    rw [parent?_modify_of_eq (by intro; rfl)]
  · next hp =>
    split
    · next hj => rw [hj, hp]
    · rfl

/-- A node keeps its parent or loses it. -/
theorem IsParent.of_unlink {p c : NodeId} (h : (t.unlink id).IsParent p c) : t.IsParent p c := by
  rw [IsParent, parent?_unlink] at h
  split at h
  · cases h
  · exact h

/-- Only the list of its parent holds a node. -/
theorem Linked.filter_childIds (ht : t.Linked) {j : NodeId} (h : t.parent? id ≠ some j) :
    (t.childIds j).filter (· ≠ id) = t.childIds j := by
  refine List.filter_eq_self.2 fun c hc ↦ decide_eq_true ?_
  rintro rfl
  exact h (ht.links.1 hc)

/-- Unlinking takes a node out of the children of its parent, so out of all. -/
theorem Linked.childIds_unlink (ht : t.Linked) (id j : NodeId) :
    (t.unlink id).childIds j = (t.childIds j).filter (· ≠ id) := by
  rw [unlink]
  split
  · next p hp =>
    refine (childIds_modify_of_eq (by intro; rfl) _ _ j).trans ?_
    refine (childIds_modify_map (g := List.filter (· ≠ id)) (by intro; rfl)
      (ht.isLive_parent hp) j).trans ?_
    split
    · rfl
    · next hj =>
      refine (ht.filter_childIds fun heq ↦ hj ?_).symm
      exact Option.some.inj (heq.symm.trans hp)
  · next hp => rw [ht.filter_childIds (by rw [hp]; exact fun heq ↦ nomatch heq)]

/-! ### Operations that keep a tree linked -/

namespace Linked

/-- Whether a tree is linked depends on its live nodes and their links. -/
theorem congr (ht : t.Linked) (hroot : t'.isLive root = t.isLive root)
    (hparent : ∀ j, t'.parent? j = t.parent? j) (hchildren : ∀ j, t'.childIds j = t.childIds j) :
    t'.Linked := by
  have hsame : t'.IsParent = t.IsParent := by
    funext p c
    rw [IsParent, IsParent, hparent]
  refine ⟨hroot.trans ht.live, (hparent _).trans ht.top, fun {p c} ↦ ?_, fun id ↦ ?_, ?_⟩
  · rw [hchildren, hparent]
    exact ht.links
  · rw [hchildren]
    exact ht.nodup id
  · rw [hsame]
    exact ht.acyclic

/-- Edits of properties keep the links. -/
theorem modify (ht : t.Linked) {f : Node → Node} (hf : ∀ n, (f n).stem = n.stem) (id : NodeId) :
    (t.modify id f).Linked :=
  ht.congr (isLive_modify ..)
    (parent?_modify_of_eq (fun n ↦ (Node.stem_eq_iff.1 (hf n)).2.1) t id)
    (childIds_modify_of_eq (fun n ↦ (Node.stem_eq_iff.1 (hf n)).2.2) t id)

/-- A tree is linked after a node was unlinked. -/
theorem unlink (ht : t.Linked) (id : NodeId) : (t.unlink id).Linked := by
  refine ⟨(isLive_unlink ..).trans ht.live, ?_, fun {p c} ↦ ?_, fun j ↦ ?_,
    fun j h ↦ ht.acyclic j (TransGen.mono (fun _ _ ↦ IsParent.of_unlink) _ _ h)⟩
  · rw [parent?_unlink]
    split
    · rfl
    · exact ht.top
  · rw [ht.childIds_unlink, parent?_unlink, List.mem_filter, ht.links, decide_eq_true_eq]
    split
    · next hc => simp [hc]
    · next hc => simp [hc]
  · rw [ht.childIds_unlink]
    exact (ht.nodup j).filter _

/-- A node without a parent can be linked below any node that does not lie below it. -/
theorem link (ht : t.Linked) (hparent : t.isLive parent) (hchild : t.isLive child)
    (hroot : child ≠ root) (horphan : t.parent? child = none) (hnot : ¬ t.Below child parent) :
    (t.link parent child).Linked := by
  -- a way down in the new tree is one in the old, or passes the new link
  have hpaths : ∀ {a b}, TransGen (t.link parent child).IsParent a b →
      TransGen t.IsParent a b ∨ t.Below a parent ∧ t.Below child b := by
    intro a b h
    have hstep : ∀ {p c}, (t.link parent child).IsParent p c →
        (p = parent ∧ c = child) ∨ t.IsParent p c := by
      intro p c h
      rw [IsParent, parent?_link hchild] at h
      split at h
      · next hc => exact .inl ⟨(Option.some.inj h).symm, hc⟩
      · exact .inr h
    induction h with
    | single h =>
      rcases hstep h with ⟨rfl, rfl⟩ | h
      · exact .inr ⟨.refl, .refl⟩
      · exact .inl (.single h)
    | tail _ h ih =>
      rcases ih, hstep h with ⟨hold | ⟨ha, hb⟩, ⟨rfl, rfl⟩ | h⟩
      · exact .inr ⟨hold.to_reflTransGen, .refl⟩
      · exact .inl (hold.tail h)
      · exact .inr ⟨ha, .refl⟩
      · exact .inr ⟨ha, hb.tail h⟩
  refine ⟨(isLive_link ..).trans ht.live, ?_, fun {p c} ↦ ?_, fun j ↦ ?_, fun j h ↦ ?_⟩
  · rw [parent?_link hchild, if_neg hroot.symm]
    exact ht.top
  · rw [childIds_link hparent, parent?_link hchild]
    split <;> split
    · next hp hc => simp [hp, hc]
    · next hp hc => simp [hc, ht.links]
    · next hp hc =>
      rw [ht.links, hc, horphan]
      simp [Ne.symm hp]
    · exact ht.links
  · rw [childIds_link hparent]
    split
    · refine (ht.nodup j).append (List.nodup_singleton _) fun c hc hnew ↦ ?_
      obtain rfl := List.mem_singleton.1 hnew
      rw [ht.links, horphan] at hc
      cases hc
    · exact ht.nodup j
  · rcases hpaths h with h | ⟨hj, hchildj⟩
    · exact ht.acyclic j h
    · exact hnot (hchildj.trans hj)

/-- A new node has no links yet. -/
theorem create (ht : t.Linked) (key : Key) : (t.create key).2.Linked := by
  have hnew : t.node? (t.create key).1 = none := node?_create_eq_none t key
  obtain ⟨r, hr⟩ := isLive_iff.1 ht.live
  refine ht.congr ?_ (fun j ↦ ?_) fun j ↦ ?_
  · rw [isLive, isLive, node?_create_of_node? hr, hr]
  · rw [parent?, parent?, node?_create]
    split
    · next hj =>
      rw [hj, hnew]
      rfl
    · rfl
  · rw [childIds, childIds, node?_create]
    split
    · next hj =>
      rw [hj, hnew]
      rfl
    · rfl

/-- When a node is moved below another, neither is dead, and the first is neither the root nor an
ancestor of the second. -/
theorem addChild?_eq_some_iff (ht : t.Linked) : t.addChild? parent child = some t' ↔
    t.isLive parent ∧ t.isLive child ∧ child ≠ root ∧ ¬ t.Below child parent ∧
      t' = (t.unlink child).link parent child := by
  rw [ContentTree.addChild?, Option.ite_none_right_eq_some]
  simp only [Bool.and_eq_true, decide_eq_true_eq, Bool.not_eq_true', ← Bool.not_eq_true,
    List.contains_iff_mem, Option.some.injEq]
  constructor
  · rintro ⟨⟨⟨⟨hparent, hchild⟩, hroot⟩, hnot⟩, rfl⟩
    exact ⟨hparent, hchild, hroot, fun h ↦ hnot ((ht.mem_lineage_iff hparent).2 h), rfl⟩
  · rintro ⟨hparent, hchild, hroot, hnot, rfl⟩
    exact ⟨⟨⟨⟨hparent, hchild⟩, hroot⟩, fun h ↦ hnot ((ht.mem_lineage_iff hparent).1 h)⟩, rfl⟩

/-- A tree is linked after a child was added. -/
theorem addChild? (ht : t.Linked) (h : t.addChild? parent child = some t') : t'.Linked := by
  obtain ⟨hparent, hchild, hroot, hnot, rfl⟩ := ht.addChild?_eq_some_iff.1 h
  refine (ht.unlink child).link ((isLive_unlink ..).trans hparent)
    ((isLive_unlink ..).trans hchild) hroot ?_ fun hbelow ↦ hnot ?_
  · rw [parent?_unlink, if_pos rfl]
  · exact Below.mono (fun _ _ ↦ IsParent.of_unlink) hbelow

/-- A tree is linked after a node was detached. -/
theorem detach? (ht : t.Linked) (h : t.detach? id = some t') : t'.Linked := by
  rw [ContentTree.detach?] at h
  split at h
  · obtain rfl := Option.some.inj h
    exact ht.unlink id
  · cases h

end Linked

/-- Erasing ids one after the other erases them all. -/
theorem get?_foldl_erase (ids : List NodeId) (a : Arena) (j : NodeId) :
    (ids.foldl Arena.erase a).get? j = if j ∈ ids then none else a.get? j := by
  induction ids generalizing a with
  | nil => rfl
  | cons id rest ih =>
    rw [List.foldl_cons, ih, Arena.get?_erase]
    by_cases hid : j = id <;> by_cases hrest : j ∈ rest <;> simp [hid, hrest]

namespace Linked

/-- With a node that has no parent all that lies below it can go. -/
theorem erase (ht : t.Linked) (hlive : t.isLive id) (hroot : id ≠ root)
    (horphan : t.parent? id = none) :
    Linked ⟨(t.subtree id).foldl Arena.erase t.arena⟩ := by
  set t' : ContentTree := ⟨(t.subtree id).foldl Arena.erase t.arena⟩ with ht'
  classical
  have hnode : ∀ j, t'.node? j = if t.Below id j then none else t.node? j := by
    intro j
    refine (get?_foldl_erase (t.subtree id) t.arena j).trans ?_
    by_cases hj : t.Below id j
    · rw [if_pos hj, if_pos ((ht.mem_subtree_iff hlive).2 hj)]
    · rw [if_neg hj, if_neg fun hmem ↦ hj ((ht.mem_subtree_iff hlive).1 hmem)]
      rfl
  have hparent : ∀ j, t'.parent? j = if t.Below id j then none else t.parent? j := by
    intro j
    rw [parent?, hnode]
    split <;> rfl
  have hchildren : ∀ j, t'.childIds j = if t.Below id j then [] else t.childIds j := by
    intro j
    rw [childIds, hnode]
    split <;> rfl
  have hnot := ht.not_below_root hroot
  have hkept : ∀ p c, t'.IsParent p c → t.IsParent p c := by
    intro p c hpc
    rw [IsParent, hparent] at hpc
    split at hpc
    · cases hpc
    · exact hpc
  refine ⟨?_, ?_, fun {p c} ↦ ?_, fun j ↦ ?_, fun j h ↦ ht.acyclic j (TransGen.mono hkept _ _ h)⟩
  · rw [isLive, hnode, if_neg hnot]
    exact ht.live
  · rw [hparent, if_neg hnot]
    exact ht.top
  · rw [hchildren, hparent]
    split <;> split
    · simp
    · next hp hc =>
      refine ⟨fun h ↦ absurd h List.not_mem_nil, fun h ↦ absurd (hp.tail h) hc⟩
    · next hp hc =>
      refine ⟨fun h ↦ ?_, fun h ↦ by cases h⟩
      have hpc := ht.links.1 h
      refine absurd (hc.of_isParent ?_ hpc) hp
      rintro rfl
      cases horphan.symm.trans hpc
    · exact ht.links
  · rw [hchildren]
    split
    · exact List.nodup_nil
    · exact ht.nodup j

/-- A tree is linked after a node was removed with all below it. -/
theorem remove? (ht : t.Linked) (h : t.remove? id = some t') : t'.Linked := by
  rw [ContentTree.remove?] at h
  split at h
  · next hid =>
    obtain rfl := Option.some.inj h
    simp only [ne_eq, Bool.and_eq_true, decide_eq_true_eq] at hid
    exact (ht.unlink id).erase ((isLive_unlink ..).trans hid.2) hid.1
      ((parent?_unlink ..).trans (if_pos rfl))
  · cases h

/-- A new tree has no links to go wrong. -/
theorem new : ContentTree.new.Linked := by
  have hparent : ∀ j, ContentTree.new.parent? j = none := by
    intro j
    rw [parent?, node?_new]
    split <;> rfl
  have hchildren : ∀ j, ContentTree.new.childIds j = [] := by
    intro j
    rw [childIds, node?_new]
    split <;> rfl
  refine ⟨rfl, hparent _, fun {p c} ↦ ?_, fun id ↦ ?_, fun id h ↦ ?_⟩
  · rw [hchildren, hparent]
    simp
  · rw [hchildren]
    exact List.nodup_nil
  · obtain ⟨c, hc, -⟩ := TransGen.head'_iff.1 h
    cases (hparent c).symm.trans hc

/-! ### Making a child -/

/-- Below a live node a new child can be linked. -/
theorem addChild?_create (ht : t.Linked) (hlive : t.node? parent = some n) (key : Key) :
    (t.create key).2.addChild? parent (t.create key).1 = some (t.sprout parent key) := by
  have hcreate := ht.create key
  have hnone := node?_create_eq_none t key
  have hself : (t.create key).2.node? (t.create key).1 = some (Node.bare key) := by
    rw [node?_create, if_pos rfl]
  have horphan : (t.create key).2.parent? (t.create key).1 = none := parent?_eq hself
  have hunlink : (t.create key).2.unlink (t.create key).1 = (t.create key).2 := by
    rw [ContentTree.unlink, horphan]
  refine hcreate.addChild?_eq_some_iff.2 ⟨isLive_iff.2 ⟨n, node?_create_of_node? hlive⟩,
    isLive_iff.2 ⟨_, hself⟩, ?_, fun hbelow ↦ ?_, by rw [hunlink]; rfl⟩
  · obtain ⟨r, hr⟩ := isLive_iff.1 ht.live
    exact (ne_create_of_node? hr key).symm
  · -- nothing lies below a new node
    rcases hbelow.cases_head with heq | ⟨c, hc, -⟩
    · exact ne_create_of_node? hlive key heq.symm
    · exact absurd ((hcreate.mem_children_iff hself).2 hc) List.not_mem_nil

/-- Where no child is found, one is made. -/
theorem childOrCreate_eq_sprout (ht : t.Linked) (hlive : t.node? parent = some n)
    (hnone : t.findChild? parent key = none) :
    t.childOrCreate parent key = ((t.create key).1, t.sprout parent key) := by
  rw [ContentTree.childOrCreate, hnone]
  show ((t.create key).1, ((t.create key).2.addChild? parent (t.create key).1).getD _) = _
  rw [ht.addChild?_create hlive]
  rfl

/-- Making a child finds one that the key accepts, or makes one if there is none. -/
theorem childOrCreate_cases (ht : t.Linked) (hlive : t.node? parent = some n) (key : Key) :
    (∃ child node, t.childOrCreate parent key = (child, t) ∧ child ∈ n.children ∧
        t.node? child = some node ∧ key.accepts node.key = true) ∨
      (t.childOrCreate parent key = ((t.create key).1, t.sprout parent key) ∧
        ∀ child ∈ n.children, ∀ node, t.node? child = some node →
          key.accepts node.key = false) := by
  cases hfind : t.findChild? parent key with
  | some child =>
    obtain ⟨hmem, node, hnode, haccepts⟩ := findChild?_eq_some hfind
    rw [childIds_eq hlive] at hmem
    exact .inl ⟨child, node, by rw [ContentTree.childOrCreate, hfind], hmem, hnode, haccepts⟩
  | none =>
    refine .inr ⟨ht.childOrCreate_eq_sprout hlive hfind, ?_⟩
    rw [findChild?_eq_none_iff, childIds_eq hlive] at hfind
    exact hfind

/-- A new child is linked. -/
theorem sprout (ht : t.Linked) (hlive : t.node? parent = some n) (key : Key) :
    (t.sprout parent key).Linked :=
  (ht.create key).addChild? (ht.addChild?_create hlive key)

/-- A child that is found or made is linked. -/
theorem childOrCreate (ht : t.Linked) (hlive : t.isLive parent) (key : Key) :
    (t.childOrCreate parent key).2.Linked := by
  obtain ⟨n, hn⟩ := isLive_iff.1 hlive
  rcases ht.childOrCreate_cases hn key with ⟨child, node, h, -⟩ | ⟨h, -⟩
  · rw [h]
    exact ht
  · rw [h]
    exact ht.sprout hn key

/-- The child that is found or made is live. -/
theorem isLive_childOrCreate (ht : t.Linked) (hlive : t.isLive parent) (key : Key) :
    (t.childOrCreate parent key).2.isLive (t.childOrCreate parent key).1 = true := by
  obtain ⟨n, hn⟩ := isLive_iff.1 hlive
  rcases ht.childOrCreate_cases hn key with ⟨child, node, h, -, hnode, -⟩ | ⟨h, -⟩
  · rw [h]
    exact isLive_iff.2 ⟨node, hnode⟩
  · rw [h]
    exact isLive_iff.2 ⟨_, by rw [node?_sprout hn, if_pos rfl]⟩

/-- Live nodes stay live. -/
theorem isLive_childOrCreate_of_isLive (ht : t.Linked) (hlive : t.isLive parent) (key : Key)
    (hid : t.isLive id) : (t.childOrCreate parent key).2.isLive id = true := by
  obtain ⟨n, hn⟩ := isLive_iff.1 hlive
  rcases ht.childOrCreate_cases hn key with ⟨child, node, h, -⟩ | ⟨h, -⟩
  · rw [h]
    exact hid
  · obtain ⟨m, hm⟩ := isLive_iff.1 hid
    obtain ⟨m', hm', -⟩ := exists_node?_sprout hn key hm
    rw [h]
    exact isLive_iff.2 ⟨m', hm'⟩

/-- No properties change. -/
theorem properties_childOrCreate (ht : t.Linked) (hlive : t.isLive parent) (key : Key)
    (id : NodeId) : (t.childOrCreate parent key).2.properties id = t.properties id := by
  obtain ⟨n, hn⟩ := isLive_iff.1 hlive
  rcases ht.childOrCreate_cases hn key with ⟨child, node, h, -⟩ | ⟨h, -⟩
  · rw [h]
  · rw [h]
    exact properties_sprout hn key id

/-- Finding or making a child changes no slot. -/
theorem slot?_childOrCreate (ht : t.Linked) (hlive : t.isLive parent) (key : Key)
    (place : NodeId × Nat) : (t.childOrCreate parent key).2.slot? place = t.slot? place := by
  rw [slot?_eq_properties, ht.properties_childOrCreate hlive, slot?_eq_properties]

end Linked

/-! ### Reachable trees -/

/-- The trees that operations make of a new one: nodes are made, moved, taken off and removed, and
properties are edited. -/
inductive Reachable : ContentTree → Prop
  | new : Reachable new
  | create {t : ContentTree} (before : Reachable t) (key : Key) : Reachable (t.create key).2
  | addChild {t t' : ContentTree} {parent child : NodeId} (before : Reachable t)
      (moved : t.addChild? parent child = some t') : Reachable t'
  | detach {t t' : ContentTree} {id : NodeId} (before : Reachable t)
      (detached : t.detach? id = some t') : Reachable t'
  | remove {t t' : ContentTree} {id : NodeId} (before : Reachable t)
      (removed : t.remove? id = some t') : Reachable t'
  | edit {t : ContentTree} {f : Node → Node} (before : Reachable t)
      (keeps : ∀ n, (f n).stem = n.stem) (id : NodeId) : Reachable (t.modify id f)

namespace Reachable

/-- Making a child is making a node and moving it. -/
theorem childOrCreate (h : t.Reachable) (parent : NodeId) (key : Key) :
    (t.childOrCreate parent key).2.Reachable := by
  rw [ContentTree.childOrCreate]
  split
  · exact h
  · show (((t.create key).2.addChild? parent (t.create key).1).getD (t.create key).2).Reachable
    cases hmoved : (t.create key).2.addChild? parent (t.create key).1 with
    | none => exact h.create key
    | some moved => exact (h.create key).addChild hmoved

/-- Following keys and making what is missing is done by calls. -/
theorem followOrCreate (h : t.Reachable) (id : NodeId) (keys : List Key) :
    (t.followOrCreate id keys).2.Reachable := by
  induction keys generalizing t id with
  | nil => exact h
  | cons key keys ih => exact ih (h.childOrCreate id key) _

/-- **Every tree that can be reached is linked.** -/
theorem linked (h : t.Reachable) : t.Linked := by
  induction h with
  | new => exact .new
  | create _ key ih => exact ih.create key
  | addChild _ moved ih => exact ih.addChild? moved
  | detach _ detached ih => exact ih.detach? detached
  | remove _ removed ih => exact ih.remove? removed
  | edit _ keeps id ih => exact ih.modify keeps id

end Reachable

end ContentTree

end ModContent
