import ModContent.Proofs.Tree.Linked

/-!
# Growing trees

A tree that content is read into only grows: nodes are made below others and never move or go. So
a node comes later in the arena than its parent, every handle given so far is live, and only the
root has no parent (`Grown`). Such a tree is linked (`Grown.linked`).

Growth speaks of stems only, so no edit of properties affects it (`Grown.congr`).
-/

namespace ModContent

open Relation

namespace ContentTree

variable {t t' : ContentTree} {id parent child : NodeId} {key : Key} {n : Node}

/-- Links lead both ways, and a node comes later than its parent. Only the root has no parent, and
every handle given so far is live. -/
structure Grown (t : ContentTree) : Prop where
  root : ∃ n, t.node? root = some n ∧ n.key = Key.named ""
  full : ∀ {id}, id.index < t.arena.capacity → t.isLive id
  orphan : ∀ {id n}, t.node? id = some n → (n.parent = none ↔ id = ContentTree.root)
  parent : ∀ {id n p}, t.node? id = some n → n.parent = some p →
    p.index < id.index ∧ ∃ m, t.node? p = some m ∧ id ∈ m.children
  child : ∀ {id n c}, t.node? id = some n → c ∈ n.children →
    ∃ m, t.node? c = some m ∧ m.parent = some id
  nodup : ∀ {id n}, t.node? id = some n → n.children.Nodup

namespace Grown

/-- Children are behind their parents in a tree that has only grown. -/
theorem index_lt_of_mem (ht : t.Grown) (hn : t.node? id = some n) (hc : child ∈ n.children) :
    id.index < child.index := by
  obtain ⟨m, hm, hparent⟩ := ht.child hn hc
  exact (ht.parent hm hparent).1

/-- The root is no child. -/
theorem ne_root_of_mem (ht : t.Grown) (hn : t.node? id = some n) (hc : child ∈ n.children) :
    child ≠ ContentTree.root := by
  rintro rfl
  obtain ⟨m, hm, hparent⟩ := ht.child hn hc
  rw [(ht.orphan hm).2 rfl] at hparent
  cases hparent

/-- A grown tree is linked, since an ancestor comes before a node. -/
theorem linked (ht : t.Grown) : t.Linked := by
  obtain ⟨r, hr, -⟩ := ht.root
  have hbefore : ∀ {a b}, TransGen t.IsParent a b → a.index < b.index := by
    intro a b h
    have hstep : ∀ {p c}, t.IsParent p c → p.index < c.index := by
      intro p c h
      obtain ⟨n, hn, hparent⟩ := Option.bind_eq_some_iff.1 h
      exact (ht.parent hn hparent).1
    induction h with
    | single h => exact hstep h
    | tail _ h ih => exact Nat.lt_trans ih (hstep h)
  refine ⟨isLive_iff.2 ⟨r, hr⟩, ?_, fun {p c} ↦ ⟨fun hc ↦ ?_, fun hp ↦ ?_⟩, fun id ↦ ?_,
    fun id h ↦ Nat.lt_irrefl _ (hbefore h)⟩
  · rw [parent?_eq hr]
    exact (ht.orphan hr).2 rfl
  · obtain ⟨n, hn⟩ := isLive_iff.1 (isLive_of_mem_childIds hc)
    rw [childIds_eq hn] at hc
    obtain ⟨m, hm, hparent⟩ := ht.child hn hc
    rw [parent?_eq hm, hparent]
  · obtain ⟨n, hn, hparent⟩ := Option.bind_eq_some_iff.1 hp
    obtain ⟨-, m, hm, hmem⟩ := ht.parent hn hparent
    rwa [childIds_eq hm]
  · cases hn : t.node? id with
    | none => simp [childIds, hn]
    | some n =>
      rw [childIds_eq hn]
      exact ht.nodup hn

/-- Every node but the root has a parent. -/
theorem exists_isParent (ht : t.Grown) (hn : t.node? id = some n)
    (hroot : id ≠ ContentTree.root) : ∃ p m, t.IsParent p id ∧ t.node? p = some m := by
  cases hparent : n.parent with
  | none => exact absurd ((ht.orphan hn).1 hparent) hroot
  | some p =>
    obtain ⟨-, m, hm, -⟩ := ht.parent hn hparent
    exact ⟨p, m, (parent?_eq hn).trans hparent, hm⟩

/-- Induction from the root down to a node. -/
theorem induction_down {motive : NodeId → Prop} (ht : t.Grown) (top : motive ContentTree.root)
    (step : ∀ {p id n}, t.IsParent p id → t.node? id = some n → motive p → motive id)
    (hid : t.isLive id) : motive id := by
  obtain ⟨k, hk⟩ : ∃ k, id.index ≤ k := ⟨_, Nat.le_refl _⟩
  induction k generalizing id with
  | zero =>
    obtain ⟨i⟩ := id
    obtain rfl : i = 0 := Nat.le_zero.1 hk
    exact top
  | succ k ih =>
    obtain ⟨n, hn⟩ := isLive_iff.1 hid
    by_cases hroot : id = ContentTree.root
    · exact hroot ▸ top
    · obtain ⟨p, m, hp, hm⟩ := ht.exists_isParent hn hroot
      have hlt := (ht.parent hn ((parent?_eq hn).symm.trans hp)).1
      exact step hp hn (ih (isLive_iff.2 ⟨m, hm⟩) (by omega))

end Grown

/-- Making a child keeps a tree grown. -/
theorem Grown.sprout (ht : t.Grown) (hlive : t.node? parent = some n) (key : Key) :
    (t.sprout parent key).Grown where
  root := by
    obtain ⟨r, hr, hkey⟩ := ht.root
    obtain ⟨r', hr', hkey', -⟩ := exists_node?_sprout hlive key hr
    exact ⟨r', hr', hkey'.trans hkey⟩
  full {id} hid := by
    rw [capacity_sprout] at hid
    by_cases hnew : id = (t.create key).1
    · exact isLive_iff.2 ⟨_, by rw [node?_sprout hlive, if_pos hnew]⟩
    · have hindex : id.index ≠ t.arena.capacity := fun h ↦ hnew (by cases id; subst h; rfl)
      have hold : id.index < t.arena.capacity := by omega
      obtain ⟨m, hm⟩ := isLive_iff.1 (ht.full hold)
      obtain ⟨m', hm', -⟩ := exists_node?_sprout hlive key hm
      exact isLive_iff.2 ⟨m', hm'⟩
  orphan {j m} hm := by
    rcases node?_sprout_cases hlive hm with ⟨rfl, rfl⟩ | ⟨rfl, rfl⟩ | ⟨-, hm⟩
    · obtain ⟨r, hr, -⟩ := ht.root
      simp [(ne_create_of_node? hr key).symm]
    · show n.parent = none ↔ _
      exact ht.orphan hlive
    · exact ht.orphan hm
  parent {j m p} hm hp := by
    rcases node?_sprout_cases hlive hm with ⟨rfl, rfl⟩ | ⟨rfl, rfl⟩ | ⟨-, hm⟩
    · obtain rfl := Option.some.inj hp
      exact ⟨index_lt_of_node? hlive, _, node?_sprout_parent hlive key,
        List.mem_append_right _ List.mem_cons_self⟩
    · obtain ⟨hlt, m, hm, hmem⟩ := ht.parent hlive hp
      obtain ⟨m', hm', -, -, hprefix⟩ := exists_node?_sprout hlive key hm
      exact ⟨hlt, m', hm', hprefix.subset hmem⟩
    · obtain ⟨hlt, m, hm, hmem⟩ := ht.parent hm hp
      obtain ⟨m', hm', -, -, hprefix⟩ := exists_node?_sprout hlive key hm
      exact ⟨hlt, m', hm', hprefix.subset hmem⟩
  child {j m c} hm hc := by
    have hkept : ∀ {i k}, t.node? i = some k → c ∈ k.children →
        ∃ m, (t.sprout parent key).node? c = some m ∧ m.parent = some i := by
      intro i k hk hc
      obtain ⟨m, hm, hparent⟩ := ht.child hk hc
      obtain ⟨m', hm', -, hparent', -⟩ := exists_node?_sprout hlive key hm
      exact ⟨m', hm', hparent'.trans hparent⟩
    rcases node?_sprout_cases hlive hm with ⟨rfl, rfl⟩ | ⟨rfl, rfl⟩ | ⟨-, hm⟩
    · exact absurd hc List.not_mem_nil
    · rcases List.mem_append.1 hc with hc | hc
      · exact hkept hlive hc
      · obtain rfl := List.mem_singleton.1 hc
        exact ⟨_, by rw [node?_sprout hlive, if_pos rfl], rfl⟩
    · exact hkept hm hc
  nodup {j m} hm := by
    rcases node?_sprout_cases hlive hm with ⟨rfl, rfl⟩ | ⟨rfl, rfl⟩ | ⟨-, hm⟩
    · exact List.nodup_nil
    · refine (ht.nodup hlive).append (List.nodup_singleton _) fun c hc hnew ↦ ?_
      obtain rfl := List.mem_singleton.1 hnew
      obtain ⟨m, hm, -⟩ := ht.child hlive hc
      exact ne_create_of_node? hm key rfl
    · exact ht.nodup hm

/-! ### Operations that keep a tree grown -/

theorem Grown.childOrCreate (ht : t.Grown) (hlive : t.isLive parent) (key : Key) :
    (t.childOrCreate parent key).2.Grown := by
  obtain ⟨n, hn⟩ := isLive_iff.1 hlive
  rcases ht.linked.childOrCreate_cases hn key with ⟨child, node, h, -⟩ | ⟨h, -⟩
  · rw [h]
    exact ht
  · rw [h]
    exact ht.sprout hn key

/-- Growth is about stems: trees with the same stems are grown together. -/
theorem Grown.congr (ht : t.Grown) (h : t.SameStems t') : t'.Grown := by
  refine ⟨?_, fun {id} hid ↦ ?_, fun {id n'} hn' ↦ ?_, fun {id n' p} hn' hp ↦ ?_,
    fun {id n' c} hn' hc ↦ ?_, fun {id n'} hn' ↦ ?_⟩
  · obtain ⟨r, hr, hroot⟩ := ht.root
    obtain ⟨r', hr', hkey, -⟩ := h.exists_node? hr
    exact ⟨r', hr', hkey.trans hroot⟩
  · rw [h.capacity] at hid
    obtain ⟨n, hn⟩ := isLive_iff.1 (ht.full hid)
    obtain ⟨n', hn', -⟩ := h.exists_node? hn
    exact isLive_iff.2 ⟨n', hn'⟩
  · obtain ⟨n, hn, -, hparent, -⟩ := h.symm.exists_node? hn'
    rw [← hparent]
    exact ht.orphan hn
  · obtain ⟨n, hn, -, hparent, -⟩ := h.symm.exists_node? hn'
    obtain ⟨hlt, m, hm, hmem⟩ := ht.parent hn (hparent.trans hp)
    obtain ⟨m', hm', -, -, hchildren⟩ := h.exists_node? hm
    exact ⟨hlt, m', hm', hchildren ▸ hmem⟩
  · obtain ⟨n, hn, -, -, hchildren⟩ := h.symm.exists_node? hn'
    obtain ⟨m, hm, hparent⟩ := ht.child hn (hchildren ▸ hc)
    obtain ⟨m', hm', -, hparent', -⟩ := h.exists_node? hm
    exact ⟨m', hm', hparent'.trans hparent⟩
  · obtain ⟨n, hn, -, -, hchildren⟩ := h.symm.exists_node? hn'
    exact hchildren ▸ ht.nodup hn

/-! ### A new tree -/

theorem grown_new : ContentTree.new.Grown where
  root := ⟨_, rfl, rfl⟩
  full {id} hid := by
    have hindex : id.index = 0 := Nat.lt_one_iff.1 hid
    obtain ⟨_⟩ := id
    subst hindex
    rfl
  orphan {id n} hn := by
    obtain ⟨rfl, rfl⟩ := eq_of_node?_new hn
    exact ⟨fun _ ↦ rfl, fun _ ↦ rfl⟩
  parent {id n p} hn hp := by
    obtain ⟨-, rfl⟩ := eq_of_node?_new hn
    cases hp
  child {id n c} hn hc := by
    obtain ⟨-, rfl⟩ := eq_of_node?_new hn
    cases hc
  nodup {id n} hn := by
    obtain ⟨-, rfl⟩ := eq_of_node?_new hn
    exact List.nodup_nil

end ContentTree

end ModContent
