import ModContent.Proofs.Tree.Outline

/-!
# Edits below a node

A tree is changed **within** a node when nothing else changes than what lies below it, and the nodes
there keep their keys, their parents and the children that they had (`ContentTree.Within`). Then the
outline of the node tells everything (`ContentTree.Edited`).

There are two such edits. A property is put in place of the one with its key or after all others
(`Edited.insert`), and a child is entered, that is the first one that a key accepts or a new last
one, and edited in turn (`Edited.enter`).
-/

namespace ModContent

/-! ### Edits of outlines -/

/-- Puts a property in place of the first one with its key, or after all others. -/
def putProperty (p : Property) : List Property → List Property
  | [] => [p]
  | q :: rest => if q.key = p.key then p :: rest else q :: putProperty p rest

/-- Inserting a property is putting it among the others. -/
theorem Node.properties_insert (n : Node) (p : Property) :
    (n.insert p).properties = putProperty p n.properties := by
  obtain ⟨key, parent, children, properties⟩ := n
  simp only [insert, slotFor]
  induction properties with
  | nil => rfl
  | cons q rest ih =>
    rw [putProperty]
    by_cases hq : q.key = p.key
    · simp [List.findIdx_cons, hq]
    · rw [if_neg hq, ← ih]
      simp only [List.findIdx_cons, beq_eq_false_iff_ne.2 hq, cond_false, List.length_cons,
        Nat.add_lt_add_iff_right, List.set_cons_succ, List.cons_append]
      exact (apply_ite (List.cons q) ..).symm

namespace Outline

variable {key : Key} {f : Outline → Outline}

/-- Puts a property into an outline. -/
def put (o : Outline) (p : Property) : Outline :=
  .node o.key (putProperty p o.properties) o.children

/-- Edits the first child that the key accepts, or a new last one. -/
def enterChild (key : Key) (f : Outline → Outline) : List Outline → List Outline
  | [] => [f (.node key [] [])]
  | child :: rest =>
    if key.accepts child.key then f child :: rest else child :: enterChild key f rest

/-- Edits the child of an outline that the key leads to. -/
def enter (key : Key) (f : Outline → Outline) (o : Outline) : Outline :=
  .node o.key o.properties (enterChild key f o.children)

/-- A child that no key finds is made behind the others. -/
theorem enterChild_of_unseen {children : List Outline}
    (h : ∀ child ∈ children, key.accepts child.key = false) :
    enterChild key f children = children ++ [f (.node key [] [])] := by
  induction children with
  | nil => rfl
  | cons child rest ih =>
    obtain ⟨hchild, hrest⟩ := List.forall_mem_cons.1 h
    rw [enterChild, if_neg (by simp [hchild]), ih hrest]
    rfl

/-- A child that is made first is found again. -/
theorem enterChild_enterChild_id (children : List Outline) :
    enterChild key f (enterChild key id children) = enterChild key f children := by
  induction children with
  | nil => simp [enterChild, Outline.key]
  | cons child rest ih =>
    rw [enterChild, enterChild]
    split
    · next h =>
      rw [id, enterChild, if_pos h]
    · next h =>
      rw [enterChild, if_neg h, ih]

/-- Entering a child and then changing it is entering it once. -/
theorem enter_enter_id (o : Outline) : enter key f (enter key id o) = enter key f o :=
  congrArg (Outline.node o.key o.properties) (enterChild_enterChild_id o.children)

/-- Among nodes with outlines, the one that is found is edited. -/
theorem filterMap_eq_enterChild {ids : List NodeId} {child : NodeId}
    {g g' : NodeId → Option Outline}
    (hfind : ids.find? (fun c ↦ (g c).any fun o ↦ key.accepts o.key) = some child)
    (hnodup : ids.Nodup) (hchild : g' child = (g child).map f)
    (hother : ∀ c ∈ ids, c ≠ child → g' c = g c) :
    ids.filterMap g' = enterChild key f (ids.filterMap g) := by
  induction ids with
  | nil => cases hfind
  | cons c rest ih =>
    obtain ⟨hc, hnodup⟩ := List.nodup_cons.1 hnodup
    obtain ⟨hfirst, hrest⟩ := List.forall_mem_cons.1 hother
    rw [List.find?_cons] at hfind
    split at hfind
    · next haccepts =>
      obtain rfl := Option.some.inj hfind
      obtain ⟨o, ho, hkey⟩ := (Option.any_eq_true ..).1 haccepts
      have hsame : rest.filterMap g' = rest.filterMap g :=
        List.filterMap_congr fun c' hc' ↦ hrest c' hc' fun heq ↦ hc (heq ▸ hc')
      rw [List.filterMap_cons_some (hchild.trans (congrArg _ ho)), List.filterMap_cons_some ho,
        enterChild, if_pos hkey, hsame]
    · next hrefused =>
      have hne : c ≠ child := by
        rintro rfl
        exact hc (List.mem_of_find?_eq_some hfind)
      have hsame := hfirst hne
      cases ho : g c with
      | none =>
        rw [List.filterMap_cons_none (hsame.trans ho), List.filterMap_cons_none ho]
        exact ih hfind hnodup hrest
      | some o =>
        rw [ho, Option.any_some] at hrefused
        rw [List.filterMap_cons_some (hsame.trans ho), List.filterMap_cons_some ho, enterChild,
          if_neg (by simp [hrefused]), ih hfind hnodup hrest]

end Outline

namespace ContentTree

variable {t t' t'' : ContentTree} {scope child : NodeId} {key : Key} {n : Node}
  {f g : Outline → Outline}

/-! ### Changes within a node -/

/-- Nothing changes but what lies below a node: the nodes that were there keep their keys, their
parents and the children they had, and what does not lie below the node is as it was. -/
structure Within (scope : NodeId) (t t' : ContentTree) : Prop where
  kept : ∀ {id n}, t.node? id = some n → ∃ n', t'.node? id = some n' ∧ n'.key = n.key ∧
    n'.parent = n.parent ∧ n.children <+: n'.children
  outside : ∀ {id}, ¬ t'.Below scope id → t'.node? id = t.node? id

namespace Within

theorem refl (scope : NodeId) (t : ContentTree) : Within scope t t :=
  ⟨fun {_ n} hn ↦ ⟨n, hn, rfl, rfl, List.prefix_refl _⟩, fun _ ↦ rfl⟩

theorem isLive (h : Within scope t t') {id : NodeId} (hid : t.isLive id) :
    t'.isLive id = true := by
  obtain ⟨n, hn⟩ := isLive_iff.1 hid
  obtain ⟨n', hn', -⟩ := h.kept hn
  exact isLive_iff.2 ⟨n', hn'⟩

theorem isParent (h : Within scope t t') {p c : NodeId} (hp : t.IsParent p c) :
    t'.IsParent p c := by
  obtain ⟨n, hn, hparent⟩ := Option.bind_eq_some_iff.1 hp
  obtain ⟨n', hn', -, hparent', -⟩ := h.kept hn
  rw [IsParent, parent?_eq hn', hparent', hparent]

theorem below (h : Within scope t t') {a b : NodeId} (hab : t.Below a b) : t'.Below a b :=
  hab.mono fun _ _ ↦ h.isParent

theorem trans (h : Within scope t t') (h' : Within scope t' t'') : Within scope t t'' := by
  refine ⟨fun {id n} hn ↦ ?_, fun {id} hid ↦ ?_⟩
  · obtain ⟨n', hn', hkey, hparent, hchildren⟩ := h.kept hn
    obtain ⟨n'', hn'', hkey', hparent', hchildren'⟩ := h'.kept hn'
    exact ⟨n'', hn'', hkey'.trans hkey, hparent'.trans hparent, hchildren.trans hchildren'⟩
  · rw [h'.outside hid, h.outside fun hbelow ↦ hid (h'.below hbelow)]

/-- A change within a child is one within its parent. -/
theorem of_isParent (h : Within child t t') (hchild : t.IsParent scope child) :
    Within scope t t' :=
  ⟨h.kept, fun {_} hid ↦ h.outside fun hbelow ↦ hid (.head (h.isParent hchild) hbelow)⟩

/-- Changes of the properties of a node are within it. -/
theorem modify {e : Node → Node} (he : ∀ n, (e n).stem = n.stem) :
    Within scope t (t.modify scope e) := by
  refine ⟨fun {id n} hn ↦ ?_, fun {id} hid ↦ node?_modify_of_ne _ _ ?_⟩
  · obtain ⟨n', hn', hkey, hparent, hchildren⟩ := (SameStems.modify t scope he).exists_node? hn
    exact ⟨n', hn', hkey, hparent, hchildren ▸ List.prefix_refl _⟩
  · rintro rfl
    exact hid .refl

/-- A new child of a node lies below it. -/
theorem sprout (hn : t.node? scope = some n) (key : Key) :
    Within scope t (t.sprout scope key) := by
  refine ⟨exists_node?_sprout hn key, fun {id} hid ↦ ?_⟩
  have hnew : (t.sprout scope key).IsParent scope (t.create key).1 := by
    refine parent?_eq (n := { Node.bare key with parent := some scope }) ?_
    rw [node?_sprout hn, if_pos rfl]
  rw [node?_sprout hn, if_neg, if_neg]
  · rintro rfl
    exact hid .refl
  · rintro rfl
    exact hid (.single hnew)

end Within

/-! ### Edits of a node -/

/-- A tree is changed within a node, whose outline is edited. -/
structure Edited (scope : NodeId) (f : Outline → Outline) (t t' : ContentTree) : Prop where
  linked : t'.Linked
  within : Within scope t t'
  outline : t'.outlineOf? scope = (t.outlineOf? scope).map f

/-- The outlines decide which child is found. -/
theorem Linked.findChild?_eq (ht : t.Linked) (id : NodeId) (key : Key) :
    t.findChild? id key =
      (t.childIds id).find? fun c ↦ (t.outlineOf? c).any fun o ↦ key.accepts o.key := by
  rw [findChild?]
  congr 1
  funext c
  rw [ht.outlineOf?_eq, Option.any_map]
  rfl

namespace Edited

theorem refl (ht : t.Linked) (scope : NodeId) : Edited scope id t t :=
  ⟨ht, .refl scope t, Option.map_id'.symm⟩

theorem trans (h : Edited scope f t t') (h' : Edited scope g t' t'') :
    Edited scope (g ∘ f) t t'' :=
  ⟨h'.linked, h.within.trans h'.within, by rw [h'.outline, h.outline, Option.map_map]⟩

/-- A property put into the scope is put into its outline. -/
theorem insert (ht : t.Linked) (scope : NodeId) (p : Property) :
    Edited scope (·.put p) t (t.modify scope fun node ↦ node.insert p) := by
  have hlinked := ht.modify (fun n ↦ n.stem_insert p) scope
  have hwithin : Within scope t (t.modify scope fun node ↦ node.insert p) :=
    .modify fun n ↦ n.stem_insert p
  refine ⟨hlinked, hwithin, ?_⟩
  rw [hlinked.outlineOf?_eq, node?_modify_self, ht.outlineOf?_eq, Option.map_map, Option.map_map]
  refine Option.map_congr fun n hn ↦ ?_
  have hchildren : n.children.filterMap (t.modify scope fun node ↦ node.insert p).outlineOf? =
      n.children.filterMap t.outlineOf? := by
    refine List.filterMap_congr fun c hc ↦ ht.outlineOf?_congr hlinked fun j hj ↦ ?_
    refine node?_modify_of_ne _ _ ?_
    rintro rfl
    exact ht.not_below_of_isParent ((ht.mem_children_iff hn).1 hc) hj
  show Outline.node n.key (n.insert p).properties (n.children.filterMap _) = _
  rw [Node.properties_insert, hchildren]
  rfl

/-- Editing the child that a key finds. -/
theorem of_findChild? (ht : t.Linked) (hfind : t.findChild? scope key = some child)
    (h : Edited child f t t') : Edited scope (Outline.enter key f) t t' := by
  obtain ⟨hmem, -⟩ := findChild?_eq_some hfind
  have hchild : t.IsParent scope child := ht.links.1 hmem
  refine ⟨h.linked, h.within.of_isParent hchild, ?_⟩
  obtain ⟨n, hn⟩ := isLive_iff.1 (isLive_of_mem_childIds hmem)
  have hscope : t'.node? scope = some n := by
    rw [h.within.outside fun hbelow ↦
      h.linked.not_below_of_isParent (h.within.isParent hchild) hbelow, hn]
  -- siblings of the child do not lie below it
  have hother : ∀ c ∈ n.children, c ≠ child → t'.outlineOf? c = t.outlineOf? c := by
    intro c hc hne
    have hparent := (ht.mem_children_iff hn).1 hc
    refine ht.outlineOf?_congr h.linked fun j hj ↦ h.within.outside fun hbelow ↦ hne ?_
    exact h.linked.eq_of_below (h.within.isParent hparent) (h.within.isParent hchild)
      (h.within.below hj) hbelow
  rw [ht.findChild?_eq, childIds_eq hn] at hfind
  have hnodup : n.children.Nodup := by
    rw [← childIds_eq hn]
    exact ht.nodup scope
  rw [h.linked.outlineOf?_of_node? hscope, ht.outlineOf?_of_node? hn,
    Outline.filterMap_eq_enterChild hfind hnodup h.outline hother]
  rfl

/-- A new last child is the first that its key accepts if no other is. -/
theorem sprout (ht : t.Linked) (hn : t.node? scope = some n)
    (hfind : t.findChild? scope key = none) :
    Edited scope (Outline.enter key id) t (t.sprout scope key) ∧
      (t.sprout scope key).findChild? scope key = some (t.create key).1 := by
  have hlinked := ht.sprout hn key
  have hwithin : Within scope t (t.sprout scope key) := .sprout hn key
  have hscope := node?_sprout_parent hn key
  have hnew : (t.sprout scope key).outlineOf? (t.create key).1 = some (.node key [] []) := by
    rw [hlinked.outlineOf?_eq, node?_sprout hn, if_pos rfl]
    rfl
  have hold : ∀ c ∈ n.children, (t.sprout scope key).outlineOf? c = t.outlineOf? c := by
    intro c hc
    have hparent := (ht.mem_children_iff hn).1 hc
    refine ht.outlineOf?_congr hlinked fun j hj ↦ ?_
    obtain ⟨m, hm⟩ := isLive_iff.1 (hj.isLive (isLive_of_parent? hparent))
    rw [node?_sprout hn, if_neg (ne_create_of_node? hm key), if_neg]
    rintro rfl
    exact ht.not_below_of_isParent hparent hj
  have hunseen : ∀ c ∈ n.children, ((t.outlineOf? c).any fun o ↦ key.accepts o.key) = false := by
    rw [ht.findChild?_eq, childIds_eq hn, List.find?_eq_none] at hfind
    exact fun c hc ↦ Bool.eq_false_iff.2 (hfind c hc)
  refine ⟨⟨hlinked, hwithin, ?_⟩, ?_⟩
  · rw [hlinked.outlineOf?_of_node? hscope, ht.outlineOf?_of_node? hn, List.filterMap_append,
      List.filterMap_congr hold, List.filterMap_cons_some hnew]
    show _ = some (Outline.node n.key n.properties
      (Outline.enterChild key id (n.children.filterMap t.outlineOf?)))
    rw [Outline.enterChild_of_unseen]
    · rfl
    · intro o ho
      obtain ⟨c, hc, hco⟩ := List.mem_filterMap.1 ho
      have haccepts := hunseen c hc
      rwa [hco] at haccepts
  · rw [hlinked.findChild?_eq, childIds_eq hscope]
    show (n.children ++ [(t.create key).1]).find? _ = _
    rw [List.find?_append, List.find?_eq_none.2, Option.none_or, List.find?_cons_of_pos]
    · rw [hnew, Option.any_some]
      exact key.accepts_self
    · intro c hc
      rw [hold c hc, hunseen c hc]
      exact Bool.false_ne_true

/-- The child that is found or made is the first that the key accepts, and nothing else changes. -/
theorem childOrCreate (ht : t.Linked) (hscope : t.isLive scope) (key : Key) :
    Edited scope (Outline.enter key id) t (t.childOrCreate scope key).2 ∧
      (t.childOrCreate scope key).2.findChild? scope key =
        some (t.childOrCreate scope key).1 := by
  obtain ⟨n, hn⟩ := isLive_iff.1 hscope
  cases hfind : t.findChild? scope key with
  | some child =>
    have heq : t.childOrCreate scope key = (child, t) := by
      rw [ContentTree.childOrCreate, hfind]
    rw [heq]
    exact ⟨of_findChild? ht hfind (.refl ht child), hfind⟩
  | none =>
    rw [ht.childOrCreate_eq_sprout hn hfind]
    exact sprout ht hn hfind

/-- Entering a child and editing it. -/
theorem enter (ht : t.Linked) (hscope : t.isLive scope)
    (h : Edited (t.childOrCreate scope key).1 f (t.childOrCreate scope key).2 t') :
    Edited scope (Outline.enter key f) t t' := by
  obtain ⟨hmade, hfind⟩ := childOrCreate ht hscope key
  have hentered := hmade.trans (of_findChild? hmade.linked hfind h)
  have hcomp : Outline.enter key f ∘ Outline.enter key id = Outline.enter key f :=
    funext Outline.enter_enter_id
  rwa [hcomp] at hentered

end Edited

end ContentTree

end ModContent
