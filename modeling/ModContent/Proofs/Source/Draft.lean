import ModContent.Proofs.Package.Documents
import ModContent.Proofs.Tree.Extension
import ModContent.Proofs.Tree.Lookup

/-!
# Drafts

While a package is scanned, a property that waits has no values, and its path is in the queue. In
the **draft** of the content the path stands in the property itself (`Content.Drafts`), so the draft
says by itself what the content says with its queue. It has the same shape, and takes the same
steps.

What documents make of the outline of a draft depends on the items and on that outline only
(`Item.draftAll`, `Content.Drafts.evaluateDocuments`): neither handles nor the order of the queue
count.
-/

namespace ModContent

open ContentTree (Edited)

/-! ### Drafts of content -/

namespace Content

variable {content : Content} {draft : ContentTree} {id : NodeId} {s : Statement}
  {location : Location}

/-- The property that a statement declares, with the path of its reference as its value. -/
def draftProperty (s : Statement) : Property :=
  match s.value with
  | .values values => Property.of s.key values
  | .reference path => { Property.pending s.key with values := [path] }

@[simp] theorem key_draftProperty (s : Statement) : (draftProperty s).key = s.key := by
  rw [draftProperty]
  cases s.value <;> rfl

/-- A tree that differs from that of the content in the slots of the queue at most, where it holds
the paths. -/
structure Drafts (content : Content) (draft : ContentTree) : Prop where
  shape : content.tree.SameShape draft
  seated : content.Seated
  waiting : ∀ r ∈ content.queue, draft.slot? r.place =
    (content.tree.slot? r.place).map fun p ↦ { p with values := [r.path] }
  settled : ∀ place ∉ content.queue.map Reference.place,
    draft.slot? place = content.tree.slot? place

namespace Drafts

theorem start (t : ContentTree) (diagnostics : List Diagnostic) :
    Drafts (Content.start t diagnostics) t where
  shape := .refl t
  seated _ hr := absurd hr List.not_mem_nil
  waiting _ hr := absurd hr List.not_mem_nil
  settled _ _ := rfl

/-- A declaration makes the same step in the draft. -/
theorem declare (h : Drafts content draft) (hlive : content.tree.isLive id) :
    Drafts (content.declare id s location)
      (draft.modify id fun node ↦ node.insert (draftProperty s)) := by
  obtain ⟨n, hn⟩ := ContentTree.isLive_iff.1 hlive
  obtain ⟨m, hm, hshape⟩ := h.shape.exists_node? hn
  have hkeys : m.properties.map Property.key = n.properties.map Property.key :=
    congrArg NodeShape.propertyKeys hshape
  have hslot : m.slotFor s.key = n.slotFor s.key := by
    rw [Node.slotFor_eq_idxOf, hkeys, Node.slotFor_eq_idxOf]
  have hdraft : ∀ place, (draft.modify id fun node ↦ node.insert (draftProperty s)).slot? place =
      if place = (id, n.slotFor s.key) then some (draftProperty s) else draft.slot? place := by
    intro place
    rw [ContentTree.slot?_insert hm, key_draftProperty, hslot]
  have htree : ∀ place, (content.declare id s location).tree.slot? place =
      if place = (id, n.slotFor s.key) then some (declaredProperty s)
      else content.tree.slot? place := by
    intro place
    rw [tree_declare, ContentTree.slot?_insert hn, key_declaredProperty]
  have hqueue : (content.declare id s location).queue = _ := queue_declare h.seated hn
  refine ⟨?_, seated_declare (d := ⟨id, s, location⟩) hlive h.seated, fun r hr ↦ ?_,
    fun place hplace ↦ ?_⟩
  · rw [tree_declare]
    exact h.shape.insert id (by rw [key_draftProperty, key_declaredProperty])
  · rw [hdraft, htree]
    rw [hqueue] at hr
    rcases List.mem_append.1 hr with hold | hnew
    · obtain ⟨hmem, hne⟩ := List.mem_filter.1 hold
      rw [if_neg (bne_iff_ne.1 hne), if_neg (bne_iff_ne.1 hne)]
      exact h.waiting r hmem
    · cases hvalue : s.value with
      | values values =>
        rw [hvalue] at hnew
        exact absurd hnew List.not_mem_nil
      | reference path =>
        rw [hvalue] at hnew
        obtain rfl := List.mem_singleton.1 hnew
        have hplace : Reference.place ⟨id, n.slotFor s.key, path, location⟩ =
            (id, n.slotFor s.key) := rfl
        rw [if_pos hplace, if_pos hplace, draftProperty, declaredProperty, hvalue]
        rfl
  · rw [hdraft, htree]
    rw [hqueue, List.map_append, List.mem_append, not_or] at hplace
    split
    · next heq =>
      rw [draftProperty, declaredProperty]
      cases hvalue : s.value with
      | values values => rfl
      | reference path =>
        rw [hvalue] at hplace
        exact absurd (List.mem_singleton.2 heq) hplace.2
    · next hne =>
      refine h.settled place fun hmem ↦ hplace.1 ?_
      obtain ⟨r, hr, rfl⟩ := List.mem_map.1 hmem
      exact List.mem_map_of_mem (List.mem_filter.2 ⟨hr, bne_iff_ne.2 hne⟩)

/-- A block is entered in the same node. -/
theorem childOrCreate (h : Drafts content draft) (ht : content.tree.Linked)
    (hlive : content.tree.isLive id) (key : Key) :
    (draft.childOrCreate id key).1 = (content.tree.childOrCreate id key).1 ∧
      Drafts { content with tree := (content.tree.childOrCreate id key).2 }
        (draft.childOrCreate id key).2 := by
  obtain ⟨hhandle, hshape⟩ := h.shape.childOrCreate ht hlive key
  have htree := ht.slot?_childOrCreate hlive key
  have hdraft := (h.shape.linked ht).slot?_childOrCreate (h.shape.isLive hlive) key
  refine ⟨hhandle, hshape, fun r hr ↦ ?_, fun r hr ↦ ?_, fun place hplace ↦ ?_⟩
  · rw [htree]
    exact h.seated r hr
  · rw [hdraft, htree]
    exact h.waiting r hr
  · rw [hdraft, htree]
    exact h.settled place hplace

end Drafts

end Content

/-! ### Drafting documents -/

namespace Item

open Content (Drafts draftProperty)

mutual

/-- What an item does to the outline of a draft, in the node in which it stands. -/
def draft : Item → Outline → Outline
  | statement _ s, o => o.put (draftProperty s)
  | block _ header items, o => o.enter header.key fun child ↦
      draftAll items ((header.parameters.map draftProperty).foldl Outline.put child)

/-- What items do one after the other. -/
def draftAll : List Item → Outline → Outline
  | [], o => o
  | item :: rest, o => draftAll rest (draft item o)

end

theorem draftAll_append (items more : List Item) (o : Outline) :
    draftAll (items ++ more) o = draftAll more (draftAll items o) := by
  induction items generalizing o with
  | nil => rfl
  | cons item rest ih => exact ih (draft item o)

section

variable (locate : Nat → Location) {scope : NodeId} {content : Content} {tree : ContentTree}

/-- Parameters are drafted in the node that is entered. -/
theorem draft_parameters (h : Drafts content tree) (hlive : content.tree.isLive scope)
    (ht : content.tree.Linked) (location : Location) (parameters : List Statement) :
    ∃ after, Drafts (parameters.foldl (fun content s ↦ content.declare scope s location) content)
        after ∧
      Edited scope (fun o ↦ (parameters.map draftProperty).foldl Outline.put o) tree after := by
  induction parameters generalizing content tree with
  | nil => exact ⟨tree, h, .refl (h.shape.linked ht) scope⟩
  | cons s rest ih =>
    have hinsert := Edited.insert (h.shape.linked ht) scope (draftProperty s)
    have hdeclared : Content.Logs content [⟨scope, s, location⟩]
        (content.declare scope s location) :=
      Content.Logs.declare (d := ⟨scope, s, location⟩) .refl hlive
    obtain ⟨after, hafter, hedited⟩ := ih (h.declare hlive)
      ((Content.isLive_declare ..).trans hlive) (hdeclared.linked ht)
    exact ⟨after, hafter, hinsert.trans hedited⟩

mutual

/-- One item on both sides, by recursion on it. -/
theorem drafts_evaluate : ∀ (item : Item) {scope : NodeId} {content : Content}
    {tree : ContentTree}, Drafts content tree → content.tree.Linked → content.tree.isLive scope →
      ∃ after, Drafts (evaluate locate scope content item) after ∧
        Edited scope item.draft tree after
  | statement offset s, scope, content, tree, h, ht, hscope =>
    ⟨_, h.declare hscope, .insert (h.shape.linked ht) scope (draftProperty s)⟩
  | block offset header items, scope, content, tree, h, ht, hscope => by
    obtain ⟨hhandle, hentered⟩ := h.childOrCreate ht hscope header.key
    have hmade := ht.childOrCreate hscope header.key
    have hchild := ht.isLive_childOrCreate hscope header.key
    obtain ⟨parameters, hparameters, heditedParameters⟩ :=
      draft_parameters hentered hchild hmade (locate offset) header.parameters
    obtain ⟨hlinked, hlive⟩ := linked_enter locate hscope ht offset header
    obtain ⟨after, hafter, heditedItems⟩ := drafts_evaluateAll items hparameters hlinked hlive
    have hedited := heditedParameters.trans heditedItems
    refine ⟨after, hafter, Edited.enter (h.shape.linked ht) (h.shape.isLive hscope) ?_⟩
    rw [hhandle]
    exact hedited

/-- **Evaluating items** edits the outline of the draft. -/
theorem drafts_evaluateAll : ∀ (items : List Item) {scope : NodeId} {content : Content}
    {tree : ContentTree}, Drafts content tree → content.tree.Linked → content.tree.isLive scope →
      ∃ after, Drafts (evaluateAll locate scope content items) after ∧
        Edited scope (draftAll items) tree after
  | [], scope, _, tree, h, ht, _ => ⟨tree, h, .refl (h.shape.linked ht) scope⟩
  | item :: rest, scope, content, tree, h, ht, hscope => by
    obtain ⟨mid, hmid, hfirst⟩ := drafts_evaluate item h ht hscope
    obtain ⟨hedited, -⟩ := evaluate_spec locate item ht hscope
    obtain ⟨after, hafter, hrest⟩ :=
      drafts_evaluateAll rest hmid hedited.linked (hedited.within.isLive hscope)
    exact ⟨after, hafter, hfirst.trans hrest⟩

end

end

end Item

/-- The items of some documents, in order. -/
def FileDocument.allItems (documents : List FileDocument) : List Item :=
  documents.flatMap FileDocument.items

/-- **The draft of a package** has the outline that its items make of the outline before. -/
theorem Content.Drafts.evaluateDocuments {content : Content} {draft : ContentTree}
    (h : Drafts content draft) (ht : content.tree.Linked) (documents : List FileDocument) :
    ∃ after, Drafts (content.evaluateDocuments documents) after ∧
      after.outline = Item.draftAll (FileDocument.allItems documents) draft.outline := by
  induction documents generalizing content draft with
  | nil => exact ⟨draft, h, rfl⟩
  | cons d rest ih =>
    obtain ⟨mid, hmid, hedited⟩ := Item.drafts_evaluateAll d.locate d.items h ht ht.live
    have hlinked := (Item.evaluateAll_spec d.locate d.items ht ht.live).1.linked
    obtain ⟨after, hafter, houtline⟩ := ih hmid hlinked
    have hfirst := hedited.outline
    rw [hedited.linked.outlineOf?_root, (h.shape.linked ht).outlineOf?_root, Option.map_some]
      at hfirst
    refine ⟨after, hafter, ?_⟩
    rw [houtline, Option.some.inj hfirst, FileDocument.allItems, FileDocument.allItems,
      List.flatMap_cons, Item.draftAll_append]

end ModContent
