import ModContent.Proofs.Package.Documents
import ModContent.Proofs.Package.Layers
import ModContent.Proofs.Reference.Settled
import ModContent.Proofs.Source.Recorded

/-!
# Loading a package again

A package that is loaded a second time finds everything in place: each header finds the node that it
found or made the first time, and each statement goes to its old slot. So both scans run in step
(`Content.Again`): they queue the same references, record the same slots and warn alike, and the
second one sees in the recorded slots what the first one sees there, and in all others what the
first load left. As the queues and the shapes are equal, the references lead along the same chains
and find the same values, and the tree stays as it is (`load_again`).
-/

namespace ModContent

open Content (Logs)

namespace Content

variable {done : ContentTree} {old new : List Diagnostic} {a b : Content}

/-- Two scans of the same files in step: the second one runs on the tree `done` that a load of them
left. The diagnostics start with `old` and `new`. -/
structure Again (done : ContentTree) (old new : List Diagnostic) (a b : Content) : Prop where
  recorded : a.Recorded
  shape : done.SameShape b.tree
  queue : b.queue = a.queue
  declared : b.declared = a.declared
  diagnostics : ∃ added, a.diagnostics = old ++ added ∧ b.diagnostics = new ++ added
  slots : ∀ place, b.tree.slot? place =
    if place ∈ a.declared then a.tree.slot? place else done.slot? place

namespace Again

/-- Two contents with nothing read of a package agree on it. -/
theorem start (t done : ContentTree) (old new : List Diagnostic) :
    Again done old new (Content.start t old) (Content.start done new) where
  recorded := recorded_start t old
  shape := .refl done
  queue := rfl
  declared := rfl
  diagnostics := ⟨[], (List.append_nil _).symm, (List.append_nil _).symm⟩
  slots _ := (if_neg List.not_mem_nil).symm

/-- What the second scan records is there, as what the first one records is. -/
theorem recorded_again (h : Again done old new a b) : b.Recorded := by
  refine ⟨fun place hplace ↦ ?_, fun r hr ↦ ?_⟩
  · rw [h.declared] at hplace
    rw [h.slots, if_pos hplace]
    exact h.recorded.slots place hplace
  · rw [h.queue] at hr
    rw [h.declared]
    exact h.recorded.queue r hr

/-- The slot of a declaration in the first scan is its slot in the second one, where the key is
there. -/
theorem exists_node?_again (h : Again done old new a b) {id : NodeId} {n : Node}
    (hn : a.tree.node? id = some n) {s : Statement} {location : Location}
    (hdone : (a.declare id s location).tree.Continues done) :
    ∃ m, b.tree.node? id = some m ∧ m.key = n.key ∧ m.slotFor s.key = n.slotFor s.key ∧
      s.key ∈ m.properties.map Property.key := by
  have hlive := ContentTree.isLive_iff.2 ⟨n, hn⟩
  have hdeclared : (a.declare id s location).tree.node? id =
      some (n.insert (declaredProperty s)) := by
    rw [tree_declare, ContentTree.node?_modify_self, hn, Option.map_some]
  obtain ⟨k, hk, hcontinues⟩ := hdone.kept hdeclared
  obtain ⟨m, hm, hshape⟩ := h.shape.exists_node? hk
  have hlater := hcontinues.trans (.of_shape_eq hshape)
  have hkey : s.key ∈ (n.insert (declaredProperty s)).properties.map Property.key := by
    rw [Node.keys_insert, key_declaredProperty]
    split
    · assumption
    · exact List.mem_append_right _ (List.mem_singleton_self _)
  have hplace := placeOf_declare (d := ⟨id, s, location⟩) hlive (.inr ⟨rfl, rfl⟩)
  rw [ContentTree.placeOf_eq hdeclared, ContentTree.placeOf_eq hn] at hplace
  exact ⟨m, hm, hlater.key, (hlater.slotFor_eq hkey).trans (Prod.mk.inj hplace).2,
    hlater.keys.subset hkey⟩

/-- **A declaration** goes to the same slot in both scans. -/
theorem declare (h : Again done old new a b) {id : NodeId} (hlive : a.tree.isLive id)
    {s : Statement} {location : Location}
    (hdone : (a.declare id s location).tree.Continues done) :
    Again done old new (a.declare id s location) (b.declare id s location) := by
  obtain ⟨n, hn⟩ := ContentTree.isLive_iff.1 hlive
  obtain ⟨m, hm, hlabel, hslot, hkey⟩ := h.exists_node?_again hn hdone
  refine ⟨h.recorded.declare hn, ?_, ?_, ?_, ?_, fun place ↦ ?_⟩
  · rw [tree_declare]
    refine h.shape.trans (ContentTree.sameShape_insert hm ?_)
    rwa [key_declaredProperty]
  · rw [queue_declare h.recorded.seated hn, queue_declare h.recorded_again.seated hm, h.queue,
      hslot]
  · rw [declared_declare hn, declared_declare hm, h.declared, hslot]
  · obtain ⟨added, ha, hb⟩ := h.diagnostics
    rw [h.recorded.diagnostics_declare hn, h.recorded_again.diagnostics_declare hm, h.declared,
      hslot, hlabel]
    split
    · exact ⟨_, by rw [ha, List.append_assoc], by rw [hb, List.append_assoc]⟩
    · exact ⟨added, ha, hb⟩
  · rw [tree_declare, ContentTree.slot?_insert hm, key_declaredProperty, hslot, tree_declare,
      ContentTree.slot?_insert hn, key_declaredProperty, h.slots]
    simp only [mem_declared_declare hn]
    by_cases hplace : place = (id, n.slotFor s.key)
    · rw [if_pos hplace, if_pos (.inl hplace), if_pos hplace]
    · rw [if_neg hplace, if_neg hplace]
      simp only [hplace, false_or]

/-- **A block** is found in the second scan where it was found or made in the first one. -/
theorem enter (h : Again done old new a b) (ht : a.tree.Linked) {scope : NodeId}
    (hscope : a.tree.isLive scope) {key : Key}
    (hdone : (a.tree.childOrCreate scope key).2.Continues done) :
    b.tree.childOrCreate scope key = ((a.tree.childOrCreate scope key).1, b.tree) ∧
      Again done old new { a with tree := (a.tree.childOrCreate scope key).2 } b := by
  obtain ⟨hmade, hfound⟩ := ContentTree.Edited.childOrCreate ht hscope key
  have hfind := hdone.findChild? hmade.linked hfound
  rw [← h.shape.findChild?_eq] at hfind
  have hslots := ht.slot?_childOrCreate hscope key
  refine ⟨?_, h.recorded.congr hslots, h.shape, h.queue, h.declared, h.diagnostics, fun place ↦ ?_⟩
  · rw [ContentTree.childOrCreate, hfind]
  · rw [h.slots]
    exact congrArg (ite _ · _) (hslots place).symm

/-- Parameters are declared one after the other. -/
theorem declare_parameters (h : Again done old new a b) (ht : a.tree.Linked) {id : NodeId}
    (hlive : a.tree.isLive id) {location : Location} (parameters : List Statement)
    (hdone : (parameters.foldl (fun content s ↦ content.declare id s location) a).tree.Continues
      done) :
    Again done old new (parameters.foldl (fun content s ↦ content.declare id s location) a)
      (parameters.foldl (fun content s ↦ content.declare id s location) b) := by
  induction parameters generalizing a b with
  | nil => exact h
  | cons s rest ih =>
    have hdeclared : Logs a [⟨id, s, location⟩] (a.declare id s location) :=
      Logs.declare (d := ⟨id, s, location⟩) .refl hlive
    have hlinked := hdeclared.linked ht
    have hrest := Item.logs_declare_parameters (a.declare id s location) id location rest
      (hdeclared.isLive ht hlive)
    exact ih (h.declare hlive ((hrest.continues hlinked).trans hdone)) hlinked
      (hdeclared.isLive ht hlive) hdone

end Again

end Content

/-! ### Evaluating again -/

namespace Item

open Content (Again)

variable {done : ContentTree} {old new : List Diagnostic} (locate : Nat → Location)

/-- A block is entered in the same node, and its parameters go to the same slots. -/
theorem again_enter {scope : NodeId} {a b : Content} (h : Again done old new a b)
    (ht : a.tree.Linked) (hscope : a.tree.isLive scope) (offset : Nat) (header : Header)
    (hdone : (enter locate scope a offset header).2.tree.Continues done) :
    (enter locate scope b offset header).1 = (enter locate scope a offset header).1 ∧
      Again done old new (enter locate scope a offset header).2
        (enter locate scope b offset header).2 := by
  have hmade := ht.childOrCreate hscope header.key
  have hchild := ht.isLive_childOrCreate hscope header.key
  have hparameters := (logs_declare_parameters
    { a with tree := (a.tree.childOrCreate scope header.key).2 } _ (locate offset)
    header.parameters hchild).continues hmade
  obtain ⟨hfound, hentered⟩ := h.enter ht hscope (hparameters.trans hdone)
  have hagain := hentered.declare_parameters hmade hchild header.parameters hdone
  rw [enter, enter, hfound]
  exact ⟨rfl, hagain⟩

mutual

/-- One item on both sides, by recursion on it. -/
theorem again_evaluate : ∀ (item : Item) {scope : NodeId} {a b : Content},
    Again done old new a b → a.tree.Linked → a.tree.isLive scope →
      (evaluate locate scope a item).tree.Continues done →
        Again done old new (evaluate locate scope a item) (evaluate locate scope b item)
  | statement offset s, scope, a, b, h, _, hscope, hdone => h.declare hscope hdone
  | block offset header items, scope, a, b, h, ht, hscope, hdone => by
    rw [evaluate] at hdone
    rw [evaluate, evaluate]
    obtain ⟨hlinked, hlive⟩ := linked_enter locate hscope ht offset header
    have hitems := (evaluateAll_spec locate items hlinked hlive).2.continues hlinked
    obtain ⟨hfound, hentered⟩ := again_enter locate h ht hscope offset header (hitems.trans hdone)
    rw [hfound]
    exact again_evaluateAll items hentered hlinked hlive hdone

/-- **Items evaluated again** do the same in the tree that a load of them left. -/
theorem again_evaluateAll : ∀ (items : List Item) {scope : NodeId} {a b : Content},
    Again done old new a b → a.tree.Linked → a.tree.isLive scope →
      (evaluateAll locate scope a items).tree.Continues done →
        Again done old new (evaluateAll locate scope a items) (evaluateAll locate scope b items)
  | [], _, _, _, h, _, _, _ => h
  | item :: rest, scope, a, b, h, ht, hscope, hdone => by
    obtain ⟨hedited, -⟩ := evaluate_spec locate item ht hscope
    have hlive := hedited.within.isLive hscope
    have hrest := (evaluateAll_spec locate rest hedited.linked hlive).2.continues hedited.linked
    exact again_evaluateAll rest (again_evaluate item h ht hscope (hrest.trans hdone))
      hedited.linked hlive hdone

end

end Item

namespace Content

variable {done : ContentTree} {old new : List Diagnostic} {a b : Content}

/-- Documents only add to the tree. -/
theorem continues_evaluateDocuments (ht : a.tree.Linked) (documents : List FileDocument) :
    (a.evaluateDocuments documents).tree.Linked ∧
      a.tree.Continues (a.evaluateDocuments documents).tree := by
  induction documents generalizing a with
  | nil => exact ⟨ht, .refl _⟩
  | cons d rest ih =>
    obtain ⟨hedited, hlogs⟩ := Item.evaluateAll_spec d.locate d.items ht ht.live
    obtain ⟨hlinked, hcontinues⟩ := ih hedited.linked
    exact ⟨hlinked, (hlogs.continues ht).trans hcontinues⟩

/-- The documents of a package are evaluated again. -/
theorem Again.evaluateDocuments (h : Again done old new a b) (ht : a.tree.Linked)
    (documents : List FileDocument)
    (hdone : (a.evaluateDocuments documents).tree.Continues done) :
    Again done old new (a.evaluateDocuments documents) (b.evaluateDocuments documents) := by
  induction documents generalizing a b with
  | nil => exact h
  | cons d rest ih =>
    obtain ⟨hedited, -⟩ := Item.evaluateAll_spec d.locate d.items ht ht.live
    have hrest := (continues_evaluateDocuments hedited.linked rest).2
    exact ih (Item.again_evaluateAll d.locate d.items h ht ht.live (hrest.trans hdone))
      hedited.linked hdone

/-! ### Resolving again -/

/-- Where nothing waits, the second scan sees what the first load left. -/
theorem Again.slot?_of_not_queued (h : Again done old new a b) {place : NodeId × Nat}
    (hkept : done.slot? place = a.tree.slot? place) : b.tree.slot? place = a.tree.slot? place := by
  rw [h.slots]
  split
  · rfl
  · exact hkept

/-- **The references of a second scan** find what they found after the first one. -/
theorem Again.resolve_eq (h : Again done old new a b)
    (hdistinct : (a.queue.map Reference.place).Nodup) {count : Nat}
    (hresolve : resolve a.tree a.queue = (done, .ok count)) :
    resolve b.tree b.queue = (done, .ok count) := by
  have hok : (resolve a.tree a.queue).2 = .ok count := congrArg Prod.snd hresolve
  have hseated := h.recorded_again.seated
  obtain rfl := eq_length_of_resolve_ok hdistinct h.recorded.seated hok
  obtain ⟨hshape, hfilled, hkept⟩ := resolve_ok hdistinct h.recorded.seated hok
  rw [hresolve] at hshape hfilled hkept
  have hsame : a.tree.SameShape b.tree := hshape.trans h.shape
  -- the references lead along the same chains
  have hleads : (resolve b.tree b.queue).2 = .ok a.queue.length := by
    obtain ⟨hlocate, hreturn⟩ := (resolve_ok_iff hdistinct h.recorded.seated).1 hok
    rw [← h.queue] at hdistinct ⊢
    refine (resolve_ok_iff hdistinct hseated).2 ⟨fun r hr ↦ ?_, ?_⟩
    · rw [hsame.locate?_eq]
      exact hlocate r (h.queue ▸ hr)
    · rw [h.queue, neverReturns_congr hsame fun _ ↦ .rfl]
      exact hreturn
  obtain ⟨hshape', hfilled', hkept'⟩ := resolve_ok (h.queue ▸ hdistinct) hseated hleads
  rw [h.queue] at hfilled' hkept'
  have htree : (resolve b.tree b.queue).1 = done := by
    refine (h.shape.trans hshape').eq_of_slot?_eq fun place ↦ ?_
    by_cases hplace : place ∈ a.queue.map Reference.place
    · obtain ⟨r, hr, rfl⟩ := List.mem_map.1 hplace
      obtain ⟨q, hq, hslot⟩ := hfilled r hr
      obtain ⟨q', hq', hslot'⟩ := hfilled' r hr
      rw [settles_congr hsame fun _ ↦ .rfl] at hq'
      obtain rfl := hq'.unique hdistinct hq
      have hvalues : Resolve.valuesAt b.tree q' = Resolve.valuesAt a.tree q' := by
        rw [Resolve.valuesAt, h.slot?_of_not_queued (hkept q' hq.2), Resolve.valuesAt]
      rw [h.queue, hslot', hslot, hvalues, h.slots, if_pos (h.recorded.queue r hr)]
    · rw [h.queue, hkept' place hplace, h.slot?_of_not_queued (hkept place hplace),
        hkept place hplace]
  exact Prod.ext htree hleads

end Content

/-! ### Loading again -/

/-- A package that was loaded last is loaded once more. -/
theorem Loaded.add_again {loaded once : Loaded} (ht : loaded.tree.Linked) {package : Package}
    (h : loaded.add package = .ok once) :
    ∃ twice added, once.add package = .ok twice ∧ twice.tree = once.tree ∧
      once.diagnostics = loaded.diagnostics ++ added ∧
      twice.diagnostics = once.diagnostics ++ added := by
  obtain ⟨scanned, stats, resolved, count, hfiles, hresolve, rfl⟩ := add_eq_ok_iff.1 h
  have hplaced := (logs_declarations ht hfiles).placed ht (Content.placed_start _ _)
  have hshape := (resolve_ok hplaced.nodup_places hplaced.seated (congrArg Prod.snd hresolve)).1
  rw [hresolve] at hshape
  obtain ⟨documents, hdocuments, rfl⟩ := Content.addFiles_eq_ok_iff.1 ⟨stats, hfiles⟩
  set scanned := (Content.start loaded.tree loaded.diagnostics).evaluateDocuments documents
  -- the second scan runs in step with the first one
  have hagain := (Content.Again.start loaded.tree resolved loaded.diagnostics
    scanned.diagnostics).evaluateDocuments ht documents (.of_sameShape hshape)
  obtain ⟨total, hscan⟩ := (Content.start resolved scanned.diagnostics).addFiles_documents
    documents ScanStats.zero
  rw [hdocuments] at hscan
  obtain ⟨added, hold, hnew⟩ := hagain.diagnostics
  exact ⟨_, added, add_eq_ok_iff.2 ⟨_, total, resolved, count, hscan,
    hagain.resolve_eq hplaced.nodup_places hresolve, rfl⟩, rfl, hold, hnew⟩

/-- **Loading a package again changes nothing.** When some packages load, and the last of them is
loaded a second time, the load succeeds with the same tree: the same nodes, in the same order, with
the same properties and values. Its diagnostics are those of the first load, and then the ones that
the last package added, once more. -/
theorem load_again (packages : List Package) (package : Package) (once : Loaded)
    (h : load (packages ++ [package]) = .ok once) :
    ∃ base twice added, load packages = .ok base ∧
      load (packages ++ [package, package]) = .ok twice ∧
      twice.tree = once.tree ∧
      once.diagnostics = base.diagnostics ++ added ∧
      twice.diagnostics = once.diagnostics ++ added := by
  obtain ⟨base, hbase, hadd⟩ := load_concat_eq_ok_iff.1 h
  obtain ⟨twice, added, hagain, hsays⟩ :=
    Loaded.add_again (loadable_of_load hbase).grown.linked hadd
  refine ⟨base, twice, added, hbase, ?_, hsays⟩
  rw [List.append_cons]
  exact load_concat_eq_ok_iff.2 ⟨once, h, hagain⟩

/-- A package that enters a block anew where a bare name finds it, declares a property twice, and
copies along a chain. -/
def chainedPackage : Package :=
  ⟨"mod", [⟨"guard.def", ["unit:guard \x7b hp = @scout.hp; hp = @top \x7d", "top = @scout.hp"]⟩,
    ⟨"scout.def", ["guard \x7b rank = 2 \x7d", "guard:scout(hp = 1) \x7b \x7d"]⟩]⟩

/-- A package that copies from an earlier one and from itself, loaded twice. -/
theorem load_again_of_chained : ∃ once, load ([copyingPackage] ++ [chainedPackage]) = .ok once ∧
    ∃ base twice added, load [copyingPackage] = .ok base ∧
      load ([copyingPackage] ++ [chainedPackage, chainedPackage]) = .ok twice ∧
      twice.tree = once.tree ∧
      once.diagnostics = base.diagnostics ++ added ∧
      twice.diagnostics = once.diagnostics ++ added := by
  have hloads : (load ([copyingPackage] ++ [chainedPackage])).isOk = true := by decide +kernel
  cases hload : load ([copyingPackage] ++ [chainedPackage]) with
  | error error =>
    rw [hload] at hloads
    cases hloads
  | ok once => exact ⟨once, rfl, load_again [copyingPackage] chainedPackage once hload⟩

end ModContent
