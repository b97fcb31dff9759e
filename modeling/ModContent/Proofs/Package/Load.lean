import ModContent.Proofs.Outcome
import ModContent.Proofs.Reference.Resolution
import ModContent.Proofs.Source.Kept
import ModContent.Proofs.Tree.Tidy

/-!
# What a load leaves

While the files of a package are scanned, the slots of its queue are those that wait for values,
each once (`Content.Sound`). So when the queue has been resolved nothing waits any more, and the
tree that the next package starts from is grown, tidy and complete (`ContentTree.Loadable`). That is
what every load leaves (`loadable_of_load`).
-/

namespace ModContent

open Resolve

/-- A tree as loads leave it: grown, tidy, and with the readings of every property. -/
structure ContentTree.Loadable (t : ContentTree) : Prop where
  grown : t.Grown
  tidy : t.Tidy
  computed : ∀ {place p}, t.slot? place = some p → p.isComputed

theorem ContentTree.loadable_new : ContentTree.new.Loadable where
  grown := grown_new
  tidy := orderly_new
  computed {place p} hp := by
    obtain ⟨id, i⟩ := place
    obtain ⟨n, hn, hi⟩ := slot?_eq_some_iff.1 hp
    obtain ⟨-, rfl⟩ := eq_of_node?_new hn
    cases hi

namespace Content

/-- The content of a package while its files are scanned: the queued slots are those that wait. -/
structure Sound (content : Content) : Prop where
  grown : content.tree.Grown
  tidy : content.tree.Tidy
  distinct : (content.queue.map Reference.place).Nodup
  waits : ∀ place, place ∈ content.queue.map Reference.place ↔
    ∃ p, content.tree.slot? place = some p ∧ p.derived = none

variable {content : Content} {id : NodeId} {s : Statement} {location : Location} {node : Node}

/-- A content without declarations is sound if its tree is loadable. -/
theorem sound_start {t : ContentTree} (ht : t.Loadable) (diagnostics : List Diagnostic) :
    (Content.start t diagnostics).Sound where
  grown := ht.grown
  tidy := ht.tidy
  distinct := List.nodup_nil
  waits place := by
    refine ⟨fun h ↦ absurd h List.not_mem_nil, fun ⟨p, hp, hwaits⟩ ↦ ?_⟩
    have hcomputed := ht.computed hp
    rw [Property.isComputed, hwaits] at hcomputed
    cases hcomputed

/-- In a sound content the queue is kept in place. -/
theorem Sound.seated (h : content.Sound) : content.Seated := by
  intro r hr
  obtain ⟨p, hp, -⟩ := (h.waits r.place).1 (List.mem_map_of_mem hr)
  rw [hp]
  rfl

/-! ### Declaring -/

theorem written_declaredProperty (hs : s.Written) : (declaredProperty s).Written := by
  rw [declaredProperty]
  cases hvalue : s.value with
  | values values => exact ⟨hs.key, hs.values values hvalue, Property.fresh_of _ _⟩
  | reference path => exact ⟨hs.key, writable_nil, Property.fresh_pending _⟩

/-- Cancelling takes the place out of the queue and leaves the others. -/
theorem places_cancel (queue : List Reference) (place : NodeId × Nat) :
    (Reference.cancel queue place).map Reference.place =
      (queue.map Reference.place).filter (· != place) := by
  rw [Reference.cancel, List.filter_map]
  rfl

/-- Declaring a written statement keeps the content sound. -/
theorem Sound.declare (h : content.Sound) (hid : content.tree.isLive id) (hs : s.Written) :
    (content.declare id s location).Sound := by
  obtain ⟨node, hnode⟩ := ContentTree.isLive_iff.1 hid
  have hslots := ContentTree.slot?_insert hnode (declaredProperty s)
  rw [key_declaredProperty] at hslots
  have hold : ∀ place, place ∈ (Reference.cancel content.queue
      (id, node.slotFor s.key)).map Reference.place ↔
      (∃ p, content.tree.slot? place = some p ∧ p.derived = none) ∧
        place ≠ (id, node.slotFor s.key) := by
    intro place
    rw [places_cancel, List.mem_filter, h.waits, bne_iff_ne]
  have hdistinct : ((Reference.cancel content.queue (id, node.slotFor s.key)).map
      Reference.place).Nodup := by
    rw [places_cancel]
    exact h.distinct.filter _
  refine ⟨?_, ?_, ?_, fun place ↦ ?_⟩
  · rw [tree_declare]
    exact h.grown.congr (.modify _ id fun n ↦ n.stem_insert _)
  · rw [tree_declare]
    exact h.tidy.insert (written_declaredProperty hs)
  · rw [queue_declare h.seated hnode, List.map_append]
    cases s.value with
    | values values => exact (List.append_nil _).symm ▸ hdistinct
    | reference path =>
      refine hdistinct.append (List.nodup_singleton _) fun place hplace hnew ↦ ?_
      obtain rfl := List.mem_singleton.1 hnew
      exact ((hold _).1 hplace).2 rfl
  · rw [queue_declare h.seated hnode, List.map_append, List.mem_append, hold, tree_declare, hslots]
    by_cases hplace : place = (id, node.slotFor s.key)
    · simp only [hplace, if_true, declaredProperty]
      cases s.value with
      | values values => simp [Property.of]
      | reference path => simp [Property.pending, Reference.place]
    · simp only [hplace, if_false, ne_eq, not_false_iff, and_true]
      cases s.value with
      | values values => simp
      | reference path => simp [Reference.place, hplace]

/-- Entering a block keeps the content sound. -/
theorem Sound.enter (h : content.Sound) (hid : content.tree.isLive id) {key : Key}
    (hkey : key.Grammatical) :
    Sound { content with tree := (content.tree.childOrCreate id key).2 } := by
  refine ⟨h.grown.childOrCreate hid key, h.tidy.childOrCreate h.grown hid hkey, h.distinct,
    fun place ↦ ?_⟩
  obtain ⟨n, hn⟩ := ContentTree.isLive_iff.1 hid
  rcases h.grown.linked.childOrCreate_cases hn key with ⟨child, node, heq, -⟩ | ⟨heq, -⟩
  · simp only [heq]
    exact h.waits place
  · simp only [heq, ContentTree.slot?_sprout hn]
    exact h.waits place

/-- Every step of a scan keeps a content sound. -/
theorem preserved_sound : Preserved .plain Sound :=
  ⟨Sound.grown, fun h hid hkey ↦ h.enter hid hkey, fun h hid hs ↦ h.declare hid hs⟩

/-! ### Resolving -/

/-- When the queue of a sound content resolves, nothing waits any more. -/
theorem Sound.loadable_of_resolve (h : content.Sound) {count : Nat}
    (hok : (resolve content.tree content.queue).2 = .ok count) :
    (resolve content.tree content.queue).1.Loadable := by
  have hlive : ∀ r ∈ content.queue, (content.tree.slot? r.place).isSome := by
    intro r hr
    obtain ⟨p, hp, -⟩ := (h.waits r.place).1 (List.mem_map_of_mem hr)
    rw [hp]
    rfl
  have hwritten : ∀ {place p}, content.tree.slot? place = some p → p.Written := by
    intro place p hp
    obtain ⟨id, i⟩ := place
    obtain ⟨n, hn, hi⟩ := ContentTree.slot?_eq_some_iff.1 hp
    exact h.tidy.written hn (List.mem_of_getElem? hi)
  have hvalues : ∀ place, Writable (valuesAt content.tree place) := by
    intro place
    rw [valuesAt]
    cases hp : content.tree.slot? place with
    | none => exact writable_nil
    | some p => exact (hwritten hp).values
  obtain ⟨hshape, hfilled, hkept⟩ := resolve_ok h.distinct hlive hok
  -- a slot of the queue was filled, and any other one did not wait
  have hslot : ∀ {place p}, (resolve content.tree content.queue).1.slot? place = some p →
      p.Written ∧ p.isComputed := by
    intro place p hp
    by_cases hqueued : place ∈ content.queue.map Reference.place
    · obtain ⟨r, hr, rfl⟩ := List.mem_map.1 hqueued
      obtain ⟨q, -, hassigned⟩ := hfilled r hr
      rw [hp] at hassigned
      obtain ⟨old, hold, rfl⟩ := Option.map_eq_some_iff.1 hassigned.symm
      exact ⟨⟨(hwritten hold).key, hvalues q, Property.fresh_assign _ _⟩, rfl⟩
    · rw [hkept place hqueued] at hp
      refine ⟨hwritten hp, ?_⟩
      rw [Property.isComputed, Option.isSome_iff_ne_none]
      exact fun hnone ↦ hqueued ((h.waits place).2 ⟨p, hp, hnone⟩)
  exact ⟨h.grown.congr (.of_sameShape hshape), h.tidy.of_sameShape hshape fun _ _ hp ↦ (hslot hp).1,
    fun hp ↦ (hslot hp).2⟩

end Content

/-! ### Loading -/

/-- A package that is added leaves a loadable tree. -/
theorem Loading.loadable_addPackage {loading : Loading} (h : loading.tree.Loadable)
    {package : Package} {stats : LoadStats} (hok : (loading.addPackage package).2 = .ok stats) :
    (loading.addPackage package).1.tree.Loadable := by
  have hscanned : ((Content.start loading.tree loading.diagnostics).addFiles package.files
      ScanStats.zero).1.Sound :=
    Content.preserved_sound.addFiles (Content.sound_start h _) _ _
  rw [addPackage] at hok ⊢
  split at hok
  · cases hok
  · next scanned stats heq =>
    rw [heq] at hscanned
    simp only [Content.resolveAll] at hok ⊢
    cases hresolve : (resolve scanned.tree scanned.queue).2 with
    | error failure => rw [hresolve] at hok; cases hok
    | ok count => exact hscanned.loadable_of_resolve hresolve

theorem Loaded.loadable_add {loaded next : Loaded} (h : loaded.tree.Loadable) {package : Package}
    (hok : loaded.add package = .ok next) : next.tree.Loadable := by
  rw [Loaded.add] at hok
  split at hok
  · cases hok
  · next loading stats heq =>
    obtain rfl := Except.ok.inj hok
    have hstats : (Loading.addPackage ⟨loaded.tree, loaded.diagnostics⟩ package).2 = .ok stats := by
      rw [heq]
    have hadded := Loading.loadable_addPackage h hstats
    rwa [heq] at hadded

theorem Loaded.loadable_addAll {packages : List Package} {start loaded : Loaded}
    (h : start.tree.Loadable) (hok : packages.foldlM Loaded.add start = .ok loaded) :
    loaded.tree.Loadable := by
  induction packages generalizing start with
  | nil =>
    obtain rfl := Except.ok.inj hok
    exact h
  | cons package rest ih =>
    rw [List.foldlM_cons] at hok
    obtain ⟨next, hadd, hrest⟩ := bind_eq_ok_iff.1 hok
    exact ih (loadable_add h hadd) hrest

/-- Every load ends with a loadable tree. -/
theorem loadable_of_load {packages : List Package} {loaded : Loaded}
    (hok : load packages = .ok loaded) : loaded.tree.Loadable :=
  Loaded.loadable_addAll ContentTree.loadable_new hok

end ModContent
