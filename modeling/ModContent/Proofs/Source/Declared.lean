import ModContent.Proofs.Source.Declare
import ModContent.Proofs.Tree.Within

/-!
# What declarations leave

Content is read by entering blocks and declaring statements in them, in some order
(`Content.Logs`). The log of the declarations tells what stands in the nodes at the end
(`Content.Declared`): each key has the place of its first declaration, and there stands, or waits,
what was declared last.
-/

namespace ModContent

/-- A statement declared in a node. -/
structure Declaration where
  node : NodeId
  statement : Statement
  location : Location
  deriving DecidableEq, Repr

/-- The reference that a declaration leaves waiting in a slot. -/
def Declaration.waiting (d : Declaration) (slot : Nat) : List Reference :=
  match d.statement.value with
  | .values _ => []
  | .reference path => [⟨d.node, slot, path, d.location⟩]

/-- The keys declared in a node. -/
def declaredKeys (log : List Declaration) (id : NodeId) : List Key :=
  (log.filter fun d ↦ d.node = id).map fun d ↦ d.statement.key

/-- The declarations of exactly this key in a node. -/
def declarationsOf (log : List Declaration) (id : NodeId) (key : Key) : List Declaration :=
  log.filter fun d ↦ d.node = id ∧ d.statement.key = key

/-- The last declaration adds its key to those of its node. -/
theorem declaredKeys_concat (log : List Declaration) (d : Declaration) (id : NodeId) :
    declaredKeys (log ++ [d]) id =
      if d.node = id then declaredKeys log id ++ [d.statement.key] else declaredKeys log id := by
  rw [declaredKeys, List.filter_append, List.map_append, ← declaredKeys]
  split
  · next hid => simp [hid]
  · next hid => simp [hid]

/-- The last declaration counts for its node and its key. -/
theorem declarationsOf_concat (log : List Declaration) (d : Declaration) (id : NodeId) (key : Key) :
    declarationsOf (log ++ [d]) id key =
      if d.node = id ∧ d.statement.key = key then declarationsOf log id key ++ [d]
      else declarationsOf log id key := by
  rw [declarationsOf, List.filter_append, ← declarationsOf]
  split
  · next hof => simp [hof]
  · next hof => simpa using hof

namespace ContentTree

variable {t : ContentTree} {id : NodeId} {key : Key} {n : Node}

/-- The keys of the properties of a node. -/
def keys (t : ContentTree) (id : NodeId) : List Key := (t.properties id).map Property.key

/-- The place of the first property of a node with exactly this key. -/
def placeOf (t : ContentTree) (id : NodeId) (key : Key) : NodeId × Nat :=
  (id, (t.keys id).idxOf key)

/-- The properties at an id are those of the node. -/
theorem properties_eq (hn : t.node? id = some n) : t.properties id = n.properties := by
  rw [properties, hn]
  rfl

/-- The place of a key is where the node has it or would put it. -/
theorem placeOf_eq (hn : t.node? id = some n) (key : Key) :
    t.placeOf id key = (id, n.slotFor key) := by
  rw [placeOf, keys, properties_eq hn, Node.slotFor, List.idxOf, List.findIdx_map]
  rfl

end ContentTree

/-! ### Properties put in -/

/-- A key is added behind the others, if it is new. -/
theorem keys_putProperty (p : Property) (properties : List Property) :
    (putProperty p properties).map Property.key =
      if p.key ∈ properties.map Property.key then properties.map Property.key
      else properties.map Property.key ++ [p.key] := by
  have hkeys := Node.keys_insert { Node.bare (Key.named "") with properties } p
  rwa [Node.properties_insert] at hkeys

/-- The property that was put is found by its key, the others as before. -/
theorem find?_putProperty (p : Property) (properties : List Property) (key : Key) :
    (putProperty p properties).find? (fun q ↦ q.key = key) =
      if p.key = key then some p else properties.find? fun q ↦ q.key = key := by
  induction properties with
  | nil => by_cases hp : p.key = key <;> simp [putProperty, hp]
  | cons q rest ih =>
    rw [putProperty]
    by_cases hq : q.key = p.key
    · rw [if_pos hq, List.find?_cons, List.find?_cons, hq]
      by_cases hp : p.key = key <;> simp [hp]
    · rw [if_neg hq, List.find?_cons, List.find?_cons, ih]
      by_cases hqkey : q.key = key
      · have hp : p.key ≠ key := fun hp ↦ hq (hqkey.trans hp.symm)
        simp [hqkey, hp]
      · simp [hqkey]

/-- A list followed by the new elements of another, each once: one element more. -/
theorem append_eraseDups_concat (old new : List Key) (key : Key) :
    old ++ ((new ++ [key]).filter (· ∉ old)).eraseDups =
      if key ∈ old ++ (new.filter (· ∉ old)).eraseDups
      then old ++ (new.filter (· ∉ old)).eraseDups
      else old ++ (new.filter (· ∉ old)).eraseDups ++ [key] := by
  rw [List.filter_append]
  by_cases hold : key ∈ old
  · rw [if_pos (List.mem_append_left _ hold), List.filter_cons_of_neg (by simpa using hold)]
    exact congrArg (fun new ↦ old ++ List.eraseDups new) (List.append_nil _)
  · rw [List.filter_cons_of_pos (by simpa using hold), List.filter_nil, List.eraseDups_append]
    have hone : [key].eraseDups = [key] := rfl
    by_cases hnew : key ∈ new
    · simp [hold, hnew, List.removeAll]
    · simp [hold, hnew, List.removeAll, hone]

namespace Content

variable {log : List Declaration} {d : Declaration} {start before reached after : Content}

/-! ### A declaration more -/

/-- What stands in each node after some declarations, by what stood there before. -/
structure Declared (log : List Declaration) (before after : Content) : Prop where
  /-- The new keys come after the old ones, in the order of their first declarations. -/
  keys : ∀ id, after.tree.keys id =
    before.tree.keys id ++ ((declaredKeys log id).filter (· ∉ before.tree.keys id)).eraseDups
  /-- Under a key stands the property declared last. -/
  last : ∀ id key, (after.tree.properties id).find? (fun p ↦ p.key = key) =
    ((declarationsOf log id key).getLast?.map fun d ↦ declaredProperty d.statement).or
      ((before.tree.properties id).find? fun p ↦ p.key = key)
  seated : before.Seated → after.Seated
  /-- What waits in a slot is what the last declaration left there. -/
  queue : before.Seated → ∀ id, ∀ key ∈ after.tree.keys id,
    after.queue.filter (fun r ↦ r.place = after.tree.placeOf id key) =
      ((declarationsOf log id key).getLast?.map fun d ↦
        d.waiting (after.tree.placeOf id key).2).getD
          (before.queue.filter fun r ↦ r.place = after.tree.placeOf id key)

/-- A declaration puts its property into its node and leaves other nodes alone. -/
theorem properties_declare (hd : start.tree.isLive d.node) (id : NodeId) :
    (start.declare d.node d.statement d.location).tree.properties id =
      if id = d.node then putProperty (declaredProperty d.statement) (start.tree.properties id)
      else start.tree.properties id := by
  rw [tree_declare, ContentTree.properties, ContentTree.node?_modify]
  split
  · next hid =>
    obtain ⟨n, hn⟩ := ContentTree.isLive_iff.1 hd
    rw [hid, hn, ContentTree.properties_eq hn, ← Node.properties_insert]
    rfl
  · rfl

namespace Declared

theorem refl (start : Content) : Declared [] start start := by
  refine ⟨fun id ↦ ?_, fun id key ↦ rfl, id, fun _ id key _ ↦ rfl⟩
  exact (List.append_nil _).symm

/-- What stands in the nodes is what their properties are. -/
theorem congr (h : Declared log before after)
    (hproperties : ∀ id, reached.tree.properties id = after.tree.properties id)
    (hqueue : reached.queue = after.queue) : Declared log before reached := by
  have hkeys : ∀ id, reached.tree.keys id = after.tree.keys id :=
    fun id ↦ congrArg (List.map Property.key) (hproperties id)
  have hplaces : ∀ id key, reached.tree.placeOf id key = after.tree.placeOf id key := by
    intro id key
    rw [ContentTree.placeOf, hkeys]
    rfl
  refine ⟨fun id ↦ ?_, fun id key ↦ ?_, fun hbefore ↦ ?_, fun hbefore id key hkey ↦ ?_⟩
  · rw [hkeys]
    exact h.keys id
  · rw [hproperties]
    exact h.last id key
  · intro r hr
    have hslot := h.seated hbefore r (hqueue ▸ hr)
    rw [ContentTree.slot?_eq_properties] at hslot ⊢
    rwa [hproperties]
  · rw [hqueue, hplaces]
    exact h.queue hbefore id key (hkeys id ▸ hkey)

end Declared

/-! #### What a declaration changes -/

/-- Another key has another place. -/
theorem placeOf_ne {id : NodeId} {key : Key} (hkey : key ∈ start.tree.keys id)
    (hother : ¬ (d.node = id ∧ d.statement.key = key)) :
    start.tree.placeOf id key ≠ start.tree.placeOf d.node d.statement.key := by
  intro heq
  obtain ⟨rfl, hslot⟩ := Prod.mk.inj heq
  exact hother ⟨rfl, ((List.idxOf_inj hkey).1 hslot).symm⟩

section Declare

variable (hd : start.tree.isLive d.node)
include hd

/-- The keys of a node grow by the key that is declared there. -/
theorem keys_declare (id : NodeId) :
    (start.declare d.node d.statement d.location).tree.keys id =
      if id = d.node ∧ d.statement.key ∉ start.tree.keys id
      then start.tree.keys id ++ [d.statement.key] else start.tree.keys id := by
  have hkeys : start.tree.keys id = (start.tree.properties id).map Property.key := rfl
  rw [ContentTree.keys, properties_declare hd]
  by_cases hid : id = d.node
  · rw [if_pos hid, keys_putProperty, key_declaredProperty, ← hkeys]
    by_cases hkey : d.statement.key ∈ start.tree.keys id
    · rw [if_pos hkey, if_neg fun h ↦ h.2 hkey]
    · rw [if_neg hkey, if_pos ⟨hid, hkey⟩]
  · rw [if_neg hid, if_neg fun h ↦ hid h.1, ← hkeys]

/-- A declaration moves no key. -/
theorem placeOf_declare {id : NodeId} {key : Key}
    (hkey : key ∈ start.tree.keys id ∨ id = d.node ∧ key = d.statement.key) :
    (start.declare d.node d.statement d.location).tree.placeOf id key =
      start.tree.placeOf id key := by
  rw [ContentTree.placeOf, keys_declare hd]
  split
  · next hnew =>
    by_cases hmem : key ∈ start.tree.keys id
    · rw [List.idxOf_append_of_mem hmem]
      rfl
    · obtain ⟨-, rfl⟩ := hkey.resolve_left hmem
      rw [List.idxOf_append_of_notMem hmem, List.idxOf_cons_self, Nat.add_zero,
        ContentTree.placeOf, List.idxOf_of_notMem hmem]
  · rfl

/-- A declaration concerns the queue at its own place only. -/
theorem filter_queue_declare (hseated : start.Seated) (place : NodeId × Nat) :
    (start.declare d.node d.statement d.location).queue.filter (fun r ↦ r.place = place) =
      if place = start.tree.placeOf d.node d.statement.key
      then d.waiting place.2
      else start.queue.filter fun r ↦ r.place = place := by
  obtain ⟨n, hn⟩ := ContentTree.isLive_iff.1 hd
  have hqueue : (start.declare d.node d.statement d.location).queue =
      Reference.cancel start.queue (d.node, n.slotFor d.statement.key) ++
        d.waiting (n.slotFor d.statement.key) := queue_declare hseated hn
  have hwaiting : ∀ r ∈ d.waiting (n.slotFor d.statement.key),
      r.place = (d.node, n.slotFor d.statement.key) := by
    intro r hr
    rw [Declaration.waiting] at hr
    split at hr
    · exact absurd hr List.not_mem_nil
    · obtain rfl := List.mem_singleton.1 hr
      rfl
  rw [hqueue, List.filter_append, ContentTree.placeOf_eq hn, Reference.cancel, List.filter_filter]
  split
  · next hplace =>
    subst hplace
    rw [List.filter_eq_self.2 fun r hr ↦ decide_eq_true (hwaiting r hr),
      List.filter_eq_nil_iff.2, List.nil_append]
    intro r _
    simp
  · next hplace =>
    have hnone : (d.waiting (n.slotFor d.statement.key)).filter (fun r ↦ r.place = place) = [] :=
      List.filter_eq_nil_iff.2 fun r hr ↦ by simpa [hwaiting r hr] using Ne.symm hplace
    rw [hnone, List.append_nil]
    refine List.filter_congr fun r _ ↦ ?_
    by_cases hr : r.place = place
    · simp [hr, hplace]
    · simp [hr]

theorem seated_declare (hseated : start.Seated) :
    (start.declare d.node d.statement d.location).Seated := by
  obtain ⟨n, hn⟩ := ContentTree.isLive_iff.1 hd
  intro r hr
  rw [tree_declare, ContentTree.slot?_insert hn, key_declaredProperty]
  split
  · rfl
  · next hplace =>
    -- what waits elsewhere was waiting before
    have hmem : r ∈ start.queue.filter fun q ↦ q.place = r.place := by
      rw [← ContentTree.placeOf_eq hn] at hplace
      have hfilter := filter_queue_declare hd hseated r.place
      rw [if_neg hplace] at hfilter
      rw [← hfilter]
      exact List.mem_filter.2 ⟨hr, decide_eq_true rfl⟩
    exact hseated r (List.mem_filter.1 hmem).1

/-- Under the key of a declaration stands its property. -/
theorem find?_declare (id : NodeId) (key : Key) :
    ((start.declare d.node d.statement d.location).tree.properties id).find?
        (fun p ↦ p.key = key) =
      if d.node = id ∧ d.statement.key = key then some (declaredProperty d.statement)
      else (start.tree.properties id).find? fun p ↦ p.key = key := by
  rw [properties_declare hd]
  by_cases hid : d.node = id
  · rw [if_pos hid.symm, find?_putProperty, key_declaredProperty]
    simp only [hid, true_and]
  · rw [if_neg (Ne.symm hid), if_neg fun h ↦ hid h.1]

/-- Any other key was there before the declaration. -/
theorem mem_keys_of_declare {id : NodeId} {key : Key}
    (hkey : key ∈ (start.declare d.node d.statement d.location).tree.keys id)
    (hother : ¬ (d.node = id ∧ d.statement.key = key)) : key ∈ start.tree.keys id := by
  rw [keys_declare hd] at hkey
  split at hkey
  · next hnew =>
    refine (List.mem_append.1 hkey).resolve_right fun hmem ↦ hother ⟨hnew.1.symm, ?_⟩
    exact (List.mem_singleton.1 hmem).symm
  · exact hkey

end Declare

/-- One declaration more. -/
theorem Declared.declare (h : Declared log before reached) (hd : reached.tree.isLive d.node) :
    Declared (log ++ [d]) before (reached.declare d.node d.statement d.location) := by
  refine ⟨fun id ↦ ?_, fun id key ↦ ?_, fun hbefore ↦ seated_declare hd (h.seated hbefore),
    fun hbefore id key hkey ↦ ?_⟩
  · rw [keys_declare hd, declaredKeys_concat]
    by_cases hid : d.node = id
    · rw [if_pos hid, append_eraseDups_concat, ← h.keys]
      simp only [hid, true_and, ite_not]
    · rw [if_neg hid, if_neg fun h ↦ hid h.1.symm, ← h.keys]
  · rw [find?_declare hd, declarationsOf_concat, h.last]
    split
    · rw [List.getLast?_concat]
      rfl
    · rfl
  · rw [declarationsOf_concat]
    split
    · next hof =>
      obtain ⟨rfl, rfl⟩ := hof
      rw [placeOf_declare hd (.inr ⟨rfl, rfl⟩), filter_queue_declare hd (h.seated hbefore),
        if_pos rfl, List.getLast?_concat]
      rfl
    · next hother =>
      have hold := mem_keys_of_declare hd hkey hother
      rw [placeOf_declare hd (.inl hold), filter_queue_declare hd (h.seated hbefore),
        if_neg (placeOf_ne hold hother)]
      exact h.queue hbefore id key hold

/-! ### Logs -/

/-- Content is read into another by entering blocks and declaring statements; these are its
declarations. -/
inductive Logs (start : Content) : List Declaration → Content → Prop
  | refl : Logs start [] start
  | enter {log : List Declaration} {reached : Content} {id : NodeId}
      (before : Logs start log reached) (live : reached.tree.isLive id) (key : Key) :
      Logs start log { reached with tree := (reached.tree.childOrCreate id key).2 }
  | declare {log : List Declaration} {reached : Content} {d : Declaration}
      (before : Logs start log reached) (live : reached.tree.isLive d.node) :
      Logs start (log ++ [d]) (reached.declare d.node d.statement d.location)

namespace Logs

theorem trans {log' : List Declaration} (h : Logs start log reached)
    (h' : Logs reached log' after) :
    Logs start (log ++ log') after := by
  induction h' with
  | refl => rwa [List.append_nil]
  | enter _ live key ih => exact ih.enter live key
  | @declare log' _ d _ live ih =>
    rw [← List.append_assoc]
    exact ih.declare live

/-- Reading content keeps the tree linked. -/
theorem linked (h : Logs start log reached) (ht : start.tree.Linked) : reached.tree.Linked := by
  induction h with
  | refl => exact ht
  | enter _ live key ih => exact ih.childOrCreate live key
  | declare _ _ ih =>
    rw [tree_declare]
    exact ih.modify (fun n ↦ n.stem_insert _) _

/-- **The log tells what stands in the nodes.** -/
theorem declared (h : Logs start log reached) (ht : start.tree.Linked) :
    Declared log start reached := by
  induction h with
  | refl => exact .refl start
  | @enter log reached id before live key ih =>
    refine ih.congr (fun j ↦ ?_) rfl
    exact (before.linked ht).properties_childOrCreate live key j
  | declare _ live ih => exact ih.declare live

end Logs

end Content

end ModContent
