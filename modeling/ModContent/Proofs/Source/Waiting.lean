import ModContent.Proofs.Package.Load
import ModContent.Proofs.Source.Log

/-!
# What waits in the queue

A declaration that gives a property a reference leaves it without values and queues the reference; a
later one of the same slot takes it back, and may queue another. So the queue and the slots both
follow the last declaration that went to a slot (`Content.Placed`): a slot waits if and only if that
was a reference, and the queue holds just this one.

The invariant speaks of slots and not of keys, so it needs no more of the tree than that everything
in it was computed before (`queue_is_what_waits`).
-/

namespace ModContent

open Content (Logs)

/-- The declarations that went to a slot. -/
def declarationsAt (log : List Declaration) (t : ContentTree) (place : NodeId × Nat) :
    List Declaration :=
  log.filter fun d ↦ t.placeOf d.node d.statement.key = place

/-- The reference that the last declaration of a slot left there, if it did. -/
def waitingAt (log : List Declaration) (t : ContentTree) (place : NodeId × Nat) : List Reference :=
  ((declarationsAt log t place).getLast?.map fun d ↦ d.waiting place.2).getD []

namespace Declaration

variable {d : Declaration} {slot : Nat} {r : Reference}

/-- A declaration leaves a computed property, or a pending one that waits. -/
theorem declared_cases (d : Declaration) (slot : Nat) :
    ((Content.declaredProperty d.statement).isComputed = true ∧ d.waiting slot = []) ∨
      (Content.declaredProperty d.statement = Property.pending d.statement.key ∧
        ∃ path, d.statement.value = .reference path ∧
          d.waiting slot = [⟨d.node, slot, path, d.location⟩]) := by
  rw [Content.declaredProperty, waiting]
  cases d.statement.value with
  | values values => exact .inl ⟨rfl, rfl⟩
  | reference path => exact .inr ⟨rfl, path, rfl, rfl⟩

/-- What waits in a slot is the reference of the declaration. -/
theorem of_mem_waiting (h : r ∈ d.waiting slot) :
    d.statement.value = .reference r.path ∧ d.location = r.location := by
  rcases d.declared_cases slot with ⟨-, hnone⟩ | ⟨-, path, hvalue, hone⟩
  · rw [hnone] at h
    exact absurd h List.not_mem_nil
  · rw [hone] at h
    obtain rfl := List.mem_singleton.1 h
    exact ⟨hvalue, rfl⟩

end Declaration

/-- What waits at a place is the reference of its last declaration. -/
theorem exists_of_mem_waitingAt {log : List Declaration} {t : ContentTree} {place : NodeId × Nat}
    {r : Reference} (h : r ∈ waitingAt log t place) :
    ∃ d, (declarationsAt log t place).getLast? = some d ∧ d.statement.value = .reference r.path ∧
      d.location = r.location := by
  rw [waitingAt] at h
  cases hlast : (declarationsAt log t place).getLast? with
  | none =>
    rw [hlast] at h
    exact absurd h List.not_mem_nil
  | some d =>
    rw [hlast] at h
    exact ⟨d, rfl, Declaration.of_mem_waiting h⟩

theorem length_waitingAt_le (log : List Declaration) (t : ContentTree) (place : NodeId × Nat) :
    (waitingAt log t place).length ≤ 1 := by
  rw [waitingAt]
  cases (declarationsAt log t place).getLast? with
  | none => exact Nat.zero_le 1
  | some d =>
    show (d.waiting place.2).length ≤ 1
    rcases d.declared_cases place.2 with ⟨-, hnone⟩ | ⟨-, path, -, hone⟩
    · rw [hnone]
      exact Nat.zero_le 1
    · rw [hone]
      exact Nat.le_refl 1

namespace Content

variable {log : List Declaration} {content start : Content} {d : Declaration}
  {place : NodeId × Nat} {p : Property}

/-- What a log has done since the start of a package, slot by slot: the last declaration of a slot
counts, and a slot without one is as it was. -/
structure Placed (log : List Declaration) (start content : Content) : Prop where
  /-- The key of each declaration is there. -/
  named : ∀ d ∈ log, d.statement.key ∈ content.tree.keys d.node
  seated : content.Seated
  queue : ∀ place, content.queue.filter (fun r ↦ r.place = place) =
    waitingAt log content.tree place
  slots : ∀ place, content.tree.slot? place =
    ((declarationsAt log content.tree place).getLast?.map fun d ↦
      declaredProperty d.statement).or (start.tree.slot? place)

/-! ### Keeping it -/

theorem placed_start (t : ContentTree) (diagnostics : List Diagnostic) :
    Placed [] (Content.start t diagnostics) (Content.start t diagnostics) where
  named _ hd := absurd hd List.not_mem_nil
  seated _ hr := absurd hr List.not_mem_nil
  queue _ := rfl
  slots _ := rfl

/-- Only the properties of the nodes count. -/
theorem Placed.congr (h : Placed log start content) {t : ContentTree}
    (hproperties : ∀ id, t.properties id = content.tree.properties id) :
    Placed log start { content with tree := t } := by
  have hkeys : ∀ id, t.keys id = content.tree.keys id :=
    fun id ↦ congrArg (List.map Property.key) (hproperties id)
  have hslots : ∀ place, t.slot? place = content.tree.slot? place := by
    intro place
    rw [ContentTree.slot?_eq_properties, hproperties, ContentTree.slot?_eq_properties]
  have hat : ∀ place, declarationsAt log t place = declarationsAt log content.tree place :=
    fun place ↦ List.filter_congr fun d _ ↦ by rw [ContentTree.placeOf, hkeys, ContentTree.placeOf]
  refine ⟨fun d hd ↦ ?_, fun r hr ↦ ?_, fun place ↦ ?_, fun place ↦ ?_⟩
  · show d.statement.key ∈ t.keys d.node
    rw [hkeys]
    exact h.named d hd
  · show (t.slot? r.place).isSome = true
    rw [hslots]
    exact h.seated r hr
  · show content.queue.filter _ = _
    rw [h.queue, waitingAt, waitingAt, hat]
  · show t.slot? place = _
    rw [hslots, h.slots, hat]

/-- A declaration goes to its own slot, and moves no other. -/
theorem Placed.declarationsAt_concat (h : Placed log start content)
    (hd : content.tree.isLive d.node) (place : NodeId × Nat) :
    declarationsAt (log ++ [d]) (content.declare d.node d.statement d.location).tree place =
      declarationsAt log content.tree place ++
        if place = content.tree.placeOf d.node d.statement.key then [d] else [] := by
  rw [declarationsAt, List.filter_append]
  congr 1
  · refine List.filter_congr fun e he ↦ ?_
    rw [placeOf_declare hd (.inl (h.named e he))]
  · rw [List.filter_singleton, placeOf_declare hd (.inr ⟨rfl, rfl⟩)]
    split
    · next hplace => rw [hplace, decide_eq_true rfl, cond_true]
    · next hplace => rw [decide_eq_false (Ne.symm hplace), cond_false]

/-- **A declaration** is the last one of its slot, in the queue as in the tree. -/
theorem Placed.declare (h : Placed log start content) (hd : content.tree.isLive d.node) :
    Placed (log ++ [d]) start (content.declare d.node d.statement d.location) := by
  refine ⟨fun e he ↦ ?_, seated_declare hd h.seated, fun place ↦ ?_, fun place ↦ ?_⟩
  · rw [keys_declare hd]
    rcases List.mem_append.1 he with hold | hnew
    · split
      · exact List.mem_append_left _ (h.named e hold)
      · exact h.named e hold
    · obtain rfl := List.mem_singleton.1 hnew
      split
      · exact List.mem_append_right _ (List.mem_singleton_self _)
      · next hthere => exact not_not.1 fun hkey ↦ hthere ⟨rfl, hkey⟩
  · rw [filter_queue_declare hd h.seated, waitingAt, h.declarationsAt_concat hd]
    split
    · rw [List.getLast?_concat]
      rfl
    · rw [List.append_nil]
      exact h.queue place
  · obtain ⟨n, hn⟩ := ContentTree.isLive_iff.1 hd
    rw [h.declarationsAt_concat hd, tree_declare, ContentTree.slot?_insert hn, key_declaredProperty,
      ContentTree.placeOf_eq hn]
    split
    · rw [List.getLast?_concat]
      rfl
    · rw [List.append_nil]
      exact h.slots place

/-- What a log leads to is placed as the log says. -/
theorem Logs.placed (h : Logs start log content) (ht : start.tree.Linked)
    (hstart : Placed [] start start) : Placed log start content := by
  induction h with
  | refl => exact hstart
  | @enter log reached id before live key ih =>
    exact ih.congr fun j ↦ (before.linked ht).properties_childOrCreate live key j
  | declare _ live ih => exact ih.declare live

/-! ### What it says -/

namespace Placed

/-- No slot is queued twice. -/
theorem nodup_places (h : Placed log start content) :
    (content.queue.map Reference.place).Nodup := by
  refine List.nodup_iff_count_le_one.2 fun place ↦ ?_
  have hcount : (content.queue.map Reference.place).count place =
      (content.queue.filter fun r ↦ r.place = place).length := by
    rw [List.count, List.countP_map, List.countP_eq_length_filter]
    exact congrArg List.length (List.filter_congr fun r _ ↦ beq_eq_decide ..)
  rw [hcount, h.queue]
  exact length_waitingAt_le ..

/-- The queue has the places at which something waits. -/
theorem mem_places_iff (h : Placed log start content) (place : NodeId × Nat) :
    place ∈ content.queue.map Reference.place ↔ waitingAt log content.tree place ≠ [] := by
  rw [← h.queue, List.mem_map, ne_eq, List.filter_eq_nil_iff]
  simp only [decide_eq_true_eq, not_forall, not_not, exists_prop]

/-- A slot that no declaration went to is as it was, and nothing waits there. -/
theorem of_not_declared (h : Placed log start content)
    (hnone : declarationsAt log content.tree place = []) :
    content.tree.slot? place = start.tree.slot? place ∧
      place ∉ content.queue.map Reference.place := by
  rw [h.mem_places_iff, h.slots, waitingAt, hnone]
  exact ⟨rfl, fun hne ↦ hne rfl⟩

/-- What waits in the queue was declared. -/
theorem exists_mem_log (h : Placed log start content) {r : Reference} (hr : r ∈ content.queue) :
    ∃ d ∈ log, d.statement.value = .reference r.path := by
  have hwaiting : r ∈ waitingAt log content.tree r.place := by
    rw [← h.queue]
    exact List.mem_filter.2 ⟨hr, decide_eq_true rfl⟩
  obtain ⟨d, hlast, hvalue, -⟩ := exists_of_mem_waitingAt hwaiting
  exact ⟨d, (List.mem_filter.1 (List.mem_of_getLast? hlast)).1, hvalue⟩

/-- A slot waits and is queued, or it is computed and is not queued, if all were computed. -/
theorem slot?_cases (h : Placed log start content)
    (hcomputed : ∀ place p, start.tree.slot? place = some p → p.isComputed)
    (hp : content.tree.slot? place = some p) :
    (p.isComputed = true ∧ place ∉ content.queue.map Reference.place) ∨
      (p = Property.pending p.key ∧ place ∈ content.queue.map Reference.place) := by
  rw [h.mem_places_iff, waitingAt]
  rw [h.slots] at hp
  cases hlast : (declarationsAt log content.tree place).getLast? with
  | none =>
    rw [hlast] at hp
    exact .inl ⟨hcomputed place p hp, fun hne ↦ hne rfl⟩
  | some d =>
    rw [hlast] at hp
    obtain rfl := Option.some.inj hp
    show _ ∧ ¬ d.waiting place.2 ≠ [] ∨ _ ∧ d.waiting place.2 ≠ []
    rcases d.declared_cases place.2 with ⟨hvalues, hnone⟩ | ⟨hpending, path, -, hone⟩
    · exact .inl ⟨hvalues, fun hne ↦ hne hnone⟩
    · rw [key_declaredProperty]
      exact .inr ⟨hpending, hone ▸ List.cons_ne_nil _ _⟩

/-- The slots that are queued are those that are not computed, if all were computed. -/
theorem mem_places_iff_slot? (h : Placed log start content)
    (hcomputed : ∀ place p, start.tree.slot? place = some p → p.isComputed)
    (place : NodeId × Nat) : place ∈ content.queue.map Reference.place ↔
      ∃ p, content.tree.slot? place = some p ∧ p.isComputed = false := by
  constructor
  · intro hplace
    obtain ⟨r, hr, rfl⟩ := List.mem_map.1 hplace
    obtain ⟨p, hp⟩ := Option.isSome_iff_exists.1 (h.seated r hr)
    rcases h.slot?_cases hcomputed hp with ⟨-, hnot⟩ | ⟨hpending, -⟩
    · exact absurd hplace hnot
    · refine ⟨p, hp, ?_⟩
      rw [hpending]
      rfl
  · rintro ⟨p, hp, hwaits⟩
    rcases h.slot?_cases hcomputed hp with ⟨hdone, -⟩ | ⟨-, hplace⟩
    · rw [hwaits] at hdone
      cases hdone
    · exact hplace

end Placed

end Content

/-! ### The queue of a package -/

/-- **The queue is what waits.** However many sources are scanned one after the other into a tree
where nothing waits, and whichever of them fail: no slot is queued twice, the queued slots are those
of the properties without readings, such a property has no values, and the path queued for a slot is
that of the last declaration that went there. -/
theorem queue_is_what_waits (t : ContentTree) (diagnostics : List Diagnostic)
    (sources : List NamedSource) (htree : t.Reachable)
    (hcomputed : ∀ place p, t.slot? place = some p → p.isComputed) :
    let reached := (Content.start t diagnostics).scanAll sources
    (reached.queue.map Reference.place).Nodup ∧
    (∀ place, place ∈ reached.queue.map Reference.place ↔
      ∃ p, reached.tree.slot? place = some p ∧ p.isComputed = false) ∧
    (∀ place p, reached.tree.slot? place = some p → p.isComputed = false → p.values = []) ∧
    ∀ r ∈ reached.queue, ∃ d,
      (declarationsAt ((Content.start t diagnostics).logAll sources) reached.tree
        r.place).getLast? = some d ∧
      d.statement.value = .reference r.path ∧ d.location = r.location := by
  intro reached
  have hlinked : (Content.start t diagnostics).tree.Linked := htree.linked
  have hplaced := (Content.logs_scanAll hlinked sources).placed hlinked
    (Content.placed_start t diagnostics)
  refine ⟨hplaced.nodup_places, hplaced.mem_places_iff_slot? hcomputed,
    fun place p hp hwaits ↦ ?_, fun r hr ↦ ?_⟩
  · rcases hplaced.slot?_cases hcomputed hp with ⟨hdone, -⟩ | ⟨hpending, -⟩
    · rw [hwaits] at hdone
      cases hdone
    · rw [hpending]
      rfl
  · refine exists_of_mem_waitingAt ?_
    rw [← hplaced.queue]
    exact List.mem_filter.2 ⟨hr, decide_eq_true rfl⟩

/-- Two sources: a chain of references, then its first property with a value, its second one with
another reference, and a statement that cannot be read. -/
def redeclaring : List NamedSource :=
  [⟨"units.txt", normalizeText "a = @b; b = @c; c = 1"⟩,
    ⟨"more.txt", normalizeText "a = 2\nb = @a\nc("⟩]

/-- The first property has its value, and the second one waits for what was declared last. -/
theorem queue_is_what_waits_behind_failure :
    let reached := (Content.start ContentTree.new []).scanAll redeclaring
    ContentTree.new.Reachable ∧
    (∀ place p, ContentTree.new.slot? place = some p → p.isComputed) ∧
    reached.queue = [⟨ContentTree.root, 1, "a", ⟨"more.txt", 2⟩⟩] ∧
    (reached.queue.map Reference.place).Nodup ∧
    (∀ place, place ∈ reached.queue.map Reference.place ↔
      ∃ p, reached.tree.slot? place = some p ∧ p.isComputed = false) ∧
    (∀ place p, reached.tree.slot? place = some p → p.isComputed = false → p.values = []) ∧
    ∀ r ∈ reached.queue, ∃ d,
      (declarationsAt ((Content.start ContentTree.new []).logAll redeclaring) reached.tree
        r.place).getLast? = some d ∧
      d.statement.value = .reference r.path ∧ d.location = r.location := by
  intro reached
  have hcomputed : ∀ place p, ContentTree.new.slot? place = some p → p.isComputed :=
    fun place p hp ↦ ContentTree.loadable_new.computed hp
  have hqueue : reached.queue = [⟨ContentTree.root, 1, "a", ⟨"more.txt", 2⟩⟩] := by
    decide +kernel
  exact ⟨.new, hcomputed, hqueue,
    queue_is_what_waits ContentTree.new [] redeclaring .new hcomputed⟩

end ModContent
