import ModContent.Proofs.Source.Declared

/-!
# What is recorded as declared

The slots declared in a package are recorded. A recorded slot is there, and what waits in the queue
waits in recorded slots (`Content.Recorded`). So a declaration warns if and only if its slot is
recorded already (`Recorded.diagnostics_declare`): that a property was replaced need not be asked.
-/

namespace ModContent.Content

variable {content : Content} {id : NodeId} {s : Statement} {location : Location} {node : Node}

/-- The recorded slots are there, and only such slots wait. -/
structure Recorded (content : Content) : Prop where
  slots : ∀ place ∈ content.declared, (content.tree.slot? place).isSome
  queue : ∀ r ∈ content.queue, r.place ∈ content.declared

/-- Nothing is recorded at the start of a package. -/
theorem recorded_start (t : ContentTree) (diagnostics : List Diagnostic) :
    (Content.start t diagnostics).Recorded :=
  ⟨fun _ h ↦ absurd h List.not_mem_nil, fun _ h ↦ absurd h List.not_mem_nil⟩

/-- The slots recorded after a declaration. -/
theorem declared_declare (hnode : content.tree.node? id = some node) :
    (content.declare id s location).declared =
      if (id, node.slotFor s.key) ∈ content.declared then content.declared
      else (id, node.slotFor s.key) :: content.declared := by
  simp only [declare, hnode]

/-- The places declared are those before and the one of the statement. -/
theorem mem_declared_declare (hnode : content.tree.node? id = some node) (place : NodeId × Nat) :
    place ∈ (content.declare id s location).declared ↔
      place = (id, node.slotFor s.key) ∨ place ∈ content.declared := by
  rw [declared_declare hnode]
  split
  · next hmem =>
    refine ⟨.inr, ?_⟩
    rintro (rfl | hplace)
    · exact hmem
    · exact hplace
  · exact List.mem_cons

namespace Recorded

theorem seated (h : content.Recorded) : content.Seated := fun r hr ↦ h.slots _ (h.queue r hr)

/-- Only the slots count. -/
theorem congr (h : content.Recorded) {t : ContentTree}
    (hslots : ∀ place, t.slot? place = content.tree.slot? place) :
    Recorded { content with tree := t } := by
  refine ⟨fun place hplace ↦ ?_, h.queue⟩
  show (t.slot? place).isSome = true
  rw [hslots]
  exact h.slots place hplace

/-- A declaration in a node that is there is recorded. -/
theorem declare (h : content.Recorded) (hnode : content.tree.node? id = some node) :
    (content.declare id s location).Recorded := by
  refine ⟨fun place hplace ↦ ?_, fun r hr ↦ ?_⟩
  · rw [mem_declared_declare hnode] at hplace
    rw [tree_declare, ContentTree.slot?_insert hnode, key_declaredProperty]
    split
    · rfl
    · next hne => exact h.slots place (hplace.resolve_left hne)
  · rw [mem_declared_declare hnode]
    rw [queue_declare h.seated hnode] at hr
    rcases List.mem_append.1 hr with hold | hnew
    · exact .inr (h.queue r (List.mem_filter.1 hold).1)
    · cases hvalue : s.value with
      | values values =>
        rw [hvalue] at hnew
        exact absurd hnew List.not_mem_nil
      | reference path =>
        rw [hvalue] at hnew
        obtain rfl := List.mem_singleton.1 hnew
        exact .inl rfl

/-- A declaration warns if its slot was declared before in this package. -/
theorem diagnostics_declare (h : content.Recorded) (hnode : content.tree.node? id = some node) :
    (content.declare id s location).diagnostics =
      if (id, node.slotFor s.key) ∈ content.declared
      then content.diagnostics ++ [redeclared s.key node.key.text location]
      else content.diagnostics := by
  simp only [Content.declare, hnode]
  by_cases hmem : (id, node.slotFor s.key) ∈ content.declared
  · have hthere : (node.replaced? s.key).isSome = true := by
      have hslot := h.slots _ hmem
      rwa [ContentTree.slot?_eq_bind, hnode, Option.bind_some] at hslot
    simp [hmem, hthere]
  · simp [hmem]

end Recorded

end ModContent.Content
