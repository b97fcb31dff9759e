import ModContent.Proofs.Reference.Resolution

/-!
# Resolving a queue settles its chains

The main statement on references. Resolving succeeds exactly when every path leads to a slot and no
walk along the references returns to a slot; then every queued property holds the values of the
first property of its chain that is not queued, whatever the order of the queue. A failure leaves
no chain half copied: a property that it has changed already holds its final values.
-/

namespace ModContent

open Relation Resolve

/-- Two trees that differ in the values and readings of the properties in these slots at most. -/
def ContentTree.ChangesOnly (t t' : ContentTree) (places : List (NodeId × Nat)) : Prop :=
  t.SameShape t' ∧ ∀ p ∉ places, t'.slot? p = t.slot? p

/-- In the tree `t'` the slot holds the values of the property at which its chain settles in `t`,
with their readings. -/
def HoldsSettled (t : ContentTree) (queue : List Reference) (t' : ContentTree)
    (p : NodeId × Nat) : Prop :=
  ∃ q source property, Settles t queue p q ∧ t.slot? q = some source ∧
    t'.slot? p = some property ∧ property.values = source.values ∧
    property.derived = some (Readings.of source.values)

variable {t : ContentTree} {queue : List Reference} {p q : NodeId × Nat}

/-! ### Where chains end -/

/-- A queued slot settles at a property. -/
theorem Settles.exists_slot? (h : Settles t queue p q) (hp : p ∈ queue.map Reference.place) :
    ∃ property, t.slot? q = some property := by
  rcases ReflTransGen.cases_tail h.1 with rfl | ⟨s, -, r, -, -, hlocate⟩
  · exact absurd hp h.2
  · exact ContentTree.exists_slot?_of_locate? hlocate

/-- A slot that is filled with the values where it settles holds a property with those values. -/
theorem holdsSettled_of_slot?_eq {t' : ContentTree} (hp : p ∈ queue.map Reference.place)
    (hlive : (t.slot? p).isSome) (hq : Settles t queue p q)
    (hslot : t'.slot? p = (t.slot? p).map fun property ↦ property.assign (valuesAt t q)) :
    HoldsSettled t queue t' p := by
  obtain ⟨source, hsource⟩ := hq.exists_slot? hp
  obtain ⟨property, hproperty⟩ := Option.isSome_iff_exists.1 hlive
  refine ⟨q, source, property.assign source.values, hq, hsource, ?_, rfl, rfl⟩
  rw [hslot, hproperty, valuesAt, hsource]
  rfl

/-! ### Success and failure -/

/-- When every queued slot settles, every path leads somewhere and no walk returns. -/
theorem neverReturns_of_settles (hdistinct : (queue.map Reference.place).Nodup)
    (h : ∀ r ∈ queue, ∃ q, Settles t queue r.place q) :
    (∀ r ∈ queue, ∃ p, t.locate? r.path = some p) ∧ NeverReturns t queue := by
  refine ⟨fun r hr ↦ ?_, neverReturns_iff.2 fun p hcycle ↦ ?_⟩
  · obtain ⟨q, hq⟩ := h r hr
    rcases hq.1.cases_head with rfl | ⟨s, ⟨r', hr', hplace, hlocate⟩, -⟩
    · exact absurd (List.mem_map_of_mem hr) hq.2
    · obtain rfl := eq_of_place_eq hdistinct hr' hr hplace
      exact ⟨s, hlocate⟩
  · obtain ⟨s, hlead, -⟩ := TransGen.head'_iff.1 hcycle
    obtain ⟨r, hr, hplace⟩ := List.mem_map.1 hlead.mem
    obtain ⟨q, hq⟩ := h r hr
    exact (hplace ▸ hq).not_transGen hdistinct hcycle

/-- Nothing blocks references that lead somewhere and never return. -/
theorem not_blocked (hlocate : ∀ r ∈ queue, ∃ p, t.locate? r.path = some p)
    (hreturn : NeverReturns t queue) : ¬ Blocked t queue := by
  rintro (⟨r, hr, hnone⟩ | ⟨p, hcycle⟩)
  · obtain ⟨p, hp⟩ := hlocate r hr
    rw [hp] at hnone
    cases hnone
  · exact neverReturns_iff.1 hreturn p hcycle

/-- A queue is resolved exactly if all its references lead somewhere and none returns. -/
theorem resolve_ok_iff (hdistinct : (queue.map Reference.place).Nodup)
    (hlive : ∀ r ∈ queue, (t.slot? r.place).isSome) :
    (resolve t queue).2 = .ok queue.length ↔
      (∀ r ∈ queue, ∃ p, t.locate? r.path = some p) ∧ NeverReturns t queue := by
  constructor
  · intro hok
    refine neverReturns_of_settles hdistinct fun r hr ↦ ?_
    obtain ⟨q, hq, -⟩ := (resolve_ok hdistinct hlive hok).2.1 r hr
    exact ⟨q, hq⟩
  · rintro ⟨hlocate, hreturn⟩
    obtain ⟨-, -, ⟨hok, -⟩ | ⟨-, -, hblocked⟩⟩ := resolve_spec hdistinct hlive
    · exact hok
    · exact absurd hblocked (not_blocked hlocate hreturn)

/-- Success comes with the number of references. -/
theorem eq_length_of_resolve_ok (hdistinct : (queue.map Reference.place).Nodup)
    (hlive : ∀ r ∈ queue, (t.slot? r.place).isSome) {n : Nat}
    (h : (resolve t queue).2 = .ok n) : n = queue.length := by
  obtain ⟨-, -, ⟨hok, -⟩ | ⟨failure, herror, -⟩⟩ := resolve_spec hdistinct hlive
  · exact Except.ok.inj (h.symm.trans hok)
  · rw [h] at herror
    cases herror

/-- The order of the queue does not matter. -/
theorem resolve_perm (hdistinct : (queue.map Reference.place).Nodup)
    (hlive : ∀ r ∈ queue, (t.slot? r.place).isSome)
    (hok : (resolve t queue).2 = .ok queue.length) {queue' : List Reference}
    (hperm : queue'.Perm queue) : resolve t queue' = resolve t queue := by
  have hmem : ∀ r, r ∈ queue' ↔ r ∈ queue := fun r ↦ hperm.mem_iff
  have hdistinct' : (queue'.map Reference.place).Nodup :=
    ((hperm.map Reference.place).nodup_iff).2 hdistinct
  have hlive' : ∀ r ∈ queue', (t.slot? r.place).isSome := fun r hr ↦ hlive r ((hmem r).1 hr)
  have hok' : (resolve t queue').2 = .ok queue'.length := by
    rw [resolve_ok_iff hdistinct' hlive', neverReturns_congr (.refl t) hmem]
    obtain ⟨hlocate, hreturn⟩ := (resolve_ok_iff hdistinct hlive).1 hok
    exact ⟨fun r hr ↦ hlocate r ((hmem r).1 hr), hreturn⟩
  obtain ⟨hshape, hfilled, hkept⟩ := resolve_ok hdistinct hlive hok
  obtain ⟨hshape', hfilled', hkept'⟩ := resolve_ok hdistinct' hlive' hok'
  -- a queued slot settles in one place, in whatever order, and the others were not touched
  refine Prod.ext (ContentTree.SameShape.eq_of_slot?_eq (hshape.symm.trans hshape') fun p ↦ ?_) ?_
  · by_cases hp : p ∈ queue.map Reference.place
    · obtain ⟨r, hr, rfl⟩ := List.mem_map.1 hp
      obtain ⟨q, hq, hslot⟩ := hfilled r hr
      obtain ⟨q', hq', hslot'⟩ := hfilled' r ((hmem r).2 hr)
      rw [settles_congr (.refl t) hmem] at hq'
      rw [hslot, hslot', hq.unique hdistinct hq']
    · rw [hkept p hp, hkept' p fun hp' ↦ hp ((hperm.map Reference.place).mem_iff.1 hp')]
  · rw [hok, hok', hperm.length_eq]

/-- Whatever a failure has changed is a queued slot that holds its final values. -/
theorem holdsSettled_of_changed (hdistinct : (queue.map Reference.place).Nodup)
    (hlive : ∀ r ∈ queue, (t.slot? r.place).isSome)
    (hchanged : (resolve t queue).1.slot? p ≠ t.slot? p) :
    p ∈ queue.map Reference.place ∧ HoldsSettled t queue (resolve t queue).1 p := by
  obtain ⟨done, hfilled, -⟩ := resolve_spec hdistinct hlive
  by_contra hnot
  refine hchanged (hfilled.kept p ?_)
  rintro link hlink hdone rfl
  have hmem := List.mem_map_of_mem (f := Reference.place) (reference_mem hlink)
  obtain ⟨q, hq, hslot⟩ := hfilled.filled link hlink hdone
  exact hnot ⟨hmem, holdsSettled_of_slot?_eq hmem (hlive _ (reference_mem hlink)) hq hslot⟩

/-- **Resolution.** If no two references wait in one slot and every slot is there, resolving
succeeds exactly when every path leads to a slot and no walk along the references returns. On
success every queued slot holds the values where its chain settles, nothing else has changed, and
the order of the queue does not matter. After a failure only queued slots differ from before, and
each that does already holds the values where its chain settles. -/
theorem resolve_settles_every_chain (t : ContentTree) (queue : List Reference)
    (hdistinct : (queue.map Reference.place).Nodup)
    (hlive : ∀ r ∈ queue, (t.slot? r.place).isSome) :
    ((∃ n, (resolve t queue).2 = .ok n) ↔
      (∀ r ∈ queue, ∃ p, t.locate? r.path = some p) ∧ NeverReturns t queue) ∧
    (∀ n, (resolve t queue).2 = .ok n →
      n = queue.length ∧
      (∀ r ∈ queue, HoldsSettled t queue (resolve t queue).1 r.place) ∧
      t.ChangesOnly (resolve t queue).1 (queue.map Reference.place) ∧
      ∀ queue', queue'.Perm queue → (resolve t queue').1 = (resolve t queue).1) ∧
    (∀ failure, (resolve t queue).2 = .error failure →
      t.ChangesOnly (resolve t queue).1 (queue.map Reference.place) ∧
      ∀ p, (resolve t queue).1.slot? p ≠ t.slot? p →
        HoldsSettled t queue (resolve t queue).1 p) := by
  have hchanges : t.ChangesOnly (resolve t queue).1 (queue.map Reference.place) := by
    obtain ⟨done, hfilled, -⟩ := resolve_spec hdistinct hlive
    refine ⟨hfilled.shape, fun p hp ↦ ?_⟩
    by_contra hchanged
    exact hp (holdsSettled_of_changed hdistinct hlive hchanged).1
  refine ⟨?_, fun n hok ↦ ?_, fun failure _ ↦ ?_⟩
  · rw [← resolve_ok_iff hdistinct hlive]
    constructor
    · rintro ⟨n, hok⟩
      rwa [← eq_length_of_resolve_ok hdistinct hlive hok]
    · exact fun hok ↦ ⟨_, hok⟩
  · obtain rfl := eq_length_of_resolve_ok hdistinct hlive hok
    refine ⟨rfl, fun r hr ↦ ?_, hchanges, fun queue' hperm ↦ ?_⟩
    · obtain ⟨q, hq, hslot⟩ := (resolve_ok hdistinct hlive hok).2.1 r hr
      exact holdsSettled_of_slot?_eq (List.mem_map_of_mem hr) (hlive r hr) hq hslot
    · rw [resolve_perm hdistinct hlive hok hperm]
  · exact ⟨hchanges, fun p hp ↦ (holdsSettled_of_changed hdistinct hlive hp).2⟩

/-- A root with the statements `a = @b`, `b = @c` and `c = 7`, before references are resolved. -/
def twoLinkTree : ContentTree :=
  ⟨Arena.empty.push
    { Node.bare (Key.named "") with
      properties :=
        [Property.pending (Key.named "a"), Property.pending (Key.named "b"),
          Property.of (Key.named "c") ["7"]] }⟩

/-- The references of `twoLinkTree`; the first of them leads to the second. -/
def twoLinks : List Reference :=
  [⟨ContentTree.root, 0, "b", Location.inline 1⟩, ⟨ContentTree.root, 1, "c", Location.inline 2⟩]

/-- The statement at a chain of two links. -/
theorem resolve_settles_two_links :
    (twoLinks.map Reference.place).Nodup ∧
      (∀ r ∈ twoLinks, (twoLinkTree.slot? r.place).isSome) ∧
      (resolve twoLinkTree twoLinks).2 = .ok 2 ∧
      (∀ r ∈ twoLinks,
        HoldsSettled twoLinkTree twoLinks (resolve twoLinkTree twoLinks).1 r.place) ∧
      ∀ queue', queue'.Perm twoLinks →
        (resolve twoLinkTree queue').1 = (resolve twoLinkTree twoLinks).1 := by
  have hdistinct : (twoLinks.map Reference.place).Nodup := by decide
  have hlive : ∀ r ∈ twoLinks, (twoLinkTree.slot? r.place).isSome := by decide
  have hok : (resolve twoLinkTree twoLinks).2 = .ok 2 := by rfl
  obtain ⟨-, hsuccess, -⟩ :=
    resolve_settles_every_chain twoLinkTree twoLinks hdistinct hlive
  obtain ⟨-, hfilled, -, hperm⟩ := hsuccess 2 hok
  exact ⟨hdistinct, hlive, hok, hfilled, hperm⟩

end ModContent
