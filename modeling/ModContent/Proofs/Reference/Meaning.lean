import ModContent.Proofs.Package.Load
import ModContent.Proofs.Reference.Settled
import ModContent.Proofs.Source.Draft

/-!
# What references mean

In a draft a property without readings has a path as its value. What a path comes to is then a
matter of lookups alone: if it leads to a property with readings, to the values of that one, and
otherwise to what the path in the property comes to (`Means`). There is no tree, no queue and no
order in this.

It is what resolving does. The content of a package resolves if and only if each path in its draft
comes to some values (`Content.Drafts.resolves_iff`), and the outline after it is that of the draft
with these values filled in (`Content.Drafts.outline_resolve`).
-/

namespace ModContent

open Relation Resolve

/-- The values that a path comes to, where paths lead to properties and a property without readings
holds a path. -/
inductive Means (look : String → Option Property) : String → List String → Prop
  | here {path : String} {p : Property} (found : look path = some p)
      (computed : p.isComputed = true) : Means look path p.values
  | there {path : String} {p : Property} {values : List String} (found : look path = some p)
      (waits : p.isComputed = false) (next : Means look p.firstText values) :
      Means look path values

variable {look : String → Option Property} {path : String} {values values' : List String}

/-- A path means one list of values at most. -/
theorem Means.unique (h : Means look path values) (h' : Means look path values') :
    values = values' := by
  induction h with
  | here found computed =>
    cases h' with
    | here found' _ =>
      obtain rfl := Option.some.inj (found.symm.trans found')
      rfl
    | there found' waits' _ =>
      obtain rfl := Option.some.inj (found.symm.trans found')
      rw [computed] at waits'
      cases waits'
  | there found waits _ ih =>
    cases h' with
    | here found' computed' =>
      obtain rfl := Option.some.inj (found.symm.trans found')
      rw [computed'] at waits
      cases waits
    | there found' _ next' =>
      obtain rfl := Option.some.inj (found.symm.trans found')
      exact ih next'

open Classical in
/-- What a path comes to, if it comes to something. -/
noncomputable def meaning? (look : String → Option Property) (path : String) :
    Option (List String) :=
  if h : ∃ values, Means look path values then some h.choose else none

/-- The meaning that is computed is the one there is. -/
theorem Means.meaning?_eq (h : Means look path values) : meaning? look path = some values := by
  have hexists : ∃ values, Means look path values := ⟨values, h⟩
  rw [meaning?, dif_pos hexists, hexists.choose_spec.unique h]

/-- A property that waits gets the values that its path comes to. -/
noncomputable def Property.settle (look : String → Option Property) (p : Property) : Property :=
  if p.isComputed then p else p.assign ((meaning? look p.firstText).getD [])

@[simp] theorem Property.key_settle (look : String → Option Property) (p : Property) :
    (p.settle look).key = p.key := by
  rw [settle]
  split <;> rfl

namespace Outline

/-- Every path in the outline comes to some values. -/
def Resolvable (o : Outline) : Prop :=
  ∀ p, o.Has p → p.isComputed = false → ∃ values, Means o.property? p.firstText values

/-- The outline with the values that its paths come to. -/
noncomputable def settled (o : Outline) : Outline := o.mapProperties (Property.settle o.property?)

end Outline

namespace Content.Drafts

variable {content : Content} {draft : ContentTree} {p q place : NodeId × Nat} {r : Reference}

/-! ### Meaning and chains -/

theorem grown (h : Drafts content draft) (hsound : content.Sound) : draft.Grown :=
  hsound.grown.congr (.of_sameShape h.shape)

/-- A path leads to the same slot in the draft as in the content. -/
theorem property?_eq (h : Drafts content draft) (hsound : content.Sound) (path : String) :
    draft.outline.property? path = (content.tree.locate? path).bind draft.slot? := by
  rw [← (h.grown hsound).linked.locate?_bind_slot?, h.shape.locate?_eq]

/-- The slot of a queued reference holds its path in the draft. -/
theorem slot?_of_mem (h : Drafts content draft) (hsound : content.Sound) (hr : r ∈ content.queue) :
    ∃ old waiting, content.tree.slot? r.place = some old ∧ draft.slot? r.place = some waiting ∧
      waiting = { old with values := [r.path] } ∧ waiting.isComputed = false := by
  obtain ⟨old, hold, hwaits⟩ := (hsound.waits r.place).1 (List.mem_map_of_mem hr)
  refine ⟨old, _, hold, ?_, rfl, ?_⟩
  · rw [h.waiting r hr, hold]
    rfl
  · rw [Property.isComputed, hwaits]
    rfl

/-- A slot that is not queued has the same property with its readings in both. -/
theorem slot?_of_not_mem (h : Drafts content draft) (hsound : content.Sound)
    (hplace : place ∉ content.queue.map Reference.place) {property : Property}
    (hproperty : content.tree.slot? place = some property) :
    draft.slot? place = some property ∧ property.isComputed = true := by
  refine ⟨(h.settled place hplace).trans hproperty, ?_⟩
  rw [Property.isComputed, Option.isSome_iff_ne_none]
  exact fun hnone ↦ hplace ((hsound.waits place).2 ⟨property, hproperty, hnone⟩)

/-- What a slot of the draft holds. -/
theorem slot?_cases (h : Drafts content draft) (hsound : content.Sound) {property : Property}
    (hproperty : draft.slot? place = some property) :
    (place ∉ content.queue.map Reference.place ∧ content.tree.slot? place = some property ∧
        property.isComputed = true) ∨
      ∃ r ∈ content.queue, r.place = place ∧ property.isComputed = false ∧
        property.firstText = r.path := by
  by_cases hplace : place ∈ content.queue.map Reference.place
  · obtain ⟨r, hr, rfl⟩ := List.mem_map.1 hplace
    obtain ⟨old, waiting, -, hdraft, hpath, hwaits⟩ := h.slot?_of_mem hsound hr
    obtain rfl := Option.some.inj (hdraft.symm.trans hproperty)
    exact .inr ⟨r, hr, rfl, hwaits, by rw [hpath]; rfl⟩
  · have hsame := (h.settled place hplace).symm.trans hproperty
    exact .inl ⟨hplace, hsame, (h.slot?_of_not_mem hsound hplace hsame).2⟩

/-- A path means the values at the end of the chain to which it leads. -/
theorem means_of_settles (h : Drafts content draft) (hsound : content.Sound)
    (hlocate : content.tree.locate? path = some p)
    (hsettles : Settles content.tree content.queue p q) :
    Means draft.outline.property? path (valuesAt content.tree q) := by
  obtain ⟨hreach, hq⟩ := hsettles
  induction hreach using ReflTransGen.head_induction_on generalizing path with
  | refl =>
    obtain ⟨property, hproperty⟩ := ContentTree.exists_slot?_of_locate? hlocate
    obtain ⟨hdraft, hcomputed⟩ := h.slot?_of_not_mem hsound hq hproperty
    have hvalues : valuesAt content.tree q = property.values := by
      rw [valuesAt, hproperty]
      rfl
    rw [hvalues]
    refine .here ?_ hcomputed
    rw [h.property?_eq hsound, hlocate]
    exact hdraft
  | head hlead _ ih =>
    obtain ⟨r, hr, rfl, hnext⟩ := hlead
    obtain ⟨old, waiting, -, hdraft, rfl, hwaits⟩ := h.slot?_of_mem hsound hr
    refine .there ?_ hwaits (ih hnext)
    rw [h.property?_eq hsound, hlocate]
    exact hdraft

/-- A path that comes to some values leads to a chain with these values at its end. -/
theorem exists_settles_of_means (h : Drafts content draft) (hsound : content.Sound)
    (hmeans : Means draft.outline.property? path values) :
    ∃ p q, content.tree.locate? path = some p ∧ Settles content.tree content.queue p q ∧
      valuesAt content.tree q = values := by
  induction hmeans with
  | here found computed =>
    rw [h.property?_eq hsound, Option.bind_eq_some_iff] at found
    obtain ⟨p, hlocate, hdraft⟩ := found
    rcases h.slot?_cases hsound hdraft with ⟨hp, hsame, -⟩ | ⟨r, -, -, hwaits, -⟩
    · refine ⟨p, p, hlocate, settles_self hp, ?_⟩
      rw [valuesAt, hsame]
      rfl
    · rw [computed] at hwaits
      cases hwaits
  | there found waits _ ih =>
    rw [h.property?_eq hsound, Option.bind_eq_some_iff] at found
    obtain ⟨p, hlocate, hdraft⟩ := found
    rcases h.slot?_cases hsound hdraft with ⟨-, -, hcomputed⟩ | ⟨r, hr, hplace, -, hpath⟩
    · rw [hcomputed] at waits
      cases waits
    · rw [hpath] at ih
      obtain ⟨next, q, hnext, hsettles, hvalues⟩ := ih
      have hlead : Leads content.tree content.queue p next := ⟨r, hr, hplace, hnext⟩
      exact ⟨p, q, hlocate, hlead.settles hsettles, hvalues⟩

/-! ### Resolving a draft -/

/-- The path of a reference means the values where its slot settles. -/
theorem means_of_mem (h : Drafts content draft) (hsound : content.Sound) (hr : r ∈ content.queue)
    (hsettles : Settles content.tree content.queue r.place q) :
    Means draft.outline.property? r.path (valuesAt content.tree q) := by
  rcases hsettles.1.cases_head with hend | ⟨next, ⟨r', hr', hplace, hlocate⟩, hrest⟩
  · exact absurd (hend ▸ List.mem_map_of_mem hr) hsettles.2
  · obtain rfl := eq_of_place_eq hsound.distinct hr' hr hplace
    exact h.means_of_settles hsound hlocate ⟨hrest, hsettles.2⟩

/-- **The references of a content resolve** if and only if each path in its draft comes to some
values. -/
theorem resolves_iff (h : Drafts content draft) (hsound : content.Sound) :
    (∃ count, (resolve content.tree content.queue).2 = .ok count) ↔ draft.outline.Resolvable := by
  constructor
  · rintro ⟨count, hok⟩ property hhas hwaits
    obtain ⟨place, hdraft⟩ := (h.grown hsound).has_outline_iff.1 hhas
    rcases h.slot?_cases hsound hdraft with ⟨-, -, hcomputed⟩ | ⟨r, hr, -, -, hpath⟩
    · rw [hcomputed] at hwaits
      cases hwaits
    · obtain ⟨q, hsettles, -⟩ := (resolve_ok hsound.distinct h.seated hok).2.1 r hr
      exact ⟨_, hpath ▸ h.means_of_mem hsound hr hsettles⟩
  · intro hresolvable
    refine ⟨_, (resolve_ok_iff hsound.distinct h.seated).2
      (neverReturns_of_settles hsound.distinct fun r hr ↦ ?_)⟩
    obtain ⟨old, waiting, -, hdraft, rfl, hwaits⟩ := h.slot?_of_mem hsound hr
    have hhas := (h.grown hsound).has_outline_iff.2 ⟨_, hdraft⟩
    obtain ⟨values, hmeans⟩ := hresolvable _ hhas hwaits
    obtain ⟨p, q, hlocate, hsettles, -⟩ := h.exists_settles_of_means hsound hmeans
    have hlead : Leads content.tree content.queue r.place p := ⟨r, hr, rfl, hlocate⟩
    exact ⟨q, hlead.settles hsettles⟩

/-- **The outline after resolving** is that of the draft, with the values its paths come to. -/
theorem outline_resolve (h : Drafts content draft) (hsound : content.Sound) {count : Nat}
    (hok : (resolve content.tree content.queue).2 = .ok count) :
    (resolve content.tree content.queue).1.outline = draft.outline.settled := by
  obtain ⟨hshape, hfilled, hkept⟩ := resolve_ok hsound.distinct h.seated hok
  refine (h.grown hsound).linked.outline_eq_mapProperties
    (hshape.linked hsound.grown.linked) (h.shape.symm.trans hshape) fun place ↦ ?_
  by_cases hplace : place ∈ content.queue.map Reference.place
  · obtain ⟨r, hr, rfl⟩ := List.mem_map.1 hplace
    obtain ⟨q, hsettles, hassigned⟩ := hfilled r hr
    obtain ⟨old, waiting, hold, hdraft, hpath, hwaits⟩ := h.slot?_of_mem hsound hr
    have hmeans := (h.means_of_mem hsound hr hsettles).meaning?_eq
    have hfirst : waiting.firstText = r.path := by
      rw [hpath]
      rfl
    rw [hassigned, hold, hdraft, Option.map_some, Option.map_some, Property.settle,
      if_neg (Bool.eq_false_iff.1 hwaits), hfirst, hmeans, hpath]
    rfl
  · rw [hkept place hplace]
    cases hproperty : content.tree.slot? place with
    | none => rw [h.settled place hplace, hproperty, Option.map_none]
    | some property =>
      obtain ⟨hdraft, hcomputed⟩ := h.slot?_of_not_mem hsound hplace hproperty
      rw [hdraft, Option.map_some, Property.settle, if_pos hcomputed]

end Content.Drafts

end ModContent
