import Mathlib.Data.Nat.Init
import ModContent.Proofs.Registry.Build
import ModContent.Proofs.Registry.Together
import ModContent.Registry.Record

/-!
# Ids over a run

One registry is followed through updates of every kind: rebuilt alone, rebuilt together with
others, or reloaded from packages. An update shows the contents of a build of some tree or shows
what was shown before (`Update.apply_cases`), so a run is a sequence of builds with failures in
between, and what a build keeps (`Registry.build_spec`) is kept by the run:

* the names of the table stay distinct, and the two indices agree with it (`Registry.Consistent`);
* an id belongs to its name until a build from a tree without the name (`nameOf?_after_succ`);
* no id is lost (`AnyRegistry.Grows`).
-/

namespace ModContent

/-- What can happen to a registry. Where it is rebuilt together with others, these come before and
after it. -/
inductive Update
  | alone (tree : ContentTree)
  | together (tree : ContentTree) (before after : List AnyRegistry)
  | reload (store : ContentStore) (handle : String) (packages : List Package)
      (before after : List AnyRegistry)

namespace Update

/-- The registry after the update. -/
def apply (r : AnyRegistry) : Update → AnyRegistry
  | alone t => (r.rebuild t).1
  | together t before after => (rebuildAll t (before ++ r :: after)).1[before.length]?.getD r
  | reload store handle packages before after =>
    (store.reload handle packages (before ++ r :: after)).2.1[before.length]?.getD r

/-- The tree that the update built the registry from, if the update succeeded. -/
def built? (r : AnyRegistry) : Update → Option ContentTree
  | alone t => if (r.rebuild t).2.isOk then some t else none
  | together t before after => if (rebuildAll t (before ++ r :: after)).2.isOk then some t else none
  | reload store handle packages before after =>
    let (kept, _, outcome) := store.reload handle packages (before ++ r :: after)
    if outcome.isOk then kept.get? handle else none

end Update

open AnyRegistry

/-- In a list that is published as a whole, each registry is published. -/
theorem published_of_mapM {t : ContentTree} {r : AnyRegistry} {before after : List AnyRegistry}
    {pairs : List (AnyRegistry × RebuildReport)}
    (h : (before ++ r :: after).mapM (published t) = .ok pairs) :
    ∃ pair, r.published t = .ok pair ∧ pairs[before.length]? = some pair := by
  obtain ⟨hlength, hpairs⟩ := List.forall₂_iff_get.1 (forall₂_of_mapM h)
  have hlt : before.length < (before ++ r :: after).length := by simp
  have hpublished := hpairs before.length hlt (hlength ▸ hlt)
  rw [List.get_eq_getElem, List.getElem_append_right (Nat.le_refl _)] at hpublished
  simp only [Nat.sub_self, List.getElem_cons_zero] at hpublished
  exact ⟨_, hpublished, List.getElem?_eq_getElem (hlength ▸ hlt)⟩

/-- An update shows the contents of a build, or leaves the contents alone. -/
theorem Update.apply_cases (r : AnyRegistry) (u : Update) :
    (∃ t contents report, u.built? r = some t ∧ r.build t = .ok (contents, report) ∧
        u.apply r = r.committed contents) ∨
      (u.built? r = none ∧ (u.apply r = r ∨ u.apply r = r.discard)) := by
  cases u with
  | alone t =>
    simp only [built?, apply, rebuild_eq]
    cases hpublished : r.published t with
    | error error => exact .inr ⟨rfl, .inr rfl⟩
    | ok pair =>
      obtain ⟨contents, hbuild, hnew⟩ := published_eq_ok_iff.1 hpublished
      exact .inl ⟨t, contents, pair.2, rfl, hbuild, hnew⟩
  | together t before after =>
    simp only [built?, apply, rebuildAll_eq]
    cases hpairs : (before ++ r :: after).mapM (published t) with
    | error error => exact .inr ⟨rfl, .inr (by simp)⟩
    | ok pairs =>
      obtain ⟨pair, hpublished, hat⟩ := published_of_mapM hpairs
      obtain ⟨contents, hbuild, hnew⟩ := published_eq_ok_iff.1 hpublished
      exact .inl ⟨t, contents, pair.2, rfl, hbuild, by simp [hat, hnew]⟩
  | reload store handle packages before after =>
    have hreload := store.reload_eq handle packages (before ++ r :: after)
    cases hload : load packages with
    | error error =>
      simp only [hload] at hreload
      simp only [built?, apply, hreload]
      exact .inr ⟨rfl, .inl (by simp)⟩
    | ok loaded =>
      cases hpairs : (before ++ r :: after).mapM (published loaded.tree) with
      | error error =>
        simp only [hload, hpairs] at hreload
        simp only [built?, apply, hreload]
        exact .inr ⟨rfl, .inr (by simp)⟩
      | ok pairs =>
        simp only [hload, hpairs] at hreload
        simp only [built?, apply, hreload]
        obtain ⟨pair, hpublished, hat⟩ := published_of_mapM hpairs
        obtain ⟨contents, hbuild, hnew⟩ := published_eq_ok_iff.1 hpublished
        refine .inl ⟨loaded.tree, contents, pair.2, ?_, hbuild, by simp [hat, hnew]⟩
        simp [ContentStore.register, ContentStore.get?, Except.isOk, Except.toBool]

namespace Registry

variable {α : Type} {r : Registry α}

/-- The starts of a run: a new registry, or one that was given ids without repeated names. -/
inductive IsStart [Definition α] : Registry α → Prop
  | new (category : String) (policy : SlotPolicy) : IsStart (.new category policy)
  | seeded (category : String) (policy : SlotPolicy) {table : IdTable} (h : table.Distinct) :
      IsStart ((Registry.new category policy).withIds table)

/-- No name stands in the table twice, and the indices agree with the table: from the first build
on they show it, before they show nothing. -/
structure Consistent (r : Registry α) : Prop where
  distinct : r.snapshot.Distinct
  indexed : r.built = true → r.contents.Indexed
  bare : r.built = false → r.contents = Build.bare r.snapshot

theorem IsStart.consistent [Definition α] (h : r.IsStart) : r.Consistent := by
  cases h with
  | new category policy => exact ⟨List.nodup_nil, nofun, fun _ ↦ rfl⟩
  | seeded category policy hdistinct => exact ⟨hdistinct, nofun, fun _ ↦ rfl⟩

theorem Consistent.committed [Definition α] {t : ContentTree} {contents : Build α}
    {report : RebuildReport} (hr : r.Consistent) (h : r.build t = .ok (contents, report)) :
    (r.committed contents).Consistent := by
  obtain ⟨hdistinct, hindexed, -⟩ := Registry.build_spec h hr.distinct
  exact ⟨hdistinct, fun _ ↦ hindexed, nofun⟩

theorem Consistent.discard (hr : r.Consistent) : r.discard.Consistent :=
  ⟨hr.distinct, hr.indexed, hr.bare⟩

variable {name : String} {id : Nat}

/-- The name index gives an id of the table. -/
theorem Consistent.nameOf?_of_idOf? (hr : r.Consistent) (h : r.idOf? name = some id) :
    r.snapshot.nameOf? id = some name := by
  cases hbuilt : r.built with
  | false =>
    rw [Registry.idOf?, hr.bare hbuilt] at h
    cases h
  | true =>
    rw [Registry.idOf?, (hr.indexed hbuilt).ids] at h
    exact IdTable.nameOf?_of_idOf? h

/-- The entry under an id carries the name that the table has there. -/
theorem Consistent.nameOf?_of_byId? (hr : r.Consistent) {entry : Entry α}
    (h : r.byId? id = some entry) : r.snapshot.nameOf? id = some entry.name := by
  cases hbuilt : r.built with
  | false =>
    rw [Registry.byId?, hr.bare hbuilt] at h
    cases h
  | true =>
    have hentry := (hr.indexed hbuilt).entries id
    rw [← Registry.byId?, h] at hentry
    exact hentry.symm

end Registry

/-- The category stays, what is built stays built, and no id is lost. -/
structure AnyRegistry.Grows (r s : AnyRegistry) : Prop where
  category : s.registry.category = r.registry.category
  built : r.registry.built = true → s.registry.built = true
  table : r.registry.snapshot.idSpace ≤ s.registry.snapshot.idSpace
  entries : r.registry.idSpace ≤ s.registry.idSpace

theorem AnyRegistry.Grows.refl (r : AnyRegistry) : r.Grows r :=
  ⟨rfl, id, Nat.le_refl _, Nat.le_refl _⟩

theorem AnyRegistry.Grows.trans {r s t : AnyRegistry} (hrs : r.Grows s) (hst : s.Grows t) :
    r.Grows t :=
  ⟨hst.category.trans hrs.category, fun h ↦ hst.built (hrs.built h),
    Nat.le_trans hrs.table hst.table, Nat.le_trans hrs.entries hst.entries⟩

/-! ### One update -/

namespace Update

variable {r : AnyRegistry}

/-- An update keeps a registry consistent. -/
theorem consistent_apply (hr : r.registry.Consistent) (u : Update) :
    (u.apply r).registry.Consistent := by
  obtain ⟨t, contents, report, -, hbuild, h⟩ | ⟨-, h | h⟩ := u.apply_cases r
  · rw [h]
    exact Registry.Consistent.committed (r := r.registry) hr hbuild
  · rw [h]
    exact hr
  · rw [h]
    exact hr.discard

/-- The names of a built table are those that the tree has in the category. -/
theorem mem_names_apply {u : Update} {t : ContentTree} (hr : r.registry.Consistent)
    (hu : u.built? r = some t) (name : String) :
    (u.apply r).registry.built = true ∧
      (name ∈ (u.apply r).registry.snapshot.names ↔ name ∈ t.namesIn r.registry.category) := by
  obtain ⟨found, contents, report, hfound, hbuild, h⟩ | ⟨hnone, -⟩ := u.apply_cases r
  · obtain rfl := Option.some.inj (hfound.symm.trans hu)
    rw [h]
    exact ⟨rfl, (Registry.build_spec (r := r.registry) hbuild hr.distinct).2.2.1 name⟩
  · rw [hnone] at hu
    cases hu

/-- An id keeps its name unless the update builds from a tree without the name. -/
theorem nameOf?_apply {u : Update} (hr : r.registry.Consistent) {name : String} {id : Nat}
    (hid : r.registry.snapshot.nameOf? id = some name)
    (hname : ∀ t, u.built? r = some t → name ∈ t.namesIn r.registry.category) :
    (u.apply r).registry.snapshot.nameOf? id = some name := by
  obtain ⟨t, contents, report, hu, hbuild, h⟩ | ⟨-, h | h⟩ := u.apply_cases r
  · rw [h]
    exact (Registry.build_spec (r := r.registry) hbuild hr.distinct).2.2.2.1 name id
      (hname t hu) hid
  · rw [h]
    exact hid
  · rw [h]
    exact hid

/-- An update does not shrink the id space, neither of the table nor of the entries. -/
theorem grows_apply (hr : r.registry.Consistent) (u : Update) : r.Grows (u.apply r) := by
  obtain ⟨t, contents, report, -, hbuild, h⟩ | ⟨-, h | h⟩ := u.apply_cases r
  · obtain ⟨-, hindexed, -, -, hle⟩ :=
      Registry.build_spec (r := r.registry) hbuild hr.distinct
    rw [h]
    refine ⟨rfl, fun _ ↦ rfl, hle, ?_⟩
    -- before the first build there are no entries, later there is one for each id
    show r.registry.contents.entries.length ≤ contents.entries.length
    cases hbuilt : r.registry.built with
    | false => simp [hr.bare hbuilt, Build.bare]
    | true => exact (hr.indexed hbuilt).length ▸ hindexed.length ▸ hle
  · rw [h]
    exact .refl r
  · rw [h]
    exact ⟨rfl, id, Nat.le_refl _, Nat.le_refl _⟩

end Update

/-! ### A run -/

namespace AnyRegistry

/-- The registry after the first updates of a run. -/
def after (r : AnyRegistry) (updates : List Update) (k : Nat) : AnyRegistry :=
  (updates.take k).foldl Update.apply r

/-- The tree from which one update of a run built the registry, if that update succeeded. -/
def builtAt? (r : AnyRegistry) (updates : List Update) (k : Nat) : Option ContentTree :=
  updates[k]?.bind fun u ↦ u.built? (r.after updates k)

variable {r : AnyRegistry} {updates : List Update} {k : Nat}

/-- The next state is the state before after one update, or the run is over. -/
theorem after_succ (r : AnyRegistry) (updates : List Update) (k : Nat) :
    (∃ u : Update, r.after updates (k + 1) = u.apply (r.after updates k) ∧
        r.builtAt? updates k = u.built? (r.after updates k)) ∨
      (r.after updates (k + 1) = r.after updates k ∧ r.builtAt? updates k = none) := by
  cases hu : updates[k]? with
  | none =>
    refine .inr ⟨?_, by rw [builtAt?, hu]; rfl⟩
    rw [after, after, List.take_add_one, hu, Option.toList_none, List.append_nil]
  | some u =>
    refine .inl ⟨u, ?_, by rw [builtAt?, hu]; rfl⟩
    rw [after, after, List.take_add_one, hu, Option.toList_some, List.foldl_append]
    rfl

/-- So registries are consistent after any updates. -/
theorem consistent_after (hr : r.registry.IsStart) (updates : List Update) (k : Nat) :
    (r.after updates k).registry.Consistent := by
  induction k with
  | zero => exact hr.consistent
  | succ k ih =>
    obtain ⟨u, h, -⟩ | ⟨h, -⟩ := r.after_succ updates k
    · rw [h]
      exact Update.consistent_apply ih u
    · rw [h]
      exact ih

/-- Between two moments of a run a registry grows. -/
theorem grows_after (hr : r.registry.IsStart) (updates : List Update) {i j : Nat} (hij : i ≤ j) :
    (r.after updates i).Grows (r.after updates j) := by
  induction j, hij using Nat.le_induction with
  | base => exact .refl _
  | succ j hij ih =>
    obtain ⟨u, h, -⟩ | ⟨h, -⟩ := r.after_succ updates j
    · rw [h]
      exact ih.trans (Update.grows_apply (consistent_after hr updates j) u)
    · rw [h]
      exact ih

/-- One step of a run keeps the id of a name, unless it builds from a tree without the name. -/
theorem nameOf?_after_succ (hr : r.registry.IsStart) {name : String} {id : Nat}
    (hid : (r.after updates k).registry.snapshot.nameOf? id = some name)
    (hname : ∀ t, r.builtAt? updates k = some t → name ∈ t.namesIn r.registry.category) :
    (r.after updates (k + 1)).registry.snapshot.nameOf? id = some name := by
  obtain ⟨u, h, hbuilt⟩ | ⟨h, -⟩ := r.after_succ updates k
  · rw [h]
    refine Update.nameOf?_apply (consistent_after hr updates k) hid fun t ht ↦ ?_
    rw [(grows_after hr updates (Nat.zero_le k)).category]
    exact hname t (hbuilt.trans ht)
  · rw [h]
    exact hid

/-- A name that is in every tree built from keeps its id. -/
theorem nameOf?_after_of_le (hr : r.registry.IsStart) {name : String} {id i j : Nat} (hij : i ≤ j)
    (hid : (r.after updates i).registry.snapshot.nameOf? id = some name)
    (hname : ∀ k t, i ≤ k → k < j → r.builtAt? updates k = some t →
      name ∈ t.namesIn r.registry.category) :
    (r.after updates j).registry.snapshot.nameOf? id = some name := by
  induction j, hij using Nat.le_induction with
  | base => exact hid
  | succ j hij ih =>
    refine nameOf?_after_succ hr (ih fun k t hik hkj ↦ hname k t hik (Nat.lt_succ_of_lt hkj)) ?_
    exact fun t ↦ hname j t hij (Nat.lt_succ_self j)

/-- A name of the table has its id in the index, once the registry is built. -/
theorem idOf?_eq_of_nameOf? {r : AnyRegistry} (hr : r.registry.Consistent)
    (hbuilt : r.registry.built = true) {name : String} {id : Nat}
    (hid : r.registry.snapshot.nameOf? id = some name) : r.registry.idOf? name = some id := by
  rw [Registry.idOf?, (hr.indexed hbuilt).ids]
  exact hr.distinct.idOf?_eq_some_iff.2 hid

/-- A name that is in every tree built from has an id after the first of these builds, and keeps
it. -/
theorem exists_idOf?_after (hr : r.registry.IsStart) {name : String} {i j : Nat} (hij : i ≤ j)
    (hbuilt : r.builtAt? updates i ≠ none)
    (hname : ∀ k t, i ≤ k → k ≤ j → r.builtAt? updates k = some t →
      name ∈ t.namesIn r.registry.category) :
    ∃ id, (r.after updates (i + 1)).registry.idOf? name = some id ∧
      (r.after updates (j + 1)).registry.idOf? name = some id := by
  obtain ⟨t, ht⟩ := Option.ne_none_iff_exists'.1 hbuilt
  obtain ⟨u, h, hu⟩ | ⟨-, hnone⟩ := r.after_succ updates i
  · -- the first build gives the name an id, and the later ones keep it
    obtain ⟨hfirst, hnames⟩ :=
      Update.mem_names_apply (consistent_after hr updates i) (hu.symm.trans ht) name
    rw [← h, (grows_after hr updates (Nat.zero_le i)).category] at hnames
    rw [← h] at hfirst
    obtain ⟨id, hid⟩ := IdTable.mem_names_iff.1 (hnames.2 (hname i t (Nat.le_refl i) hij ht))
    have hlater := nameOf?_after_of_le hr (Nat.succ_le_succ hij) hid
      fun k t hik hkj ↦ hname k t (Nat.le_of_lt hik) (Nat.le_of_lt_succ hkj)
    have hlast := (grows_after hr updates (Nat.succ_le_succ hij)).built hfirst
    exact ⟨id, idOf?_eq_of_nameOf? (consistent_after hr updates _) hfirst hid,
      idOf?_eq_of_nameOf? (consistent_after hr updates _) hlast hlater⟩
  · rw [hnone] at ht
    cases ht

end AnyRegistry

/-- **Ids over a run.** In every state of a run no name has two ids and no id two names, in the
table, the name index and the entries. A name that is in every tree built from keeps its id from
the first of these builds on. An id passes from its name only in a build from a tree without the
name. The id space does not shrink. -/
theorem ids_stable_over_runs (r : AnyRegistry) (hr : r.registry.IsStart) (updates : List Update) :
    (∀ k, (r.after updates k).registry.Consistent ∧
      (∀ name id other, (r.after updates k).registry.snapshot.nameOf? id = some name →
        (r.after updates k).registry.snapshot.nameOf? other = some name → id = other) ∧
      (∀ name other id, (r.after updates k).registry.idOf? name = some id →
        (r.after updates k).registry.idOf? other = some id → name = other) ∧
      (∀ id other entry found, (r.after updates k).registry.byId? id = some entry →
        (r.after updates k).registry.byId? other = some found → entry.name = found.name →
        id = other)) ∧
    (∀ i j name, i ≤ j → r.builtAt? updates i ≠ none →
      (∀ k t, i ≤ k → k ≤ j → r.builtAt? updates k = some t →
        name ∈ t.namesIn r.registry.category) →
      ∃ id, (r.after updates (i + 1)).registry.idOf? name = some id ∧
        (r.after updates (j + 1)).registry.idOf? name = some id) ∧
    (∀ k id name, (r.after updates k).registry.snapshot.nameOf? id = some name →
      (r.after updates (k + 1)).registry.snapshot.nameOf? id ≠ some name →
      ∃ t, r.builtAt? updates k = some t ∧ name ∉ t.namesIn r.registry.category) ∧
    (∀ j k, j ≤ k → (r.after updates j).registry.snapshot.idSpace ≤
        (r.after updates k).registry.snapshot.idSpace ∧
      (r.after updates j).registry.idSpace ≤ (r.after updates k).registry.idSpace) := by
  refine ⟨fun k ↦ ?_, fun i j name hij hbuilt hname ↦ ?_, fun k id name hid hchanged ↦ ?_,
    fun j k hjk ↦ ?_⟩
  · have h := AnyRegistry.consistent_after hr updates k
    refine ⟨h, fun name id other ↦ h.distinct.eq_of_nameOf?, fun name other id hname hother ↦ ?_,
      fun id other entry found hentry hfound hnames ↦ ?_⟩
    · have heq := (h.nameOf?_of_idOf? hname).symm.trans (h.nameOf?_of_idOf? hother)
      exact Option.some.inj heq
    · exact h.distinct.eq_of_nameOf? (h.nameOf?_of_byId? hentry)
        (hnames ▸ h.nameOf?_of_byId? hfound)
  · exact AnyRegistry.exists_idOf?_after hr hij hbuilt hname
  · by_contra hkept
    push Not at hkept
    exact hchanged (AnyRegistry.nameOf?_after_succ hr hid hkept)
  · have hgrows := AnyRegistry.grows_after hr updates hjk
    exact ⟨hgrows.table, hgrows.entries⟩

/-- A tree with units of these names. -/
def unitTree (names : List String) : ContentTree :=
  names.foldl (fun t name ↦ (t.childOrCreate ContentTree.root ⟨name, some "unit"⟩).2)
    ContentTree.new

/-- A registry of units that holds nothing yet. -/
def newUnits : AnyRegistry := ⟨(Registry.new "unit" .grow : Registry Record)⟩

/-- Two of three units go away, and one comes. -/
def unitUpdates : List Update :=
  [.alone (unitTree ["infantry", "armour", "artillery"]),
    .alone (unitTree ["artillery", "cavalry"])]

/-- The artillery keeps its id over an update. -/
theorem ids_stable_over_unit_updates : newUnits.registry.IsStart ∧
    ∃ id, (newUnits.after unitUpdates 1).registry.idOf? "artillery" = some id ∧
      (newUnits.after unitUpdates 2).registry.idOf? "artillery" = some id := by
  have hstart : newUnits.registry.IsStart := .new "unit" .grow
  refine ⟨hstart, (ids_stable_over_runs newUnits hstart unitUpdates).2.1 0 1 "artillery"
    (by decide) (Option.isSome_iff_ne_none.1 rfl) fun k t _ hk ht ↦ ?_⟩
  obtain rfl | rfl : k = 0 ∨ k = 1 := by omega
  · obtain rfl : unitTree ["infantry", "armour", "artillery"] = t := Option.some.inj ht
    decide
  · obtain rfl : unitTree ["artillery", "cavalry"] = t := Option.some.inj ht
    decide

end ModContent
