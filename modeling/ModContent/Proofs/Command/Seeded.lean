import ModContent.Command.Run
import ModContent.Proofs.Registry.Together

/-!
# Registries and the file of their ids

What a registry publishes is decided by its category, its policy and its ids (`published_bare`). So
registries that were rebuilt before and new ones with the same ids are rebuilt alike, and it is
enough to say that a file has the ids of some registries (`Command.Holds`). A rebuild that fails
keeps this true of the file (`Holds.rebuildAll_error`), and one that succeeds makes it true of the
file that keeps the new ids (`Holds.rebuildAll_ok`). A category may be asked for more than once: its
registries have the same ids then, so that it does not matter whose are kept last.
-/

namespace ModContent

namespace Registry

variable {α : Type} [Definition α]

/-- The registry of a new run: it has the ids and nothing else. -/
def bare (r : Registry α) : Registry α := (new r.category r.policy).withIds r.snapshot

/-- What a registry publishes is decided by its ids. -/
theorem published_bare (t : ContentTree) (r : Registry α) :
    r.bare.published t = r.published t := rfl

/-- What would be published does not depend on the contents before it, but only on the ids. -/
theorem mapM_published_bare (t : ContentTree) (registries : List (Registry α)) :
    (registries.map bare).mapM (published t) = registries.mapM (published t) := by
  rw [List.mapM_map, show published t ∘ bare = published t from funext (published_bare t)]

/-- A registry that was rebuilt keeps its category and its policy. -/
theorem of_published {t : ContentTree} {r new : Registry α} {report : RebuildReport}
    (h : r.published t = .ok (new, report)) :
    new.category = r.category ∧ new.policy = r.policy := by
  unfold published at h
  cases hbuild : r.build t with
  | error error =>
    rw [hbuild] at h
    cases h
  | ok pair =>
    rw [hbuild] at h
    obtain ⟨rfl, -⟩ := Prod.mk.inj (Except.ok.inj h)
    exact ⟨rfl, rfl⟩

end Registry

open Registry

namespace Command

variable {f : IdFile} {policy : SlotPolicy} {categories : List String} {t : ContentTree}
  {registries : List (Registry Record)}

/-- The table of a category, which is empty if the file has none. -/
def tableIn (f : IdFile) (category : String) : IdTable := (f.get? category).getD IdTable.empty

/-- A category without a table starts with the empty one. -/
theorem seededRegistry_eq (f : IdFile) (policy : SlotPolicy) (category : String) :
    seededRegistry f policy category = (new category policy).withIds (tableIn f category) := by
  simp only [seededRegistry, tableIn]
  cases f.get? category <;> rfl

/-- The registries are those of the categories, each with the ids that the file has for it. -/
def Holds (f : IdFile) (policy : SlotPolicy) (categories : List String)
    (registries : List (Registry Record)) : Prop :=
  registries.map bare = categories.map (seededRegistry f policy)

/-- New registries have the ids that they were seeded with. -/
theorem holds_seeded (f : IdFile) (policy : SlotPolicy) (categories : List String) :
    Holds f policy categories (categories.map (seededRegistry f policy)) := by
  rw [Holds, List.map_map]
  refine List.map_congr_left fun category _ ↦ ?_
  rw [Function.comp_apply, seededRegistry_eq]
  rfl

/-- The tables of registries that have the ids of a file are those of the file. -/
theorem Holds.tables (h : Holds f policy categories registries) :
    registries.map (fun r ↦ (r.category, r.snapshot)) =
      categories.map fun category ↦ (category, tableIn f category) := by
  have hmap := congrArg (List.map fun r : Registry Record ↦ (r.category, r.snapshot)) h
  rw [List.map_map, List.map_map] at hmap
  refine hmap.trans (List.map_congr_left fun category _ ↦ ?_)
  rw [Function.comp_apply, seededRegistry_eq]
  rfl

/-- The file has the table of the registries of a category, if there are some and they agree. -/
theorem get?_keepIds {category : String} {table : IdTable} (f : IdFile)
    (h : ∀ r ∈ registries, r.category = category → r.snapshot = table) :
    (keepIds f registries).get? category =
      if category ∈ registries.map Registry.category then some table else f.get? category := by
  induction registries generalizing f with
  | nil => rfl
  | cons r rest ih =>
    rw [List.forall_mem_cons] at h
    have hrest := ih (f.insert r.category r.snapshot) h.2
    rw [IdFile.get?_insert] at hrest
    rw [keepIds, List.foldl_cons, ← keepIds, hrest, List.map_cons]
    by_cases hmem : category ∈ rest.map Registry.category
    · rw [if_pos hmem, if_pos (List.mem_cons_of_mem _ hmem)]
    · rw [if_neg hmem]
      by_cases hcategory : category = r.category
      · rw [if_pos hcategory, h.1 hcategory.symm, if_pos (List.mem_cons.2 (.inl hcategory))]
      · rw [if_neg hcategory, if_neg fun hin ↦ (List.mem_cons.1 hin).elim hcategory hmem]

/-- Other categories keep their tables. -/
theorem get?_keepIds_of_not_mem {category : String} (f : IdFile)
    (h : category ∉ registries.map Registry.category) :
    (keepIds f registries).get? category = f.get? category := by
  have hnone : ∀ r ∈ registries, r.category = category → r.snapshot = IdTable.empty :=
    fun r hr hcategory ↦ absurd (List.mem_map.2 ⟨r, hr, hcategory⟩) h
  rw [get?_keepIds f hnone, if_neg h]

/-- A rebuild of registries ends as one of new registries with the same ids. -/
theorem Holds.outcome_rebuildAll (h : Holds f policy categories registries) (t : ContentTree) :
    (rebuildAll t registries).2 = (rebuildAll t (categories.map (seededRegistry f policy))).2 := by
  rw [← h, (publishes t).rebuildAll_eq, (publishes t).rebuildAll_eq, mapM_published_bare]
  cases registries.mapM (published t) <;> rfl

/-- A rebuild that fails leaves the ids as they were. -/
theorem Holds.rebuildAll_error (h : Holds f policy categories registries) {error : ContentError}
    (herror : (rebuildAll t registries).2 = .error error) :
    Holds f policy categories (rebuildAll t registries).1 := by
  rw [(publishes t).rebuildAll_eq] at herror ⊢
  cases hmapM : registries.mapM (published t) with
  | ok pairs => rw [hmapM] at herror; cases herror
  | error other =>
    -- staged contents are no part of what a new run starts from
    show (registries.map discard).map bare = _
    rw [List.map_map]
    exact h

/-- A rebuild that succeeds gives what new registries with the same ids give, and the file that
keeps their ids has them. -/
theorem Holds.rebuildAll_ok (h : Holds f policy categories registries)
    {reports : List RebuildReport} (hok : (rebuildAll t registries).2 = .ok reports) :
    (rebuildAll t registries).1 =
        (rebuildAll t (categories.map (seededRegistry f policy))).1 ∧
      (rebuildAll t registries).1.map Registry.category = categories ∧
      Holds (keepIds f (rebuildAll t registries).1) policy categories
        (rebuildAll t registries).1 := by
  rw [← h, (publishes t).rebuildAll_eq, (publishes t).rebuildAll_eq, mapM_published_bare]
  rw [(publishes t).rebuildAll_eq] at hok
  cases hmapM : registries.mapM (published t) with
  | error other => rw [hmapM] at hok; cases hok
  | ok pairs =>
    have hseeded : (categories.map (seededRegistry f policy)).mapM (published t) = .ok pairs := by
      rw [← h, mapM_published_bare, hmapM]
    rw [List.mapM_map] at hseeded
    have hpairs := forall₂_of_mapM hseeded
    have hmade : ∀ {c : String} {pair : Registry Record × RebuildReport},
        published t (seededRegistry f policy c) = .ok pair →
          pair.1.category = c ∧ pair.1.policy = policy := by
      intro c pair hpair
      obtain ⟨hcategory, hpolicy⟩ := of_published hpair
      rw [seededRegistry_eq] at hcategory hpolicy
      exact ⟨hcategory, hpolicy⟩
    have hcategories : (pairs.map Prod.fst).map Registry.category = categories := by
      rw [List.map_map, ← List.forall₂_eq_eq_eq, List.forall₂_map_left_iff]
      exact hpairs.flip.imp fun pair c hpair ↦ (hmade hpair).1
    refine ⟨rfl, hcategories, ?_⟩
    show (pairs.map Prod.fst).map bare = categories.map (seededRegistry (keepIds f _) policy)
    rw [List.map_map, ← List.forall₂_eq_eq_eq, List.forall₂_map_left_iff,
      List.forall₂_map_right_iff]
    have hlisted := (List.forall₂_and_left (p := (· ∈ categories)) _ _).2 ⟨fun _ hc ↦ hc, hpairs⟩
    refine hlisted.flip.imp fun pair c ⟨hc, hpair⟩ ↦ ?_
    -- a registry is decided by its category, so no other one puts another table in its place
    have hsame : ∀ r ∈ pairs.map Prod.fst, r.category = c → r.snapshot = pair.1.snapshot := by
      intro r hr hcategory
      obtain ⟨other, hother, rfl⟩ := List.mem_map.1 hr
      obtain ⟨c', -, hpair'⟩ := exists_of_mem_mapM hseeded hother
      obtain rfl := (hmade hpair').1.symm.trans hcategory
      rw [Except.ok.inj (hpair'.symm.trans hpair)]
    obtain ⟨hcategory, hpolicy⟩ := hmade hpair
    have htable : tableIn (keepIds f (pairs.map Prod.fst)) c = pair.1.snapshot := by
      rw [tableIn, get?_keepIds f hsame, hcategories, if_pos hc, Option.getD_some]
    rw [seededRegistry_eq, htable, Function.comp_apply, bare, hcategory, hpolicy]

end Command

end ModContent
