import ModContent.Proofs.Registry.Calls

/-!
# Rebuilding together against rebuilding alone

Registries of any definition types are brought into some state by calls of their own
(`RegistryHistory`) and are then rebuilt together. A registry that rebuilds alone publishes or
discards (`published_eq_rebuild`), so by `rebuildAll_eq` the rebuild of all of them is told by the
single ones:

* all publish if each would, and then each is as its own rebuild leaves it;
* else all discard (`RegistryHistory.Kept`), with the error of the first that fails. What was staged
  before is neither published nor kept, and locks that earlier calls took off are put back on.
-/

namespace ModContent

namespace AnyRegistry

variable {t : ContentTree} {r : AnyRegistry}

/-- What a registry publishes is its own rebuild, if that succeeds. -/
theorem published_eq_rebuild (t : ContentTree) (r : AnyRegistry) :
    r.published t = (r.rebuild t).2.map fun report ↦ ((r.rebuild t).1, report) := by
  rw [rebuild_eq]
  cases r.published t with
  | error error => rfl
  | ok pair => rfl

/-- What is published is what a rebuild ends with. -/
theorem published_eq_ok_iff_rebuild {new : AnyRegistry} {report : RebuildReport} :
    r.published t = .ok (new, report) ↔ r.rebuild t = (new, .ok report) := by
  rw [published_eq_rebuild]
  obtain ⟨after, error | found⟩ := r.rebuild t
  · simp [Except.map]
  · simp [Except.map]

theorem published_eq_error_iff {error : ContentError} :
    r.published t = .error error ↔ (r.rebuild t).2 = .error error := by
  rw [published_eq_rebuild]
  cases (r.rebuild t).2 with
  | error other => simp [Except.map]
  | ok report => simp [Except.map]

/-- A registry can be published if and only if it can be rebuilt. -/
theorem exists_published_iff :
    (∃ pair, r.published t = .ok pair) ↔ ∃ report, (r.rebuild t).2 = .ok report := by
  constructor
  · rintro ⟨⟨new, report⟩, h⟩
    rw [published_eq_ok_iff_rebuild.1 h]
    exact ⟨report, rfl⟩
  · rintro ⟨report, h⟩
    exact ⟨_, published_eq_ok_iff_rebuild.2 (Prod.ext rfl h)⟩

/-- The registries that are published, and their reports, are those of the single rebuilds. -/
theorem map_rebuild_of_mapM {registries : List AnyRegistry}
    {pairs : List (AnyRegistry × RebuildReport)} (h : registries.mapM (published t) = .ok pairs) :
    pairs.map Prod.fst = registries.map (fun r ↦ (r.rebuild t).1) ∧
      (pairs.map Prod.snd).map Except.ok = registries.map fun r ↦ (r.rebuild t).2 := by
  have hpairs := forall₂_of_mapM h
  clear h
  induction hpairs with
  | nil => exact ⟨rfl, rfl⟩
  | cons hpair _ ih =>
    have hrebuild := published_eq_ok_iff_rebuild.1 hpair
    simp only [List.map_cons, hrebuild, ih.1, ih.2, and_self]

end AnyRegistry

open AnyRegistry

/-! ### Together and alone -/

section Together

variable {t : ContentTree} {registries after : List AnyRegistry}

/-- All registries are rebuilt if and only if each would be. -/
theorem rebuildAll_succeeds_iff :
    (∃ after reports, rebuildAll t registries = (after, .ok reports)) ↔
      ∀ r ∈ registries, ∃ report, (r.rebuild t).2 = .ok report := by
  simp only [← exists_published_iff, ← exists_mapM_eq_ok_iff, rebuildAll_eq]
  cases registries.mapM (published t) with
  | ok pairs => exact ⟨fun _ ↦ ⟨pairs, rfl⟩, fun _ ↦ ⟨_, _, rfl⟩⟩
  | error error => exact ⟨nofun, nofun⟩

/-- Where all succeed, each registry is rebuilt as it would be alone. -/
theorem rebuildAll_ok {reports : List RebuildReport}
    (h : rebuildAll t registries = (after, .ok reports)) :
    after = registries.map (fun r ↦ (r.rebuild t).1) ∧
      reports.map Except.ok = registries.map fun r ↦ (r.rebuild t).2 := by
  rw [rebuildAll_eq] at h
  cases hpairs : registries.mapM (published t) with
  | ok pairs =>
    rw [hpairs] at h
    obtain ⟨rfl, hreports⟩ := Prod.ext_iff.1 h
    obtain rfl := Except.ok.inj hreports
    exact map_rebuild_of_mapM hpairs
  | error error =>
    rw [hpairs] at h
    cases h

/-- The error is that of the first registry that fails, and all registries discard. -/
theorem rebuildAll_error {error : ContentError}
    (h : rebuildAll t registries = (after, .error error)) :
    (∃ before r others, registries = before ++ r :: others ∧
      (∀ s ∈ before, ∃ report, (s.rebuild t).2 = .ok report) ∧ (r.rebuild t).2 = .error error) ∧
    after = registries.map AnyRegistry.discard := by
  rw [rebuildAll_eq] at h
  cases hpairs : registries.mapM (published t) with
  | ok pairs =>
    rw [hpairs] at h
    cases h
  | error found =>
    rw [hpairs] at h
    obtain ⟨rfl, herror⟩ := Prod.ext_iff.1 h
    obtain rfl := Except.error.inj herror
    obtain ⟨before, r, others, heq, hbefore, hr⟩ := exists_of_mapM_error hpairs
    simp only [exists_published_iff] at hbefore
    exact ⟨⟨before, r, others, heq, hbefore, published_eq_error_iff.1 hr⟩, rfl⟩

end Together

/-! ### Registries with a past -/

/-- A registry of any definition type, given by the calls made on it since it was new. -/
structure RegistryHistory where
  {α : Type}
  [definition : Definition α]
  category : String
  policy : SlotPolicy
  calls : List Registry.Call

attribute [instance] RegistryHistory.definition

namespace RegistryHistory

/-- The registry before the calls. -/
def made (h : RegistryHistory) : Registry h.α := Registry.new h.category h.policy

/-- The registry after the calls. -/
def reached (h : RegistryHistory) : Registry h.α := h.made.run h.calls

/-- The same, with its definition type. -/
def registry (h : RegistryHistory) : AnyRegistry := ⟨h.reached⟩

/-- Some call has built the registry. -/
def EverBuilt (h : RegistryHistory) : Prop := h.made.EverPublished h.calls

/-- The registry is as it was reached, except that nothing is staged and that it is locked if and
only if it was ever built. -/
structure Kept (h : RegistryHistory) (r : Registry h.α) : Prop where
  category : r.category = h.reached.category
  policy : r.policy = h.reached.policy
  table : r.contents.table = h.reached.contents.table
  entries : r.contents.entries = h.reached.contents.entries
  ids : r.contents.ids = h.reached.contents.ids
  fallback : r.fallback = h.reached.fallback
  get : ∀ id, r.get id = h.reached.get id
  getNamed : ∀ name, r.getNamed name = h.reached.getNamed name
  staged : r.staged = none
  locked : r.locked = true ↔ h.EverBuilt

/-- Discarding the stage keeps all that readers see. -/
theorem kept_discard (h : RegistryHistory) : h.Kept h.reached.discard where
  category := rfl
  policy := rfl
  table := rfl
  entries := rfl
  ids := rfl
  fallback := rfl
  get _ := rfl
  getNamed _ := rfl
  staged := rfl
  locked := (Registry.built_run_iff h.made h.calls).trans (or_iff_right nofun)

/-- Discarding keeps all registries. -/
theorem forall₂_kept_discard (histories : List RegistryHistory) :
    List.Forall₂ (fun h r ↦ ∃ kept, h.Kept kept ∧ r = ⟨kept⟩) histories
      ((histories.map registry).map AnyRegistry.discard) := by
  rw [List.map_map, List.forall₂_map_right_iff, List.forall₂_same]
  exact fun h _ ↦ ⟨_, h.kept_discard, rfl⟩

end RegistryHistory

/-- **Rebuilding together is all or nothing**, and agrees with rebuilding alone. Whatever calls were
made on the registries before, rebuilding all of them succeeds if and only if each would succeed
alone. Then each is as its own rebuild leaves it, and the reports come in the order of the
registries. Else the error is that of the first registry that fails, and all registries are kept. -/
theorem rebuildAll_all_or_nothing (t : ContentTree) (histories : List RegistryHistory) :
    let registries := histories.map RegistryHistory.registry
    ((∃ after reports, rebuildAll t registries = (after, .ok reports)) ↔
      ∀ r ∈ registries, ∃ report, (r.rebuild t).2 = .ok report) ∧
    (∀ after reports, rebuildAll t registries = (after, .ok reports) →
      after = registries.map (fun r ↦ (r.rebuild t).1) ∧
        reports.map Except.ok = registries.map fun r ↦ (r.rebuild t).2) ∧
    ∀ after error, rebuildAll t registries = (after, .error error) →
      (∃ before r others, registries = before ++ r :: others ∧
        (∀ s ∈ before, ∃ report, (s.rebuild t).2 = .ok report) ∧
        (r.rebuild t).2 = .error error) ∧
      List.Forall₂ (fun h r ↦ ∃ kept, h.Kept kept ∧ r = ⟨kept⟩) histories after := by
  intro registries
  refine ⟨rebuildAll_succeeds_iff, fun _ _ ↦ rebuildAll_ok, fun after error h ↦ ?_⟩
  obtain ⟨hfirst, rfl⟩ := rebuildAll_error h
  exact ⟨hfirst, RegistryHistory.forall₂_kept_discard histories⟩

end ModContent
