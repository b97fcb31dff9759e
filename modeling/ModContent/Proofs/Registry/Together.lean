import ModContent.Proofs.Outcome
import ModContent.Store

/-!
# Rebuilding together

Whether registries can be rebuilt against a tree depends on the tree and on what they show. So a
rebuild of several registries is described without its two steps: build all, in order, and show
the new contents of all of them (`published`), or, from the first failure on, show what was shown
before and drop what was staged (`rebuildAll_eq`). The argument is made once for all that is rebuilt
in two steps (`Publishes.rebuildAll_eq`), and serves registries of one definition type and of mixed
ones. A reload adds the loading in front (`reload_eq`).

* `Registry.shown` — what a registry shows, that is, the registry without staged contents;
* `Registry.committed` — the registry that shows new contents, as a commit leaves it.
-/

namespace ModContent

/-! ### What all registries have in common -/

universe u

section Publishing

variable {ρ : Type u} [Rebuildable ρ] {t : ContentTree}
  {published : ρ → Except ContentError (ρ × RebuildReport)} {dropped : ρ → ρ}

/-- The two steps of a rebuild against a tree, told by their results: what is published, and what is
left when staged contents are dropped. -/
structure Publishes (t : ContentTree) (published : ρ → Except ContentError (ρ × RebuildReport))
    (dropped : ρ → ρ) : Prop where
  stage_ok : ∀ {r new : ρ} {report : RebuildReport}, published r = .ok (new, report) →
    ∃ staged, Rebuildable.stage (Rebuildable.unlock r) t = (staged, .ok report) ∧
      Rebuildable.commit staged = new ∧ Rebuildable.discard staged = dropped r
  stage_error : ∀ {r : ρ} {error : ContentError}, published r = .error error →
    Rebuildable.stage (Rebuildable.unlock r) t = (Rebuildable.unlock r, .error error)
  discard_unlock : ∀ r : ρ, Rebuildable.discard (Rebuildable.unlock r) = dropped r

/-- Staging in order comes to publishing in order. Commit and discard then lead to what is
published, and to what is left. -/
theorem Publishes.stageAll_unlock (h : Publishes t published dropped) (registries : List ρ) :
    ∃ staged,
      stageAll t (registries.map Rebuildable.unlock) =
        (staged, (registries.mapM published).map fun pairs ↦ pairs.map Prod.snd) ∧
      (∀ pairs, registries.mapM published = .ok pairs →
        staged.map Rebuildable.commit = pairs.map Prod.fst) ∧
      staged.map Rebuildable.discard = registries.map dropped := by
  induction registries with
  | nil => exact ⟨[], rfl, fun pairs hpairs ↦ by obtain rfl := Except.ok.inj hpairs; rfl, rfl⟩
  | cons r rest ih =>
    obtain ⟨others, hothers, hcommit, hdiscard⟩ := ih
    cases hpublished : published r with
    | error error =>
      -- the rest is not staged any more, but it was unlocked, and discarding locks it again
      have hstage := h.stage_error hpublished
      refine ⟨Rebuildable.unlock r :: rest.map Rebuildable.unlock, ?_, ?_, ?_⟩
      · simp only [List.map_cons, stageAll, hstage, List.mapM_cons, hpublished]
        rfl
      · intro pairs hpairs
        rw [List.mapM_cons, hpublished] at hpairs
        cases hpairs
      · rw [List.map_cons, List.map_cons, List.map_map, h.discard_unlock]
        exact congrArg _ (List.map_congr_left fun other _ ↦ h.discard_unlock other)
    | ok pair =>
      obtain ⟨new, report⟩ := pair
      obtain ⟨staged, hstage, hnew, hold⟩ := h.stage_ok hpublished
      refine ⟨staged :: others, ?_, ?_, ?_⟩
      · simp only [List.map_cons, stageAll, hstage, List.mapM_cons, hpublished, hothers]
        cases rest.mapM published <;> rfl
      · intro pairs hpairs
        rw [List.mapM_cons] at hpairs
        obtain ⟨pair, hpair, hpairs⟩ := bind_eq_ok_iff.1 hpairs
        obtain ⟨tail, hrest, hpairs⟩ := bind_eq_ok_iff.1 hpairs
        obtain rfl := Except.ok.inj (hpublished.symm.trans hpair)
        obtain rfl := Except.ok.inj hpairs
        rw [List.map_cons, List.map_cons, hnew, hcommit tail hrest]
      · rw [List.map_cons, List.map_cons, hold, hdiscard]

/-- All registries publish, or all drop what was staged. -/
theorem Publishes.rebuildAll_eq (h : Publishes t published dropped) (registries : List ρ) :
    rebuildAll t registries =
      match registries.mapM published with
      | .ok pairs => (pairs.map Prod.fst, .ok (pairs.map Prod.snd))
      | .error error => (registries.map dropped, .error error) := by
  obtain ⟨staged, hstaged, hcommit, hdiscard⟩ := h.stageAll_unlock registries
  rw [rebuildAll, hstaged]
  cases hpairs : registries.mapM published with
  | ok pairs =>
    show (staged.map Rebuildable.commit, Except.ok (pairs.map Prod.snd)) = _
    rw [hcommit pairs hpairs]
  | error error =>
    show (staged.map Rebuildable.discard, Except.error error) = _
    rw [hdiscard]

end Publishing

namespace Registry

variable {α : Type}

/-- What readers see of a registry: everything but staged contents. -/
def shown (r : Registry α) : Registry α := { r with staged := none }

/-- The registry that shows these contents. -/
def committed [Definition α] (r : Registry α) (contents : Build α) : Registry α :=
  { r with contents, fallback := Entry.fallback α, staged := none, built := true, locked := true }

/-- The registry is locked exactly when it was ever built. -/
def Settled (r : Registry α) : Prop := r.locked = r.built

variable {r : Registry α} {t : ContentTree}

/-- Dropping what was staged shows what was shown before. -/
theorem Settled.shown_discard (hr : r.Settled) : r.discard.shown = r.shown := by
  have hlocked : r.built = r.locked := hr.symm
  rw [discard, shown, shown, hlocked]

variable [Definition α]

/-- Staging and committing new contents shows them. -/
theorem rebuild_of_build_ok {contents : Build α} {report : RebuildReport}
    (h : r.build t = .ok (contents, report)) :
    r.rebuild t = (r.committed contents, .ok report) := by
  have hunlock : r.unlock.build t = .ok (contents, report) := h
  simp only [rebuild, stage, hunlock]
  rfl

/-- A failed rebuild drops what was staged. -/
theorem rebuild_of_build_error {error : ContentError} (h : r.build t = .error error) :
    r.rebuild t = (r.discard, .error error) := by
  have hunlock : r.unlock.build t = .error error := h
  simp only [rebuild, stage, hunlock]
  rfl

/-- The registry that shows its contents for a tree. -/
def published (t : ContentTree) (r : Registry α) :
    Except ContentError (Registry α × RebuildReport) :=
  (r.build t).map fun (contents, report) ↦ (r.committed contents, report)

/-- A registry stages what a commit publishes and a discard drops. -/
theorem publishes (t : ContentTree) : Publishes t (published t) (discard : Registry α → _) where
  stage_ok {r new report} h := by
    unfold published at h
    cases hbuild : r.build t with
    | error error => rw [hbuild] at h; cases h
    | ok pair =>
      have hunlock : r.unlock.build t = .ok pair := hbuild
      rw [hbuild] at h
      obtain ⟨rfl, rfl⟩ := Prod.mk.inj (Except.ok.inj h)
      refine ⟨{ r.unlock with staged := some pair.1 }, ?_, rfl, rfl⟩
      simp only [Rebuildable.stage, Rebuildable.unlock, stage, hunlock]
  stage_error {r error} h := by
    unfold published at h
    cases hbuild : r.build t with
    | ok pair => rw [hbuild] at h; cases h
    | error other =>
      have hunlock : r.unlock.build t = .error other := hbuild
      rw [hbuild] at h
      obtain rfl := Except.error.inj h
      simp only [Rebuildable.stage, Rebuildable.unlock, stage, hunlock]
  discard_unlock _ := rfl

end Registry

namespace AnyRegistry

/-- The contents that a registry builds for a tree. -/
def build (r : AnyRegistry) (t : ContentTree) :
    Except ContentError (Build r.α × RebuildReport) :=
  r.registry.build t

/-- Stages and commits, or leaves the contents as they were. -/
def rebuild (r : AnyRegistry) (t : ContentTree) :
    AnyRegistry × Except ContentError RebuildReport :=
  let (rebuilt, outcome) := r.registry.rebuild t
  ({ r with registry := rebuilt }, outcome)

/-- What readers see of a registry: everything but staged contents. -/
def shown (r : AnyRegistry) : AnyRegistry := { r with registry := r.registry.shown }

/-- Drops staged contents and locks the registry. -/
def discard (r : AnyRegistry) : AnyRegistry := { r with registry := r.registry.discard }

/-- The registry that shows these contents. -/
def committed (r : AnyRegistry) (contents : Build r.α) : AnyRegistry :=
  { r with registry := r.registry.committed contents }

/-- The registry that shows its contents for a tree. -/
def published (t : ContentTree) (r : AnyRegistry) :
    Except ContentError (AnyRegistry × RebuildReport) :=
  (r.build t).map fun (contents, report) ↦ (r.committed contents, report)

variable {r new : AnyRegistry} {t : ContentTree} {report : RebuildReport}

/-- What is published is a build that was committed. -/
theorem published_eq_ok_iff : r.published t = .ok (new, report) ↔
    ∃ contents, r.build t = .ok (contents, report) ∧ new = r.committed contents := by
  unfold published
  cases r.build t with
  | error error => simp [Except.map]
  | ok pair =>
    obtain ⟨contents, found⟩ := pair
    simp only [Except.map, Except.ok.injEq, Prod.mk.injEq]
    constructor
    · rintro ⟨rfl, rfl⟩
      exact ⟨contents, ⟨rfl, rfl⟩, rfl⟩
    · rintro ⟨_, ⟨rfl, rfl⟩, rfl⟩
      exact ⟨rfl, rfl⟩

theorem build_of_published_error {error : ContentError} (h : r.published t = .error error) :
    r.build t = .error error := by
  unfold published at h
  cases hbuild : r.build t with
  | error other => rw [hbuild] at h; simpa [Except.map] using h
  | ok pair => rw [hbuild] at h; cases h

/-- What is published is decided by what is shown. -/
@[simp] theorem published_shown (r : AnyRegistry) (t : ContentTree) :
    r.shown.published t = r.published t := rfl

/-- A rebuild publishes or discards. -/
theorem rebuild_eq (r : AnyRegistry) (t : ContentTree) : r.rebuild t =
    match r.published t with
    | .ok (new, report) => (new, .ok report)
    | .error error => (r.discard, .error error) := by
  cases hpublished : r.published t with
  | ok pair =>
    obtain ⟨contents, hbuild, hnew⟩ := published_eq_ok_iff.1 hpublished
    have hrebuild := Registry.rebuild_of_build_ok (r := r.registry) hbuild
    simp only [rebuild, hrebuild, hnew]
    rfl
  | error error =>
    have hbuild := build_of_published_error hpublished
    have hrebuild := Registry.rebuild_of_build_error (r := r.registry) hbuild
    simp only [rebuild, hrebuild]
    rfl

/-! ### Several registries -/

/-- So do registries of any type. -/
theorem publishes (t : ContentTree) : Publishes t (published t) discard where
  stage_ok {r new report} h := by
    obtain ⟨contents, hbuild, rfl⟩ := published_eq_ok_iff.1 h
    have hunlock : r.registry.unlock.build t = .ok (contents, report) := hbuild
    refine ⟨{ r with registry := { r.registry.unlock with staged := some contents } }, ?_, rfl, rfl⟩
    simp only [Rebuildable.stage, Rebuildable.unlock, Registry.stage, hunlock]
  stage_error {r error} h := by
    have hunlock : r.registry.unlock.build t = .error error := build_of_published_error h
    simp only [Rebuildable.stage, Rebuildable.unlock, Registry.stage, hunlock]
  discard_unlock _ := rfl

end AnyRegistry

open AnyRegistry

/-- All registries publish, or all discard. -/
theorem rebuildAll_eq (t : ContentTree) (registries : List AnyRegistry) :
    rebuildAll t registries =
      match registries.mapM (published t) with
      | .ok pairs => (pairs.map Prod.fst, .ok (pairs.map Prod.snd))
      | .error error => (registries.map discard, .error error) := by
  rw [(publishes t).rebuildAll_eq]
  cases registries.mapM (published t) <;> rfl

/-- A reload that cannot load does nothing; one that loads publishes in all registries and keeps
the tree, or discards in all and keeps the store. -/
theorem ContentStore.reload_eq (s : ContentStore) (handle : String) (packages : List Package)
    (registries : List AnyRegistry) :
    s.reload handle packages registries =
      match load packages with
      | .error error => (s, registries, .error error)
      | .ok loaded =>
        match registries.mapM (published loaded.tree) with
        | .error error => (s, registries.map discard, .error error)
        | .ok pairs =>
          (s.register handle loaded.tree, pairs.map Prod.fst,
            .ok ⟨loaded.stats, loaded.diagnostics, pairs.map Prod.snd⟩) := by
  simp only [reload, rebuildAll_eq]
  cases load packages with
  | error error => rfl
  | ok loaded =>
    dsimp only
    cases registries.mapM (published loaded.tree) with
    | error error => rfl
    | ok pairs => rfl

end ModContent
