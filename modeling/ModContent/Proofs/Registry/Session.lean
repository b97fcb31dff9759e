import ModContent.Proofs.Registry.Together
import ModContent.Registry.Record

/-!
# Sessions of reloads

A session is a store with the registries that are rebuilt at every reload. What readers see of it
(`Session.shown`) leaves out contents that were staged and never committed. Two facts carry the
section: a reload depends on what is shown only (`reload_congr`), and a failed one leaves what is
shown as it was (`shown_reload_of_error`), provided each registry is locked exactly when it was ever
built; every reload leaves the registries so.
-/

namespace ModContent

open AnyRegistry

/-- A reload of packages under a handle. -/
structure ReloadCall where
  handle : String
  packages : List Package

structure Session where
  store : ContentStore
  registries : List AnyRegistry

namespace Session

/-- What readers see of the session. -/
def shown (s : Session) : Session := ⟨s.store, s.registries.map AnyRegistry.shown⟩

def reload (s : Session) (call : ReloadCall) : Session × Except ContentError ReloadReport :=
  let (store, registries, outcome) := s.store.reload call.handle call.packages s.registries
  (⟨store, registries⟩, outcome)

/-- The session after all calls. -/
def run (s : Session) (calls : List ReloadCall) : Session :=
  calls.foldl (fun s call ↦ (s.reload call).1) s

/-- The calls of a run that succeed. -/
def successes (s : Session) : List ReloadCall → List ReloadCall
  | [] => []
  | call :: rest =>
    let (next, outcome) := s.reload call
    if outcome.isOk then call :: next.successes rest else next.successes rest

/-- Each registry is locked exactly when it was ever built. -/
def Settled (s : Session) : Prop := ∀ r ∈ s.registries, r.registry.Settled

variable {s t : Session}

/-- What becomes of a session whose call loads. -/
theorem reload_eq (s : Session) (call : ReloadCall) :
    s.reload call =
      match load call.packages with
      | .error error => (s, .error error)
      | .ok loaded =>
        match s.registries.mapM (published loaded.tree) with
        | .error error => (⟨s.store, s.registries.map AnyRegistry.discard⟩, .error error)
        | .ok pairs =>
          (⟨s.store.register call.handle loaded.tree, pairs.map Prod.fst⟩,
            .ok ⟨loaded.stats, loaded.diagnostics, pairs.map Prod.snd⟩) := by
  rw [reload, ContentStore.reload_eq]
  cases load call.packages with
  | error error => rfl
  | ok loaded =>
    dsimp only
    cases s.registries.mapM (published loaded.tree) with
    | error error => rfl
    | ok pairs => rfl

@[simp] theorem shown_shown (s : Session) : s.shown.shown = s.shown := by
  simp only [shown, List.map_map, mk.injEq, true_and]
  rfl

/-- What is published does not depend on what is staged. -/
theorem mapM_published_shown (tree : ContentTree) (registries : List AnyRegistry) :
    (registries.map AnyRegistry.shown).mapM (published tree) =
      registries.mapM (published tree) := by
  induction registries with
  | nil => rfl
  | cons r rest ih => rw [List.map_cons, List.mapM_cons, List.mapM_cons, published_shown, ih]

/-- A reload of what is shown has the same outcome and shows the same. -/
theorem reload_shown (s : Session) (call : ReloadCall) :
    (s.shown.reload call).1.shown = (s.reload call).1.shown ∧
      (s.shown.reload call).2 = (s.reload call).2 := by
  rw [reload_eq, reload_eq]
  cases load call.packages with
  | error error => exact ⟨s.shown_shown, rfl⟩
  | ok loaded =>
    show _ ∧ _
    simp only [shown, mapM_published_shown]
    cases s.registries.mapM (published loaded.tree) with
    | error error =>
      refine ⟨?_, rfl⟩
      simp only [List.map_map]
      rfl
    | ok pairs => exact ⟨rfl, rfl⟩

/-- Sessions that show the same go on to show the same. -/
theorem reload_congr (h : s.shown = t.shown) (call : ReloadCall) :
    (s.reload call).1.shown = (t.reload call).1.shown ∧ (s.reload call).2 = (t.reload call).2 := by
  obtain ⟨hstate, houtcome⟩ := s.reload_shown call
  obtain ⟨hstate', houtcome'⟩ := t.reload_shown call
  exact ⟨by rw [← hstate, ← hstate', h], by rw [← houtcome, ← houtcome', h]⟩

/-- A failed reload leaves what is shown. -/
theorem shown_reload_of_error (hs : s.Settled) {call : ReloadCall}
    (h : (s.reload call).2.isOk = false) : (s.reload call).1.shown = s.shown := by
  rw [reload_eq] at h ⊢
  cases hload : load call.packages with
  | error error => rfl
  | ok loaded =>
    simp only [hload] at h ⊢
    cases hpairs : s.registries.mapM (published loaded.tree) with
    | ok pairs =>
      simp only [hpairs] at h
      cases h
    | error error =>
      simp only [shown, List.map_map, mk.injEq, true_and]
      refine List.map_congr_left fun r hr ↦ ?_
      show ({ r with registry := r.registry.discard.shown } : AnyRegistry) = r.shown
      rw [(hs r hr).shown_discard]
      rfl

/-- Every registry of a list that was published is locked and built. -/
theorem settled_of_mapM {tree : ContentTree} {registries : List AnyRegistry}
    {pairs : List (AnyRegistry × RebuildReport)}
    (h : registries.mapM (published tree) = .ok pairs) :
    ∀ r ∈ pairs.map Prod.fst, r.registry.Settled := by
  intro r hr
  obtain ⟨⟨new, report⟩, hmem, rfl⟩ := List.mem_map.1 hr
  obtain ⟨old, -, hpublished⟩ := exists_of_mem_mapM h hmem
  obtain ⟨contents, -, rfl⟩ := published_eq_ok_iff.1 hpublished
  exact rfl

/-- A reload leaves the registries settled. -/
theorem Settled.reload (hs : s.Settled) (call : ReloadCall) : (s.reload call).1.Settled := by
  rw [reload_eq]
  cases load call.packages with
  | error error => exact hs
  | ok loaded =>
    dsimp only
    cases hpairs : s.registries.mapM (published loaded.tree) with
    | error error =>
      intro r hr
      obtain ⟨old, -, rfl⟩ := List.mem_map.1 hr
      exact rfl
    | ok pairs => exact settled_of_mapM hpairs

/-- A run of the successful calls, from a session that shows the same, shows the same in the end. -/
theorem shown_run_successes (hs : s.Settled) (h : t.shown = s.shown) (calls : List ReloadCall) :
    (t.run (s.successes calls)).shown = (s.run calls).shown := by
  -- `t` has taken the successful calls only; that both show the same is kept by every call
  induction calls generalizing s t with
  | nil => exact h
  | cons call rest ih =>
    obtain ⟨hstate, houtcome⟩ := reload_congr h call
    cases hok : (s.reload call).2.isOk with
    | true =>
      simp only [successes, hok]
      exact ih (hs.reload call) hstate
    | false =>
      simp only [successes, hok]
      exact ih (hs.reload call) (h.trans (shown_reload_of_error hs hok).symm)

end Session

/-- **Failed reloads leave no trace.** Deleting the failing calls from a run ends in a session with
the same trees under the same handles and the same registries, up to contents that were staged and
never committed. -/
theorem failed_reloads_leave_no_trace (s : Session) (hs : s.Settled) (calls : List ReloadCall) :
    (s.run (s.successes calls)).shown = (s.run calls).shown :=
  Session.shown_run_successes hs rfl calls

/-- A package of one file. -/
def onePackage (lines : List String) : Package := ⟨"core", [⟨"units.def", lines⟩]⟩

/-- A reload that succeeds, one with a reference to nothing and one with an open block. -/
def unitCalls : List ReloadCall :=
  [⟨ContentStore.documentRoot, [onePackage ["unit:infantry { hp = 1; }"]]⟩,
    ⟨ContentStore.documentRoot, [onePackage ["unit:armour { hp = @nowhere; }"]]⟩,
    ⟨ContentStore.documentRoot, [onePackage ["unit:artillery \x7b hp = 1;"]]⟩]

/-- An empty store with a registry of units that holds nothing yet. -/
def unitSession : Session :=
  ⟨ContentStore.empty, [⟨(Registry.new "unit" .grow : Registry Record)⟩]⟩

/-- All three reloads against the one that succeeds. -/
theorem failed_reloads_leave_no_trace_of_units : unitSession.Settled ∧
    (unitSession.run (unitCalls.take 1)).shown = (unitSession.run unitCalls).shown := by
  have hsettled : unitSession.Settled := by
    intro r hr
    obtain rfl := List.mem_singleton.1 hr
    rfl
  have hsuccesses : unitSession.successes unitCalls = unitCalls.take 1 := rfl
  exact ⟨hsettled, hsuccesses ▸ failed_reloads_leave_no_trace unitSession hsettled unitCalls⟩

end ModContent
