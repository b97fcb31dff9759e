import ModContent.Proofs.Registry.Calls
import ModContent.Proofs.Registry.Run

/-!
# Staged contents

Contents that are staged wait for the next commit. What waits after some calls is told by the calls
(`staged_run_iff`): the contents that the latest successful stage call built, unless a later call
published or dropped them. So a commit publishes what the latest stage call built, if that call
succeeded.

A stage call that fails leaves the registry as it was, and this is more than to publish nothing of
its own: contents that an earlier stage call left waiting go on waiting, and the next commit
publishes them (`failed_stage_keeps_waiting`). Only where nothing waits does a commit after a failed
stage call leave the contents as they were.
-/

namespace ModContent

namespace Registry

variable {α : Type} [Definition α] {r : Registry α}

namespace Call

/-- The contents that the call stages. -/
def staged? (r : Registry α) : Call → Option (Build α)
  | stage t => (r.build t).toOption.map Prod.fst
  | _ => none

/-- The call publishes or drops what is staged. -/
def closes : Call → Bool
  | commit | discard | rebuild _ => true
  | _ => false

/-- The call neither stages contents nor publishes or drops them. -/
def isQuiet : Call → Bool
  | withIds _ | withPolicy _ | unlock => true
  | _ => false

/-- A call stages new contents over the old, or publishes or drops the old, or keeps them. -/
theorem staged_apply (r : Registry α) (call : Call) :
    (call.apply r).staged = if call.closes then none else (call.staged? r).or r.staged := by
  cases call with
  | withIds table => rfl
  | withPolicy policy => rfl
  | unlock => rfl
  | discard => rfl
  | stage t =>
    rw [apply, Registry.stage, staged?]
    cases r.build t with
    | error error => rfl
    | ok pair => rfl
  | commit =>
    rw [apply, Registry.commit]
    cases r.staged with
    | none => rfl
    | some contents => rfl
  | rebuild t =>
    rw [apply]
    cases hbuild : r.build t with
    | error error => rw [rebuild_of_build_error hbuild]; rfl
    | ok pair => rw [rebuild_of_build_ok hbuild]; rfl

theorem staged?_eq_none_of_closes {call : Call} (h : call.closes = true) :
    call.staged? r = none := by
  cases call with
  | commit | discard | rebuild _ => rfl
  | withIds _ | withPolicy _ | unlock | stage _ => cases h

/-- A quiet call neither closes a stage nor makes one. -/
theorem of_isQuiet {call : Call} (h : call.isQuiet = true) :
    call.closes = false ∧ call.staged? r = none := by
  cases call with
  | withIds _ | withPolicy _ | unlock => exact ⟨rfl, rfl⟩
  | stage _ | commit | discard | rebuild _ => cases h

end Call

/-! ### What waits -/

/-- The contents were built by a stage call after which no other succeeded, and no call has
published or dropped them since. -/
def Waits (r : Registry α) (calls : List Call) (contents : Build α) : Prop :=
  ∃ before t report after, calls = before ++ .stage t :: after ∧
    (r.run before).build t = .ok (contents, report) ∧
    ∀ earlier call later, after = earlier ++ call :: later →
      call.closes = false ∧ call.staged? (r.run (before ++ .stage t :: earlier)) = none

/-- Contents wait after a call that stages them, or after one that leaves them waiting. -/
theorem waits_concat (r : Registry α) (calls : List Call) (call : Call) (contents : Build α) :
    r.Waits (calls ++ [call]) contents ↔
      call.staged? (r.run calls) = some contents ∨
        (call.closes = false ∧ call.staged? (r.run calls) = none) ∧ r.Waits calls contents := by
  constructor
  · rintro ⟨before, t, report, after, heq, hbuild, hafter⟩
    rcases List.eq_nil_or_concat after with rfl | ⟨after, last, rfl⟩
    · obtain ⟨rfl, hlast⟩ := List.append_inj' heq rfl
      obtain rfl := List.singleton_inj.1 hlast
      exact .inl (by rw [Call.staged?, hbuild]; rfl)
    · rw [List.concat_eq_append, ← List.cons_append, ← List.append_assoc] at heq
      obtain ⟨rfl, hlast⟩ := List.append_inj' heq rfl
      obtain rfl := List.singleton_inj.1 hlast
      refine .inr ⟨hafter after call [] (by simp), before, t, report, after, rfl, hbuild, ?_⟩
      rintro earlier other later rfl
      exact hafter earlier other (later ++ [call]) (by simp)
  · rintro (hstaged | ⟨hkeeps, before, t, report, after, rfl, hbuild, hafter⟩)
    · cases call with
      | stage t =>
        obtain ⟨⟨built, report⟩, hbuild, rfl⟩ := Option.map_eq_some_iff.1 hstaged
        refine ⟨calls, t, report, [], rfl, ?_, by simp⟩
        cases hresult : (r.run calls).build t with
        | error error => rw [hresult] at hbuild; cases hbuild
        | ok pair => rw [hresult] at hbuild; exact congrArg _ (Option.some.inj hbuild)
      | withIds _ | withPolicy _ | unlock | commit | discard | rebuild _ => cases hstaged
    · refine ⟨before, t, report, after ++ [call], by simp, hbuild, fun earlier other later heq ↦ ?_⟩
      rcases List.eq_nil_or_concat later with rfl | ⟨later, last, rfl⟩
      · obtain ⟨rfl, hlast⟩ := List.append_inj' heq rfl
        obtain rfl := List.singleton_inj.1 hlast
        exact hkeeps
      · rw [List.concat_eq_append, ← List.cons_append, ← List.append_assoc] at heq
        exact hafter earlier other later (List.append_inj' heq rfl).1

/-- **What is staged after some calls** is what waits. -/
theorem staged_run_iff (hr : r.staged = none) (calls : List Call) (contents : Build α) :
    (r.run calls).staged = some contents ↔ r.Waits calls contents := by
  induction calls using List.reverseRecOn with
  | nil =>
    refine ⟨fun h ↦ ?_, ?_⟩
    · rw [run, List.foldl_nil, hr] at h
      cases h
    · rintro ⟨before, t, report, after, heq, -⟩
      simp at heq
  | append_singleton calls call ih =>
    rw [run_concat, Call.staged_apply, waits_concat, ← ih]
    cases hcloses : call.closes with
    | true => simp [Call.staged?_eq_none_of_closes hcloses]
    | false => simp [Option.or_eq_some_iff]

/-- Quiet calls leave what waits. -/
theorem waits_append_of_isQuiet {calls after : List Call}
    (hafter : ∀ call ∈ after, call.isQuiet = true) (contents : Build α) :
    r.Waits (calls ++ after) contents ↔ r.Waits calls contents := by
  induction after using List.reverseRecOn with
  | nil => rw [List.append_nil]
  | append_singleton after call ih =>
    rw [List.forall_mem_append, List.forall_mem_singleton] at hafter
    obtain ⟨hcloses, hnone⟩ := Call.of_isQuiet (r := r.run (calls ++ after)) hafter.2
    rw [← List.append_assoc, waits_concat, hnone, ih hafter.1]
    simp [hcloses]

/-! ### Commits -/

/-- A stage that waits is committed. -/
theorem commit_of_staged {contents : Build α} (h : r.staged = some contents) :
    r.commit = r.committed contents := by
  rw [commit, h, committed]

/-- Without a stage a commit changes no contents. -/
theorem contents_commit_of_staged (h : r.staged = none) : r.commit.contents = r.contents := by
  rw [commit, h]

/-- A stage call that fails leaves the registry as it was. -/
theorem run_of_failed_stage {before : List Call} {t : ContentTree} {error : ContentError}
    (h : (r.run before).build t = .error error) (after : List Call) :
    r.run (before ++ .stage t :: after) = r.run (before ++ after) := by
  have hstage : Call.apply (r.run before) (.stage t) = r.run before := by
    rw [Call.apply, stage, h]
  rw [run, List.foldl_append, List.foldl_cons]
  show after.foldl Call.apply (Call.apply (r.run before) (.stage t)) = _
  rw [hstage, run, run, List.foldl_append]

end Registry

open Registry

/-- **What a commit publishes** after calls of which one stage call is the latest, with no commit,
discard or rebuild behind it. If that call succeeded, its contents are published. If it failed, it
is as if it had not been made: the commit publishes what waited before the call, and leaves the
contents as they were if nothing waited. -/
theorem commit_publishes_latest_staged (α : Type) [Definition α] (category : String)
    (policy : SlotPolicy) (before after : List Call) (t : ContentTree)
    (hlatest : ∀ call ∈ after, call.isQuiet = true) :
    let start : Registry α := new category policy
    let r := start.run (before ++ .stage t :: after)
    (∀ contents report, (start.run before).build t = .ok (contents, report) →
      r.commit = r.committed contents) ∧
    ∀ error, (start.run before).build t = .error error →
      r = start.run (before ++ after) ∧
      (∀ contents, start.Waits before contents → r.commit = r.committed contents) ∧
      ((∀ contents, ¬ start.Waits before contents) → r.commit.contents = r.contents) := by
  intro start r
  have hstart : start.staged = none := rfl
  refine ⟨fun contents report hbuild ↦ ?_, fun error hbuild ↦ ?_⟩
  · refine commit_of_staged ((staged_run_iff hstart _ contents).2 ?_)
    refine ⟨before, t, report, after, rfl, hbuild, ?_⟩
    rintro earlier call later rfl
    exact Call.of_isQuiet (hlatest call (by simp))
  · have hsame : r = start.run (before ++ after) := run_of_failed_stage hbuild after
    refine ⟨hsame, fun contents hwaits ↦ ?_, fun hnone ↦ contents_commit_of_staged ?_⟩
    · refine commit_of_staged (hsame ▸ (staged_run_iff hstart _ contents).2 ?_)
      exact (waits_append_of_isQuiet hlatest contents).2 hwaits
    · rw [hsame]
      refine Option.eq_none_iff_forall_ne_some.2 fun contents hstaged ↦ hnone contents ?_
      exact (waits_append_of_isQuiet hlatest contents).1 ((staged_run_iff hstart _ contents).1 hstaged)

/-- Two units are published, and then another one is staged in their place. -/
def stagedOver : List Call :=
  [.unlock, .stage (unitTree ["infantry", "armour"]), .commit, .unlock,
    .stage (unitTree ["cavalry"])]

/-- A unit that the table still knows is staged over another. -/
theorem commit_publishes_latest_staged_of_units :
    let start : Registry Record := new "unit" .failFast
    let r := start.run (stagedOver ++ .stage (unitTree ["armour"]) :: [Call.unlock])
    (∀ call ∈ [Call.unlock], call.isQuiet = true) ∧
      r.commit.snapshot = ⟨[none, some "armour"]⟩ := by
  intro start r
  have hquiet : ∀ call ∈ [Call.unlock], call.isQuiet = true := by decide
  obtain ⟨hok, -⟩ := commit_publishes_latest_staged Record "unit" .failFast
    stagedOver [.unlock] (unitTree ["armour"]) hquiet
  refine ⟨hquiet, ?_⟩
  rw [hok _ _ rfl]
  rfl

/-- The latest stage call failed, for three units have no room in a table of two ids. Yet the commit
changes the table, the entries and the index of names: it publishes what was staged before. -/
theorem failed_stage_keeps_waiting :
    let start : Registry Record := new "unit" .failFast
    let full := unitTree ["infantry", "armour", "cavalry"]
    let r := start.run (stagedOver ++ [.stage full])
    (start.run stagedOver).build full = .error (.slotUnderflow "unit" 1 0) ∧
      r.snapshot = ⟨[some "infantry", some "armour"]⟩ ∧
      r.commit.snapshot = ⟨[some "cavalry", none]⟩ ∧
      r.commit.contents.entries ≠ r.contents.entries ∧ r.commit.contents.ids ≠ r.contents.ids := by
  decide

end ModContent
