import ModContent.Proofs.Command.Check
import ModContent.Proofs.Command.Seeded
import ModContent.Proofs.Json.IdFile
import ModContent.Proofs.Project.Files

/-!
# Ids that are kept between runs

Each run of `ids` is a new program: it reads the id file, rebuilds new registries with the ids of
the file, and writes the new ids back. Its effect is a function of the disk (`idsOn`). Here such
runs are compared with registries that stay in memory and are rebuilt in turn
(`ids_runs_keep_session_tables`). Between two runs the project may change in any way but for its
manifest and the id file (`IdsCall.History`).

One run keeps it true that the registries in memory have the ids of the file (`readFrom_run`). This
rests on two facts: registries with the same ids are rebuilt alike, and a file that was written is
read back, which is asked of the format. A run that cannot load the project, or has no place to
write the file, is no rebuild. Where the device breaks off the write of a run, the first of the
bytes have taken the place of the old file (`IdsCall.BreaksOff`), and the ids are lost
(`failed_writes_lose_ids`).
-/

namespace ModContent

open Console

namespace Command

/-- What is said of a rebuild does not touch the disk. -/
theorem reads_reportRebuild (reports : List RebuildReport) :
    Reads (reportRebuild reports) fun _ ↦ .ok () := by
  refine (Reads.forIn (fun report ↦ ?_) reports).after ((Reads.forIn (fun finding ↦ ?_) _).after ?_)
  · exact (Reads.status _ _).after (.ok (ForInStep.yield PUnit.unit))
  · exact (Reads.tell _).after (.ok (ForInStep.yield PUnit.unit))
  · exact .ok ()

/-! ### What a run comes to -/

variable [Format IdFile]

/-- The ids that are kept, if there is a file for them. -/
def keptOn (idsPath : Option String) (d : Disk) : Except ContentError IdFile :=
  match idsPath with
  | some path => IdFile.readFrom d path
  | none => .ok IdFile.empty

/-- Writes an id file, if there is a place for it and the run is no dry one. -/
def keepOn (idsPath : Option String) (dryRun : Bool) (f : IdFile) :
    Disk → Disk × Except ContentError Unit :=
  match idsPath, dryRun with
  | some path, false => (f.writeTo · path)
  | _, _ => unchanged

/-- A dry run does not write, whether or not there is a place for the file. -/
theorem keepOn_dryRun (idsPath : Option String) (f : IdFile) :
    keepOn idsPath true f = unchanged := by
  cases idsPath <;> rfl

theorem careful_keepOn (idsPath : Option String) (dryRun : Bool) (f : IdFile) :
    Careful (keepOn idsPath dryRun f) := by
  cases idsPath with
  | none => exact .unchanged
  | some path =>
    cases dryRun with
    | true => exact .unchanged
    | false => exact .writeTo f path

variable [Format Manifest]

/-- The disk after a run of `ids`, and how it ends. -/
def idsOn (d : Disk) (path : String) (categories : List String) (idsFile : Option String)
    (dryRun : Bool) : Disk × Except ContentError Unit :=
  decided (projectOn · path) (fun project ↦
    let idsPath := idsFile <|> project.layout.idsPath
    decided (keptOn idsPath) fun kept ↦
      let rebuilt := rebuildAll project.loaded.tree
        (categories.map (seededRegistry kept project.layout.manifest.slotPolicy))
      decided (fun _ ↦ rebuilt.2) fun _ ↦ keepOn idsPath dryRun (keepIds kept rebuilt.1)) d

/-- The command is a function of the disk. -/
theorem writes_ids (path : String) (categories : List String) (idsFile : Option String)
    (dryRun : Bool) :
    Writes (ids path categories idsFile dryRun) (idsOn · path categories idsFile dryRun) := by
  refine Writes.bind (reads_loadProject path) fun _ project _ ↦ ?_
  dsimp only
  generalize (idsFile <|> project.layout.idsPath) = idsPath
  have hlines : ∀ registries : List (Registry Record), Reads (forIn registries PUnit.unit
      fun r _ ↦ do
      print (String.join (r.snapshot.entries.map (idLine r.category)))
      pure (ForInStep.yield PUnit.unit)) fun _ ↦ .ok PUnit.unit :=
    Reads.forIn fun r ↦ (Reads.print _).after (.ok (ForInStep.yield PUnit.unit))
  cases idsPath with
  | none =>
    refine Writes.bind (.ok IdFile.empty) fun _ kept _ ↦ Writes.bind (.ofExcept _) fun _ reports _ ↦
      Writes.after (reads_reportRebuild reports) (Writes.after (hlines _) ?_)
    cases dryRun with
    | true => exact .of_reads (.status _ _)
    | false => exact .of_reads (.status _ _)
  | some place =>
    refine Writes.bind (.reading _) fun _ kept _ ↦ Writes.bind (.ofExcept _) fun _ reports _ ↦
      Writes.after (reads_reportRebuild reports) (Writes.after (hlines _) ?_)
    cases dryRun with
    | true => exact .of_reads (.status _ _)
    | false => exact (Writes.writing _).before (.status _ _)

/-- A dry run writes nothing. -/
theorem idsOn_dryRun (d : Disk) (path : String) (categories : List String)
    (idsFile : Option String) : (idsOn d path categories idsFile true).1 = d := by
  refine fst_decided fun project ↦ fst_decided fun kept ↦ fst_decided fun _ ↦ ?_
  rw [keepOn_dryRun, unchanged]

/-- A run that fails leaves the disk alone, unless the device breaks off its write. -/
theorem careful_idsOn (path : String) (categories : List String) (idsFile : Option String)
    (dryRun : Bool) : Careful (idsOn · path categories idsFile dryRun) := by
  exact .decided fun project ↦ .decided fun kept ↦ .decided fun _ ↦ careful_keepOn _ _ _

end Command

open Command

/-! ### Runs one after the other -/

/-- Calls of `ids` on projects with one manifest, which keep the ids in one file. -/
structure IdsCall where
  path : String
  categories : List String
  idsFile : Option String
  manifest : Manifest
  file : String
  keeps : (idsFile <|> manifest.idsFile.map (Path.join path)) = some file

/-- The disk that a run finds, and whether it is a dry run. -/
structure IdsRun where
  start : Disk
  dryRun : Bool

namespace IdsCall

section

variable [Format Manifest] [Format IdFile] {s : IdsCall} {d : Disk} {kept : IdFile} {dryRun : Bool}
  {registries : List (Registry Record)}

/-- The disk after a run, and how the run ended. -/
def run (s : IdsCall) (run : IdsRun) : Disk × Except ContentError Unit :=
  let (console, outcome) := runOn run.start (.ids s.path s.categories s.idsFile run.dryRun)
  (console.disk, outcome)

/-- A run that fails because the device breaks off its write. -/
def BreaksOff (s : IdsCall) (run : IdsRun) : Prop := ∃ file text report,
  run.start.BrokenOff file text report (s.run run).1 ∧ (s.run run).2 = .error (.io file report)

/-- A project that is found on the disk has the manifest. -/
def Fits (s : IdsCall) (d : Disk) : Prop :=
  ∀ layout, discover d s.path = .ok layout → layout.manifest = s.manifest

/-- New registries with the ids of a file. -/
def seeded (s : IdsCall) (kept : IdFile) : List (Registry Record) :=
  s.categories.map (seededRegistry kept s.manifest.slotPolicy)

/-- The tree that a run keeps ids for. There is none if the project does not load, if there is no
place for the id file, and in a dry run. -/
def content? (s : IdsCall) (run : IdsRun) : Option ContentTree :=
  if run.dryRun then none
  else
    match projectOn run.start s.path with
    | .ok project => if (run.start.target s.file).isOk then some project.loaded.tree else none
    | .error _ => none

/-- Registries after a rebuild for the tree of a run. -/
def follow (s : IdsCall) (registries : List (Registry Record)) (run : IdsRun) :
    List (Registry Record) :=
  match s.content? run with
  | some t => (rebuildAll t registries).1
  | none => registries

/-- Registries that start with the ids of a file and go through all rebuilds. -/
def session (s : IdsCall) (kept : IdFile) (runs : List IdsRun) : List (Registry Record) :=
  runs.foldl s.follow (s.seeded kept)

/-- Runs one after the other, none of them with a write that is broken off. Between two of them all
may change but the manifest and the id file. -/
inductive History (s : IdsCall) : Disk → List IdsRun → Disk → Prop
  | none (d : Disk) : s.History d [] d
  | run {d last : Disk} {run : IdsRun} {runs : List IdsRun} (fits : s.Fits run.start)
    (same : IdFile.readFrom run.start s.file = IdFile.readFrom d s.file)
    (whole : ¬ s.BreaksOff run)
    (rest : s.History (s.run run).1 runs last) : s.History d (run :: runs) last

/-- A run is the function of the disk that it finds. -/
theorem run_eq (s : IdsCall) (run : IdsRun) :
    s.run run = idsOn run.start s.path s.categories s.idsFile run.dryRun :=
  let ⟨houtcome, hdisk⟩ :=
    runOn_of_writes (.ids ..) (writes_ids s.path s.categories s.idsFile run.dryRun) run.start
  Prod.ext hdisk houtcome

/-- For a project with the manifest of the calls the id file is known, and so is the rebuild. What
the file has decides whether anything is written. -/
theorem idsOn_eq (hfits : s.Fits d) (hkept : IdFile.readFrom d s.file = .ok kept) (dryRun : Bool) :
    idsOn d s.path s.categories s.idsFile dryRun = decided (projectOn · s.path) (fun project ↦
      let rebuilt := rebuildAll project.loaded.tree (s.seeded kept)
      decided (fun _ ↦ rebuilt.2) fun _ ↦
        keepOn (some s.file) dryRun (keepIds kept rebuilt.1)) d := by
  rw [idsOn]
  cases hproject : projectOn d s.path with
  | error error => rw [decided_error hproject, decided_error hproject]
  | ok project =>
    have hdiscover := discover_of_projectOn hproject
    have hpath : (s.idsFile <|> project.layout.idsPath) = some s.file := by
      rw [Layout.idsPath, hfits _ hdiscover, root_of_discover hdiscover]
      exact s.keeps
    refine (decided_ok hproject).trans (Eq.trans ?_ (decided_ok hproject).symm)
    dsimp only
    rw [hpath, hfits _ hdiscover]
    exact decided_ok hkept

/-- A run leaves the disk alone if there is nothing that it keeps ids for, or else if the rebuild
fails; otherwise it writes the ids of the rebuild, and its write may be broken off. -/
theorem run_cases {run : IdsRun} (hfits : s.Fits run.start)
    (hkept : IdFile.readFrom run.start s.file = .ok kept) :
    s.content? run = none ∧ (s.run run).1 = run.start ∨
      ∃ t, s.content? run = some t ∧
        ((∃ error, (rebuildAll t (s.seeded kept)).2 = .error error ∧
            (s.run run).1 = run.start) ∨
          ∃ reports, (rebuildAll t (s.seeded kept)).2 = .ok reports ∧
            (run.start.writeText s.file (keepIds kept (rebuildAll t (s.seeded kept)).1).text =
              .ok (s.run run).1 ∨ s.BreaksOff run)) := by
  have hrun := (s.run_eq run).trans (idsOn_eq hfits hkept run.dryRun)
  cases hproject : projectOn run.start s.path with
  | error error =>
    rw [decided_error hproject] at hrun
    exact .inl ⟨by rw [content?, hproject, ite_self], congrArg Prod.fst hrun⟩
  | ok project =>
    rw [decided_ok hproject] at hrun
    set rebuilt := rebuildAll project.loaded.tree (s.seeded kept) with hrebuilt
    cases hdry : run.dryRun with
    | true =>
      refine .inl ⟨by rw [content?, hdry]; rfl, ?_⟩
      rw [hdry] at hrun
      rw [hrun]
      exact fst_decided fun _ ↦ rfl
    | false =>
      rw [hdry] at hrun
      have hcontent : s.content? run =
          if (run.start.target s.file).isOk then some project.loaded.tree else none := by
        rw [content?, hdry, hproject]
        rfl
      cases htarget : run.start.target s.file with
      | error error =>
        rw [htarget] at hcontent
        refine .inl ⟨hcontent, hrun ▸ fst_decided fun _ ↦ ?_⟩
        show ((keepIds kept rebuilt.1).writeTo run.start s.file).1 = run.start
        rw [IdFile.writeTo, Disk.save, htarget]
      | ok place =>
        rw [htarget] at hcontent
        refine .inr ⟨_, hcontent, ?_⟩
        cases houtcome : rebuilt.2 with
        | error error => exact .inl ⟨error, rfl, by rw [hrun, decided_error houtcome]⟩
        | ok reports =>
          replace hrun : s.run run = (keepIds kept rebuilt.1).writeTo run.start s.file :=
            hrun.trans (decided_ok houtcome)
          refine .inr ⟨reports, rfl, ?_⟩
          obtain ⟨_, hnone, -⟩ | ⟨d, hwrite, hwritten⟩ | ⟨report, d, hbroken, hwritten⟩ :=
            (keepIds kept rebuilt.1).writeTo_cases run.start s.file
          · cases hnone.symm.trans htarget
          · exact .inl (by rw [hrun, hwritten, hwrite])
          · exact .inr ⟨s.file, _, report, by rw [hrun, hwritten]; exact ⟨hbroken, rfl⟩⟩

/-- **One run.** When the registries have the ids of the file, they have those of the file after the
run once they were rebuilt for the tree of the run. Other categories keep their tables. -/
theorem readFrom_run (hformat : ∀ f : IdFile, f.ReadsBack) {run : IdsRun}
    (hfits : s.Fits run.start) (hwhole : ¬ s.BreaksOff run)
    (hkept : IdFile.readFrom run.start s.file = .ok kept)
    (hholds : Holds kept s.manifest.slotPolicy s.categories registries) :
    ∃ file, IdFile.readFrom (s.run run).1 s.file = .ok file ∧
      (∀ c ∉ s.categories, file.get? c = kept.get? c) ∧
      Holds file s.manifest.slotPolicy s.categories (s.follow registries run) := by
  obtain ⟨hnone, hdisk⟩ | ⟨t, hsome, ⟨error, herror, hdisk⟩ | ⟨reports, hok, hwritten⟩⟩ :=
    run_cases hfits hkept
  · refine ⟨kept, hdisk ▸ hkept, fun _ _ ↦ rfl, ?_⟩
    rw [follow, hnone]
    exact hholds
  · refine ⟨kept, hdisk ▸ hkept, fun _ _ ↦ rfl, ?_⟩
    rw [follow, hsome]
    exact hholds.rebuildAll_error ((hholds.outcome_rebuildAll t).trans herror)
  · obtain ⟨hsame, hcategories, hfile⟩ :=
      hholds.rebuildAll_ok ((hholds.outcome_rebuildAll t).trans hok)
    refine ⟨keepIds kept (rebuildAll t (s.seeded kept)).1, ?_, fun c hc ↦ ?_, ?_⟩
    · exact IdFile.readFrom_of_writeText (hformat _) (hwritten.resolve_right hwhole)
    · refine get?_keepIds_of_not_mem kept ?_
      rwa [← hcategories, hsame] at hc
    · rw [follow, hsome]
      show Holds _ _ _ (rebuildAll t registries).1
      rw [hsame] at hfile ⊢
      exact hfile

/-- What holds after a history, from any registries that have the ids of the file at its start. -/
theorem History.readFrom (hformat : ∀ f : IdFile, f.ReadsBack) {first last : Disk}
    {runs : List IdsRun} (h : s.History first runs last)
    (hkept : IdFile.readFrom first s.file = .ok kept)
    (hholds : Holds kept s.manifest.slotPolicy s.categories registries) :
    ∃ file, IdFile.readFrom last s.file = .ok file ∧
      (∀ c ∉ s.categories, file.get? c = kept.get? c) ∧
      Holds file s.manifest.slotPolicy s.categories (runs.foldl s.follow registries) := by
  induction h generalizing kept registries with
  | none d => exact ⟨kept, hkept, fun _ _ ↦ rfl, hholds⟩
  | run fits same whole rest ih =>
    obtain ⟨next, hnext, hother, hfollow⟩ :=
      readFrom_run hformat fits whole (same.trans hkept) hholds
    obtain ⟨file, hfile, hrest, hlast⟩ := ih hnext hfollow
    exact ⟨file, hfile, fun c hc ↦ (hrest c hc).trans (hother c hc), hlast⟩

end

end IdsCall

/-- Calls that ask for units twice and for items. -/
def unitCall : IdsCall where
  path := "/"
  categories := ["unit", "item", "unit"]
  idsFile := some "/ids.json"
  manifest := Manifest.standard
  file := "/ids.json"
  keeps := rfl

/-- The project has no manifest, so it has the standard one. -/
theorem fits_unitDisk : unitCall.Fits unitDisk := by
  intro layout h
  have hmissing : unitDisk.exists? (Path.join "/" Manifest.fileName) = false := by decide
  rw [discover] at h
  split at h
  · next hthere => exact absurd (hmissing.symm.trans hthere) (by decide)
  · obtain rfl := Except.ok.inj h
    rfl

/-- Calls that keep the ids in a directory of their own. -/
def keptCall : IdsCall where
  path := "/"
  categories := ["unit"]
  idsFile := some "/kept/ids.json"
  manifest := Manifest.standard
  file := "/kept/ids.json"
  keeps := rfl

/-- The project with a directory for the ids, but without archers. -/
def laterDisk : Disk where
  entries :=
    [(["units.txt", "Defines", "core", "Mods"], .file "unit:cavalry{}\n".toUTF8),
      (["Defines", "core", "Mods"], .directory), (["core", "Mods"], .directory),
      (["Mods"], .directory), (["kept"], .directory)]
  here := []

/-- The project with an id file on a device that is full. -/
def fullDisk : Disk where
  entries := (["ids.json"], .file "{}".toUTF8) :: unitDisk.entries
  here := []
  fault? _ _ := some ⟨0, "No space left on device (os error 28)"⟩

end ModContent
