import ModContent.Json.IdFile
import ModContent.Proofs.Command.Action
import ModContent.Proofs.Project.Files
import ModContent.Proofs.Project.Layout
import ModContent.Yaml.Manifest

/-!
# Manifests that are initialised

`init` writes a manifest that lists the packages it finds. Its effect is a function of the disk
(`initOn`): the manifest that is there, or else the standard one, is frozen and written back.

The packages found afterwards are the same as before (`init_freezes_discovery`), for two reasons:
the file that was written changes no layout, and a list of the packages that were found finds them
again. That the format gives back the manifest that is written is a condition there, and so is that
the device does not break off the write.
-/

namespace ModContent

open Console

namespace Manifest

variable [Format Manifest] {d : Disk} {path root : String} {m : Manifest}

theorem isFile_of_readFrom (h : readFrom d path = .ok m) : d.isFile path = true := by
  rw [readFrom] at h
  split at h
  · next hread => exact Disk.isFile_of_readText hread
  · cases h

/-- The manifest of the project at a root, or else the standard one. -/
def current (d : Disk) (root : String) : Except ContentError Manifest :=
  let path := Path.join root fileName
  if d.exists? path then readFrom d path else .ok standard

/-- The file of a manifest that is written was there before, or is no definition file. -/
theorem isFile_or_not_isDefinitionFile (h : current d root = .ok m) :
    d.isFile (Path.join root fileName) = true ∨
      (m.frozen d root).isDefinitionFile fileName = false := by
  rw [current] at h
  split at h
  · exact .inl (isFile_of_readFrom h)
  · obtain rfl := Except.ok.inj h
    exact .inr ((isDefinitionFile_frozen standard d root fileName).trans (by decide))

end Manifest

/-- The project is laid out by its manifest. -/
theorem exists_layout_of_current [Format Manifest] {d : Disk} {root : String} {m : Manifest}
    (h : Manifest.current d root = .ok m) : ∃ layout, discover d root = .ok layout ∧
      layout.manifest = m ∧ layout.packages = (Layout.ofManifest d root m).packages := by
  rw [Manifest.current] at h
  rw [discover]
  split at h
  · next hthere =>
    refine ⟨{ Layout.ofManifest d root m with hasManifest := true }, ?_, rfl, rfl⟩
    dsimp only
    rw [if_pos hthere, h]
    rfl
  · next hmissing =>
    obtain rfl := Except.ok.inj h
    exact ⟨_, if_neg hmissing, rfl, rfl⟩

namespace Command

section

variable [Format Manifest] {d d' : Disk} {path : String} {force : Bool}

/-- The disk after a run of `init`, and how it ends. -/
def initOn (d : Disk) (path : String) (force : Bool) : Disk × Except ContentError Unit :=
  let file := Path.join path Manifest.fileName
  if d.exists? file && !force then (d, .error alreadyThere)
  else
    decided (layoutToKeep · file) (fun kept d ↦
      let names := (Layout.ofManifest d path kept).packages.map PackageDirectory.name
      { kept with packages := names }.writeTo d file) d

/-- The command is a function of the disk. -/
theorem writes_init (path : String) (force : Bool) :
    Writes (init path force) (initOn · path force) := by
  -- the disk is looked at twice, and is the same both times
  refine Writes.getThe_bind fun c ↦ ?_
  rw [initOn]
  dsimp only
  split
  · refine ⟨_, Writes.bind (h := fun _ d ↦ (d, .error alreadyThere)) (.throw _) ?_, rfl⟩
    exact fun _ _ h ↦ nomatch h
  · refine ⟨_, ?_, rfl⟩
    refine Writes.after (.status _ _) (Writes.bind (.reading _) fun _ kept _ ↦
      Writes.getThe_bind fun c ↦ ⟨_, (Writes.writing _).before ?_, rfl⟩)
    split
    · exact .status _ _
    · exact (Reads.status _ _).after (.status _ _)

/-- The packages are looked for as if the manifest listed none. -/
theorem layoutToKeep_eq (d : Disk) (root : String) :
    layoutToKeep d (Path.join root Manifest.fileName) =
      (fun m : Manifest ↦ { m with packages := [] }) <$> Manifest.current d root := by
  rw [layoutToKeep, Manifest.current]
  split
  · cases Manifest.readFrom d (Path.join root Manifest.fileName) <;> rfl
  · rfl

/-- The manifest that is kept is frozen. -/
theorem initOn_eq (d : Disk) (path : String) (force : Bool) : initOn d path force =
    if d.exists? (Path.join path Manifest.fileName) && !force then (d, .error alreadyThere)
    else decided (Manifest.current · path) (fun m d ↦
      (m.frozen d path).writeTo d (Path.join path Manifest.fileName)) d := by
  simp only [initOn, decided, layoutToKeep_eq, Manifest.frozen]
  cases Manifest.current d path <;> rfl

/-- There is a place for the manifest that is there. -/
theorem exists_target_of_readFrom (hd : d.IsTree) {m : Manifest}
    (h : Manifest.readFrom d path = .ok m) : ∃ place, d.target path = .ok place := by
  obtain ⟨place, bytes, hlocate, hfile⟩ := Disk.isFile_iff.1 (Manifest.isFile_of_readFrom h)
  exact ⟨place, hd.target_of_locate hlocate hfile⟩

/-- When a run goes through: without a manifest, wherever one can be written; over a manifest, if
that is forced and the manifest can be read; and unless the device breaks off the write. -/
theorem initOn_eq_ok_iff (hd : d.IsTree) : (initOn d path force).2 = .ok () ↔
    (if d.exists? (Path.join path Manifest.fileName) then
      force = true ∧ ∃ m, Manifest.readFrom d (Path.join path Manifest.fileName) = .ok m
    else ∃ place, d.target (Path.join path Manifest.fileName) = .ok place) ∧
      ∀ m, Manifest.current d path = .ok m →
        ¬ d.BreaksOff (Path.join path Manifest.fileName) (m.frozen d path).text := by
  simp only [initOn_eq, Manifest.current, decided]
  cases hthere : d.exists? (Path.join path Manifest.fileName) with
  | false => simp [Manifest.writeTo_eq_ok_iff]
  | true =>
    cases force with
    | false => simp
    | true =>
      cases hread : Manifest.readFrom d (Path.join path Manifest.fileName) with
      | error error => simp
      | ok m => simp [Manifest.writeTo_eq_ok_iff, exists_target_of_readFrom hd hread]

/-- What is found after a run. -/
theorem discover_of_initOn (hd : d.IsTree) (h : initOn d path force = (d', .ok ())) :
    ∃ m, Manifest.current d path = .ok m ∧
      d'.readText (Path.join path Manifest.fileName) = .ok (m.frozen d path).text ∧
      ((m.frozen d path).ReadsBack →
        ∃ layout, discover d' path = .ok layout ∧ layout.manifest = m.frozen d path ∧
          layout.packages = (Layout.ofManifest d path { m with packages := [] }).packages) := by
  rw [initOn_eq] at h
  split at h
  · cases h
  cases hcurrent : Manifest.current d path with
  | error error =>
    rw [decided_error hcurrent] at h
    cases h
  | ok m =>
    rw [decided_ok hcurrent] at h
    have htext := Manifest.writeText_of_writeTo h
    obtain ⟨hthere, hread⟩ := Disk.readText_of_writeText htext
    refine ⟨m, rfl, hread, fun hparse ↦ ?_⟩
    have hlater : Manifest.current d' path = .ok (m.frozen d path) := by
      rw [Manifest.current, if_pos hthere, Manifest.readFrom, hread]
      exact hparse
    obtain ⟨layout, hdiscover, hmanifest, hpackages⟩ := exists_layout_of_current hlater
    refine ⟨layout, hdiscover, hmanifest, ?_⟩
    rw [hpackages, Layout.ofManifest_writeBytes hd (by decide) htext
      (Manifest.isFile_or_not_isDefinitionFile hcurrent), Layout.packages_frozen]

end

/-- **Initialising freezes what discovery finds.** Unforced, it leaves a manifest that is there
alone. Otherwise it goes through wherever a manifest can be written, and over one that can be read,
unless the device breaks off the write. The manifest that it writes differs from the one before in
its packages only. If the format gives that back, the project has the packages that were found
without a list, in the same order and with the same files. -/
theorem init_freezes_discovery [Format Manifest] [Format IdFile] {d : Disk} (hd : d.IsTree)
    (path : String) (force : Bool) {after : Console} {outcome : Except ContentError Unit}
    (hrun : runOn d (.init path force) = (after, outcome)) :
    (d.exists? (Path.join path Manifest.fileName) = true → force = false →
      outcome = .error alreadyThere ∧ after.disk = d) ∧
    (outcome = .ok () ↔
      (if d.exists? (Path.join path Manifest.fileName) then
        force = true ∧ ∃ m, Manifest.readFrom d (Path.join path Manifest.fileName) = .ok m
      else ∃ place, d.target (Path.join path Manifest.fileName) = .ok place) ∧
        ∀ m, Manifest.current d path = .ok m →
          ¬ d.BreaksOff (Path.join path Manifest.fileName) (m.frozen d path).text) ∧
    (outcome = .ok () → ∃ m, Manifest.current d path = .ok m ∧
      after.disk.readText (Path.join path Manifest.fileName) = .ok (m.frozen d path).text ∧
      ((m.frozen d path).ReadsBack →
        ∃ layout, discover after.disk path = .ok layout ∧ layout.manifest = m.frozen d path ∧
          layout.packages = (Layout.ofManifest d path { m with packages := [] }).packages)) := by
  obtain ⟨houtcome, hdisk⟩ := runOn_of_writes (.init path force) (writes_init path force) d
  rw [hrun] at houtcome hdisk
  dsimp only at houtcome hdisk
  refine ⟨fun hthere hforce ↦ ?_, ?_, fun hsuccess ↦ ?_⟩
  · have hinit : initOn d path force = (d, .error alreadyThere) := by
      rw [initOn_eq, hthere, hforce]
      rfl
    rw [hinit] at houtcome hdisk
    exact ⟨houtcome, hdisk⟩
  · rw [houtcome]
    exact initOn_eq_ok_iff hd
  · have hinit : initOn d path force = (after.disk, .ok ()) :=
      Prod.ext hdisk.symm (houtcome.symm.trans hsuccess)
    exact discover_of_initOn hd hinit

/-- A project with a layout of its own. Its manifest asks for a package that is gone, and one
directory has no data directory. -/
def movedDisk : Disk where
  entries :=
    [(["moddef.yaml"], .file "mods_dir: content\npackages: [gone]\n".toUTF8),
      (["units.txt", "Defines", "core", "content"], .file .empty),
      (["Defines", "core", "content"], .directory), (["core", "content"], .directory),
      (["drafts", "content"], .directory), (["content"], .directory)]
  here := []

/-- The manifest of the project with some packages. -/
def movedManifest (packages : List String) : Manifest :=
  { Manifest.standard with modsDir := "content", packages }

theorem isTree_movedDisk : movedDisk.IsTree := .of_entries <| by
  simp only [movedDisk, List.forall_mem_cons]
  exact ⟨⟨_, _, rfl, by decide, rfl⟩, ⟨_, _, rfl, by decide, rfl⟩, ⟨_, _, rfl, by decide, rfl⟩,
    ⟨_, _, rfl, by decide, rfl⟩, ⟨_, _, rfl, by decide, rfl⟩, ⟨_, _, rfl, by decide, rfl⟩,
    List.forall_mem_nil _⟩

/-- The manifest can be read, and it lists the package that is gone. -/
theorem readFrom_movedDisk :
    Manifest.readFrom movedDisk "/moddef.yaml" = .ok (movedManifest ["gone"]) := by
  have hread : movedDisk.readText "/moddef.yaml" = .ok "mods_dir: content\npackages: [gone]\n" :=
    bind_eq_ok_iff.2 ⟨_, rfl, by rw [fromUTF8?_toUTF8]⟩
  rw [Manifest.readFrom, hread]
  decide +kernel

/-- The package that is there takes the place of the one that is gone; the directory without data
does not count. -/
theorem frozen_movedManifest :
    (movedManifest ["gone"]).frozen movedDisk "/" = movedManifest ["core"] := by
  have hplace : movedDisk.locate "/content" = .ok ["content"] := rfl
  have hnames : movedDisk.namesIn ["content"] = ["core", "drafts"] := by decide
  have hsorted : ["core", "drafts"].mergeSort (fun a b ↦ decide (a ≤ b)) = ["core", "drafts"] :=
    List.mergeSort_of_pairwise (by decide)
  have hlisted : movedDisk.list "/content" = ["core", "drafts"] := by
    rw [Disk.list, hplace]
    dsimp only
    rw [hnames, hsorted]
  have hpackages : movedDisk.packageNames "/content" = ["core", "drafts"] := by
    rw [Disk.packageNames, hlisted]
    decide
  have hroot : Path.join "/" (movedManifest ["gone"]).modsDir = "/content" := by decide
  rw [Layout.frozen_eq, hroot, hpackages]
  decide

/-- The package that is there takes the place of the one that is gone. -/
theorem init_freezes_discovery_of_moved :
    movedDisk.IsTree ∧ movedDisk.exists? "/moddef.yaml" = true ∧
      (∃ kept, runOn movedDisk (.init "/" false) = (kept, .error alreadyThere) ∧
        kept.disk = movedDisk) ∧
      ∃ after, runOn movedDisk (.init "/" true) = (after, .ok ()) ∧
        after.disk.readText "/moddef.yaml" = .ok (movedManifest ["core"]).text ∧
        ∃ layout, discover after.disk "/" = .ok layout ∧ layout.manifest = movedManifest ["core"] ∧
          layout.packages =
            [⟨"core", "/content/core/Defines", ["/content/core/Defines/units.txt"]⟩] := by
  have hthere : movedDisk.exists? "/moddef.yaml" = true := by decide
  have hparse : (movedManifest ["core"]).ReadsBack :=
    show Manifest.parse (movedManifest ["core"]).text = .ok (movedManifest ["core"]) by
      decide +kernel
  cases hplain : runOn movedDisk (.init "/" false) with | mk kept refusal =>
  cases hforced : runOn movedDisk (.init "/" true) with | mk after outcome =>
  obtain ⟨hrefused, -, -⟩ := init_freezes_discovery isTree_movedDisk "/" false hplain
  obtain ⟨-, hsuccess, hfrozen⟩ := init_freezes_discovery isTree_movedDisk "/" true hforced
  have hfile : Path.join "/" Manifest.fileName = "/moddef.yaml" := by decide
  rw [hfile] at hrefused hsuccess hfrozen
  rw [if_pos hthere] at hsuccess
  have hdone := hsuccess.2 ⟨⟨rfl, _, readFrom_movedDisk⟩, fun _ _ ⟨_, _, hbroken⟩ ↦
    Disk.not_brokenOff (fun _ _ ↦ rfl) hbroken⟩
  obtain ⟨m, hcurrent, htext, hlater⟩ := hfrozen hdone
  rw [Manifest.current, hfile, if_pos hthere] at hcurrent
  obtain rfl := Except.ok.inj (hcurrent.symm.trans readFrom_movedDisk)
  rw [frozen_movedManifest] at htext hlater
  obtain ⟨layout, hdiscover, hmanifest, hpackages⟩ := hlater hparse
  obtain ⟨rfl, hkept⟩ := hrefused hthere rfl
  refine ⟨isTree_movedDisk, hthere, ⟨kept, rfl, hkept⟩, after, by rw [hdone], htext, layout,
    hdiscover, hmanifest, ?_⟩
  rw [hpackages, ← Layout.packages_frozen, frozen_movedManifest]
  decide +kernel

end Command

end ModContent
