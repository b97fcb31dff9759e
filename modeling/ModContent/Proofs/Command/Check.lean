import ModContent.Json.IdFile
import ModContent.Proofs.Command.Action
import ModContent.Proofs.Disk.Written
import ModContent.Proofs.Package.Dump
import ModContent.Proofs.Source.Log
import ModContent.Proofs.Tree.Stale
import ModContent.Yaml.Manifest

/-!
# Checks of loaded projects

A loaded tree has the readings of all its properties, so validating it finds no error, and the
findings of the load itself are warnings. Hence the checks of a project that was loaded never fail:
the command ends well if the project loads, and else with the error of the step that failed
(`outcome_check`), which is never that of failed checks.
-/

namespace ModContent

/-! ### Validating a loaded tree -/

namespace ContentTree

variable {t : ContentTree}

/-- The readings of a property in a loaded tree are those of its values. -/
theorem Loadable.derived_eq (ht : t.Loadable) {id : NodeId} {n : Node} (hn : t.node? id = some n)
    {p : Property} (hp : p ∈ n.properties) : p.derived = some (Readings.of p.values) := by
  obtain ⟨i, hi⟩ := List.mem_iff_getElem?.1 hp
  have hcomputed := ht.computed (slot?_eq_some_iff.2 ⟨n, hn, hi⟩)
  rcases (ht.tidy.written hn hp).fresh with hnone | hsome
  · rw [Property.isComputed, hnone] at hcomputed
    cases hcomputed
  · exact hsome

/-- In a tree that came from packages all readings are computed. -/
theorem Loadable.checkStale_eq (ht : t.Loadable) : t.checkStale = [] := by
  rw [ht.grown.linked.checkStale_eq, List.flatMap_eq_nil_iff]
  refine fun id _ ↦ staleFindings_eq_nil_iff.2 fun p hp ↦ ?_
  obtain ⟨i, hi⟩ := List.mem_iff_getElem?.1 hp
  exact ht.computed ((t.slot?_eq_properties (id, i)).trans hi)

/-- So nothing that is found in such a tree is an error. -/
theorem Loadable.onlyWarnings_validate (ht : t.Loadable) : OnlyWarnings t.validate := by
  rw [validate, ht.checkStale_eq]
  exact (t.onlyWarnings_checkEmpty.append t.onlyWarnings_checkUncategorised).append
    onlyWarnings_nil

end ContentTree

/-! ### Findings of a load -/

/-- The findings of a package so far are warnings. -/
theorem preserved_onlyWarnings :
    Content.Preserved .plain fun content ↦ content.tree.Grown ∧
      OnlyWarnings content.diagnostics where
  grown h := h.1
  enter h hid _ := ⟨h.1.childOrCreate hid _, h.2⟩
  declare {content id s location} h hid _ := by
    refine ⟨?_, ?_⟩
    · rw [Content.tree_declare]
      exact h.1.congr (.modify _ id fun n ↦ n.stem_insert _)
    · obtain ⟨node, hnode⟩ := ContentTree.isLive_iff.1 hid
      simp only [Content.declare, hnode]
      split
      · exact h.2.append (List.forall_mem_singleton.2 rfl)
      · exact h.2

/-- A package adds warnings at most. -/
theorem Loading.onlyWarnings_addPackage {loading : Loading} (ht : loading.tree.Grown)
    (h : OnlyWarnings loading.diagnostics) (package : Package) :
    OnlyWarnings (loading.addPackage package).1.diagnostics := by
  have hfiles := @Content.Preserved.addFiles _ (Content.start loading.tree loading.diagnostics)
    preserved_onlyWarnings ⟨ht, h⟩ package.files ScanStats.zero
  rw [addPackage]
  split
  · next reached error heq =>
    rw [heq] at hfiles
    exact hfiles.2
  · next scanned stats heq =>
    rw [heq] at hfiles
    exact hfiles.2

/-- A load that succeeds finds nothing worse than what is worth a warning. -/
theorem onlyWarnings_of_load {packages : List Package} {loaded : Loaded}
    (hok : load packages = .ok loaded) : OnlyWarnings loaded.diagnostics := by
  suffices hall : ∀ (start : Loaded), start.tree.Loadable → OnlyWarnings start.diagnostics →
      packages.foldlM Loaded.add start = .ok loaded → OnlyWarnings loaded.diagnostics from
    hall Loaded.none ContentTree.loadable_new onlyWarnings_nil hok
  clear hok
  induction packages with
  | nil =>
    intro start _ hstart hok
    obtain rfl := Except.ok.inj hok
    exact hstart
  | cons package rest ih =>
    intro start hloadable hstart hok
    rw [List.foldlM_cons] at hok
    obtain ⟨next, hadd, hrest⟩ := bind_eq_ok_iff.1 hok
    refine ih next (Loaded.loadable_add hloadable hadd) ?_ hrest
    have hadded := @Loading.onlyWarnings_addPackage ⟨start.tree, start.diagnostics⟩
      hloadable.grown hstart package
    rw [Loaded.add] at hadd
    split at hadd
    · cases hadd
    · next loading stats heq =>
      obtain rfl := Except.ok.inj hadd
      rw [heq] at hadded
      exact hadded

/-- What is missing from a project is a warning. -/
theorem Layout.onlyWarnings_findings (l : Layout) : OnlyWarnings l.findings := by
  intro d hd
  obtain ⟨_, -, rfl⟩ := List.mem_map.1 hd
  rfl

/-! ### Errors of the steps before the checks -/

/-- An outcome that is not a failure of checks. -/
def NotCheckFailure {α : Type} (outcome : Except ContentError α) : Prop :=
  ∀ errors, outcome ≠ .error (.check errors)

namespace NotCheckFailure

variable {α β : Type}

theorem ok (a : α) : NotCheckFailure (.ok a) := fun _ h ↦ nomatch h

theorem io (path message : String) :
    NotCheckFailure (.error (.io path message) : Except ContentError α) := by
  intro errors h
  cases h

theorem manifest (note : Note) :
    NotCheckFailure (.error (.manifest note) : Except ContentError α) := by
  intro errors h
  cases h

/-- A failure of two steps is a failure of one of them. -/
theorem bind {x : Except ContentError α} {f : α → Except ContentError β}
    (hx : NotCheckFailure x) (hf : ∀ a, NotCheckFailure (f a)) : NotCheckFailure (x >>= f) := by
  cases x with
  | ok a => exact hf a
  | error error =>
    intro errors h
    obtain rfl := Except.error.inj h
    exact hx errors rfl

theorem mapM {f : α → Except ContentError β} (hf : ∀ a, NotCheckFailure (f a)) (xs : List α) :
    NotCheckFailure (xs.mapM f) := by
  induction xs with
  | nil => exact .ok []
  | cons x rest ih =>
    rw [List.mapM_cons]
    exact (hf x).bind fun _ ↦ ih.bind fun _ ↦ .ok _

theorem foldlM {f : β → α → Except ContentError β} (hf : ∀ b a, NotCheckFailure (f b a))
    (xs : List α) (b : β) : NotCheckFailure (xs.foldlM f b) := by
  induction xs generalizing b with
  | nil => exact .ok b
  | cons x rest ih =>
    rw [List.foldlM_cons]
    exact (hf b x).bind fun next ↦ ih next

end NotCheckFailure

/-- Discovery fails on files and manifests only. -/
theorem notCheckFailure_discover [Format Manifest] (d : Disk) (root : String) :
    NotCheckFailure (discover d root) := by
  rw [discover]
  split
  · refine .bind ?_ fun _ ↦ .ok _
    rw [Manifest.readFrom]
    split
    · rw [Manifest.parse]
      split
      · exact .ok _
      · split
        · exact .ok _
        · exact .manifest _
    · exact .io _ _
  · exact .ok _

/-- Packages fail to be read only where a file cannot be read. -/
theorem notCheckFailure_readPackages (l : Layout) (d : Disk) :
    NotCheckFailure (l.readPackages d) := by
  refine .mapM (fun p ↦ .bind (.mapM (fun path ↦ ?_) p.files) fun _ ↦ .ok _) l.packages
  rw [SourceFile.readFrom]
  split
  · exact .ok _
  · exact .io _ _

/-- Files are refused for their text, never by a check. -/
theorem notCheckFailure_addFiles (content : Content) (files : List SourceFile)
    (stats : ScanStats) : NotCheckFailure (content.addFiles files stats).2 := by
  intro errors h
  obtain ⟨_, _, hparse⟩ := Content.exists_parse_of_addFiles (Prod.ext rfl h)
  cases hparse

theorem notCheckFailure_addPackage (loading : Loading) (package : Package) :
    NotCheckFailure (loading.addPackage package).2 := by
  have hfiles := notCheckFailure_addFiles
    (Content.start loading.tree loading.diagnostics) package.files ScanStats.zero
  rw [Loading.addPackage]
  split
  · next reached error heq =>
    rw [heq] at hfiles
    exact fun errors h ↦ hfiles errors (congrArg Except.error (Except.error.inj h))
  · next scanned stats heq =>
    simp only [Content.resolveAll]
    cases (resolve scanned.tree scanned.queue).2 with
    | ok count => exact .ok _
    | error failure =>
      intro _ h
      cases h

theorem notCheckFailure_load (packages : List Package) : NotCheckFailure (load packages) := by
  refine .foldlM (fun loaded package ↦ ?_) packages _
  have hadded := notCheckFailure_addPackage ⟨loaded.tree, loaded.diagnostics⟩ package
  rw [Loaded.add]
  split
  · next loading error heq =>
    rw [heq] at hadded
    exact fun errors h ↦ hadded errors (congrArg Except.error (Except.error.inj h))
  · exact .ok _

/-! ### The command -/

namespace Command

open Console

variable [Format Manifest]

/-- A project that does not load has not failed a check. -/
theorem notCheckFailure_projectOn (d : Disk) (path : String) :
    NotCheckFailure (projectOn d path) := by
  refine .bind ?_ fun (layout, packages) ↦ (notCheckFailure_load packages).bind fun _ ↦ .ok _
  exact (notCheckFailure_discover d path).bind fun layout ↦
    (notCheckFailure_readPackages layout d).bind fun _ ↦ .ok _

/-- The tree of a project is loaded from packages. -/
theorem exists_load_of_projectOn {d : Disk} {path : String} {project : Project}
    (h : projectOn d path = .ok project) : ∃ packages, load packages = .ok project.loaded := by
  obtain ⟨⟨layout, packages⟩, -, h⟩ := bind_eq_ok_iff.1 h
  obtain ⟨loaded, hload, h⟩ := bind_eq_ok_iff.1 h
  obtain rfl := Except.ok.inj h
  exact ⟨packages, hload⟩

/-- The checks of a loaded project find no error. -/
theorem reads_check (path : String) :
    Reads (check path) fun d ↦ projectOn d path >>= fun _ ↦ .ok () := by
  refine (reads_loadProject path).bind fun d project hproject ↦ ?_
  obtain ⟨packages, hload⟩ := exists_load_of_projectOn hproject
  have hfindings : OnlyWarnings (project.layout.findings ++ project.loaded.diagnostics ++
      project.loaded.tree.validate) :=
    (project.layout.onlyWarnings_findings.append (onlyWarnings_of_load hload)).append
      (loadable_of_load hload).onlyWarnings_validate
  refine (Reads.status _ _).after <| (Reads.status _ _).after <| (Reads.tell _).after ?_
  rw [hfindings.hasErrors_eq]
  exact .ok ()

/-- **What `check` comes to**: it ends well if the project loads, and else with the error of reading
or loading it. -/
theorem outcome_check [Format IdFile] (d : Disk) (path : String) :
    (runOn d (.check path)).2 = projectOn d path >>= fun _ ↦ .ok () :=
  (reads_check path).outcome (Console.start d)

end Command

open Command in
/-- **A load leaves nothing pending.** After a load that succeeds every property of every node has
been read, and its readings are those of its values. So validating the tree finds no error, `check`
ends well on a project of these packages, and on no project does it end with failed checks. -/
theorem load_leaves_nothing_stale [Format Manifest] [Format IdFile] (packages : List Package)
    (loaded : Loaded) (h : load packages = .ok loaded) :
    (∀ id node p, loaded.tree.node? id = some node → p ∈ node.properties →
      p.derived = some (Readings.of p.values)) ∧
    hasErrors loaded.tree.validate = false ∧
    (∀ disk path layout, discover disk path = .ok layout →
      layout.readPackages disk = .ok packages → (runOn disk (.check path)).2 = .ok ()) ∧
    ∀ disk path errors, (runOn disk (.check path)).2 ≠ .error (.check errors) := by
  have hloadable := loadable_of_load h
  refine ⟨fun id node p hnode hp ↦ hloadable.derived_eq hnode hp,
    hloadable.onlyWarnings_validate.hasErrors_eq, fun disk path layout hlayout hpackages ↦ ?_,
    fun disk path ↦ ?_⟩
  · have hread : packagesOn disk path = .ok (layout, packages) := by
      rw [packagesOn, hlayout]
      show (layout.readPackages disk >>= _) = _
      rw [hpackages]
      rfl
    have hproject : projectOn disk path = .ok ⟨layout, loaded⟩ := by
      rw [projectOn, hread]
      show (load packages >>= _) = _
      rw [h]
      rfl
    rw [outcome_check, hproject]
    rfl
  · rw [outcome_check]
    exact (notCheckFailure_projectOn disk path).bind fun _ ↦ .ok ()

/-- A project with one package. -/
def unitDisk : Disk where
  entries :=
    [(["units.txt", "Defines", "core", "Mods"], .file "unit:archer{}\nunit:cavalry{}\n".toUTF8),
      (["Defines", "core", "Mods"], .directory), (["core", "Mods"], .directory),
      (["Mods"], .directory)]
  here := []

/-- The layout of the project. -/
def unitLayout : Layout where
  root := "/"
  manifest := .standard
  hasManifest := false
  packages := [⟨"core", "/Mods/core/Defines", ["/Mods/core/Defines/units.txt"]⟩]
  missing := []

/-- The package as it is read. -/
def archerPackages : List Package :=
  [⟨"core", [⟨"/Mods/core/Defines/units.txt", ["unit:archer{}", "unit:cavalry{}"]⟩]⟩]

theorem readPackages_unitLayout : unitLayout.readPackages unitDisk = .ok archerPackages := by
  have htext : unitDisk.readText "/Mods/core/Defines/units.txt" =
      .ok "unit:archer{}\nunit:cavalry{}\n" :=
    bind_eq_ok_iff.2 ⟨_, rfl, by rw [fromUTF8?_toUTF8]⟩
  simp only [Layout.readPackages, unitLayout, List.mapM_cons, List.mapM_nil, SourceFile.readFrom,
    htext]
  rfl

open Command in
/-- A disk with one package of archers, whose project loads and passes the check. -/
theorem load_leaves_nothing_stale_of_units : ∃ loaded, load archerPackages = .ok loaded ∧
    discover unitDisk "/" = .ok unitLayout ∧
    unitLayout.readPackages unitDisk = .ok archerPackages ∧
    (∀ id node p, loaded.tree.node? id = some node → p ∈ node.properties →
      p.derived = some (Readings.of p.values)) ∧
    hasErrors loaded.tree.validate = false ∧ (runOn unitDisk (.check "/")).2 = .ok () ∧
    ∀ disk path errors, (runOn disk (.check path)).2 ≠ .error (.check errors) := by
  have hloads : (load archerPackages).isOk = true := rfl
  have hdiscover : discover unitDisk "/" = .ok unitLayout := by decide +kernel
  cases hload : load archerPackages with
  | error error => rw [hload] at hloads; cases hloads
  | ok loaded =>
    obtain ⟨hfresh, hvalid, hcheck, hnever⟩ :=
      load_leaves_nothing_stale archerPackages loaded hload
    exact ⟨loaded, rfl, hdiscover, readPackages_unitLayout, hfresh, hvalid,
      hcheck unitDisk "/" unitLayout hdiscover readPackages_unitLayout, hnever⟩

end ModContent
