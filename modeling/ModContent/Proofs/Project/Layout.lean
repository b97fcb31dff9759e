import ModContent.Project.Layout
import ModContent.Proofs.Project.LoadOrder

/-!
# Layouts that stay the same

What a layout finds depends on the directories of the disk and on the definition files in them. A
file that is written makes no directory. If it was there before, or its name is not one of a
definition file, then it is no new definition file either, and the layout is the same as before
(`Layout.ofManifest_writeBytes`). That the disk has one more entry does not matter, since files and
names are listed in an order that their members decide.

Packages are found in two ways: all directories that are there, or those of a list. A manifest that
lists the packages of the first way finds the same packages in the second
(`Layout.packages_frozen`).
-/

namespace ModContent

namespace Disk

variable {d d' : Disk} {place target : DiskLocation} {name root path directory : String}
  {names : List String} {bytes : ByteArray} {m : Manifest}

/-! ### Names of packages -/

/-- The names of packages are the plain names with a directory. -/
theorem IsTree.mem_packageNames (hd : d.IsTree) : name ∈ d.packageNames directory ↔
    PlainName name ∧ d.isDirectory directory = true ∧
      d.isDirectory (Path.join directory name) = true := by
  rw [packageNames, List.mem_filter, list]
  constructor
  · rintro ⟨hname, hinner⟩
    split at hname
    · next place hplace =>
      rw [List.mem_mergeSort, mem_namesIn] at hname
      exact ⟨hd.plain hname, isDirectory_iff.2 ⟨place, hplace, hd.outer hname⟩, hinner⟩
    · exact absurd hname List.not_mem_nil
  · rintro ⟨hname, houter, hinner⟩
    refine ⟨?_, hinner⟩
    obtain ⟨place, hplace, -⟩ := isDirectory_iff.1 houter
    obtain ⟨inner, hinner, hdirectory⟩ := isDirectory_iff.1 hinner
    obtain rfl := locate_join hname hplace hinner
    rw [hplace]
    exact List.mem_mergeSort.2 (mem_namesIn.2 (hdirectory ▸ Option.some_ne_none _))

theorem pairwise_packageNames (d : Disk) (directory : String) :
    (d.packageNames directory).Pairwise (· < ·) := by
  rw [packageNames, list]
  cases d.locate directory with
  | error _ => exact .nil
  | ok place => exact (d.pairwise_lt_sortedNames place).filter _

/-- A file that is written is no package. -/
theorem IsTree.packageNames_writeBytes (hd : d.IsTree) (h : d.writeBytes path bytes = .ok d')
    (directory : String) : d'.packageNames directory = d.packageNames directory := by
  have hd' := hd.writeBytes h
  obtain ⟨target, -, hfree, rfl⟩ := writeBytes_eq_ok h
  refine (pairwise_packageNames _ directory).eq_of_mem_iff (d.pairwise_packageNames directory) ?_
  intro name
  rw [hd'.mem_packageNames, hd.mem_packageNames, isDirectory_put hfree, isDirectory_put hfree]

/-! ### Definition files -/

/-- A file that was there before, or that is no definition file, adds no definition file. -/
theorem IsTree.definitionFiles_writeBytes (hd : d.IsTree) (hname : PlainName name)
    (h : d.writeBytes (Path.join root name) bytes = .ok d')
    (hkind : d.isFile (Path.join root name) = true ∨ m.isDefinitionFile name = false)
    (directory : String) : d'.definitionFiles m directory = d.definitionFiles m directory := by
  have hd' := hd.writeBytes h
  obtain ⟨target, htarget, hfree, rfl⟩ := writeBytes_eq_ok h
  have hdirectories := get?_put_eq_directory_iff hfree bytes
  by_cases hthere : d.isDirectory directory = true
  · obtain ⟨place, hplace, hdirectory⟩ := isDirectory_iff.1 hthere
    rw [hd.definitionFiles_eq m hplace hdirectory, hd'.definitionFiles_eq m
      ((locate_put_iff hfree hdirectory).2 hplace) ((hdirectories place).2 hdirectory)]
    refine congrArg (List.map _) ?_
    refine listing_eq_of_mem_iff hdirectories fun names ↦ ?_
    rw [hd.mem_listing hdirectory, hd'.mem_listing ((hdirectories place).2 hdirectory)]
    rw [isFileAt_put_iff hfree, and_congr_left_iff, or_iff_right_iff_imp]
    rintro hselects rfl
    rcases hkind with hfile | hother
    · obtain ⟨place, bytes, hlocate, hthere⟩ := isFile_iff.1 hfile
      obtain rfl := Except.ok.inj ((hd.target_of_locate hlocate hthere).symm.trans htarget)
      exact ⟨bytes, hthere⟩
    · obtain ⟨outer, hlast⟩ := target_join hname htarget
      obtain ⟨before, last, rfl⟩ := (List.eq_nil_or_concat' names).resolve_left hselects.ne_nil
      rw [List.reverse_concat, List.cons_append] at hlast
      obtain ⟨rfl, -⟩ := List.cons.inj hlast
      exact absurd (hselects.isDefinitionFile List.getLast?_concat hname)
        (Bool.eq_false_iff.1 hother)
  · have hmissing := Bool.eq_false_iff.2 hthere
    rw [definitionFiles_eq_nil m hmissing,
      definitionFiles_eq_nil m ((isDirectory_put hfree bytes directory).trans hmissing)]

end Disk

/-! ### Layouts -/

/-- The manifest with the packages that are found where it lists none. -/
def Manifest.frozen (m : Manifest) (d : Disk) (root : String) : Manifest :=
  { m with packages :=
      (Layout.ofManifest d root { m with packages := [] }).packages.map PackageDirectory.name }

/-- Freezing a manifest does not change which files hold definitions. -/
theorem Manifest.isDefinitionFile_frozen (m : Manifest) (d : Disk) (root path : String) :
    (m.frozen d root).isDefinitionFile path = m.isDefinitionFile path := by
  rw [isDefinitionFile, isDefinitionFile, frozen]

namespace Layout

variable {d d' : Disk} {root name : String} {bytes : ByteArray} {m : Manifest}

/-- **A file that is written changes no layout**, unless it is a new definition file. -/
theorem ofManifest_writeBytes (hd : d.IsTree) (hname : PlainName name)
    (h : d.writeBytes (Path.join root name) bytes = .ok d')
    (hkind : d.isFile (Path.join root name) = true ∨ m.isDefinitionFile name = false)
    (start : String) : ofManifest d' start m = ofManifest d start m := by
  have hfiles := hd.definitionFiles_writeBytes hname h hkind
  have hnames := hd.packageNames_writeBytes h
  obtain ⟨target, -, hfree, rfl⟩ := Disk.writeBytes_eq_ok h
  simp only [ofManifest, packageNames, hnames, hfiles, Disk.isDirectory_put hfree]

/-- Where packages lie and what they hold does not depend on the list of packages. -/
theorem packages_relisted (d : Disk) (root : String) (m : Manifest) (listed : List String) :
    (ofManifest d root { m with packages := listed }).packages =
      ((packageNames d root { m with packages := listed }).filter
        fun name ↦ d.isDirectory (dataDirectory root m name)).map fun name ↦
          ⟨name, dataDirectory root m name, d.definitionFiles m (dataDirectory root m name)⟩ := by
  rw [ofManifest, List.partition_eq_filter_filter]
  rfl

/-- A frozen manifest lists the directories that hold a data directory. -/
theorem frozen_eq (d : Disk) (root : String) (m : Manifest) : m.frozen d root =
    { m with packages := (d.packageNames (Path.join root m.modsDir)).filter fun name ↦
        d.isDirectory (dataDirectory root m name) } := by
  rw [Manifest.frozen, packages_relisted, List.map_map]
  exact congrArg (fun listed ↦ { m with packages := listed }) (List.map_id _)

/-- **A list of the packages that were found gives the same packages.** -/
theorem packages_frozen (d : Disk) (root : String) (m : Manifest) :
    (ofManifest d root (m.frozen d root)).packages =
      (ofManifest d root { m with packages := [] }).packages := by
  have hnames : ∀ listed, packageNames d root { m with packages := listed } =
    if listed.isEmpty then d.packageNames (Path.join root m.modsDir) else listed := fun _ ↦ rfl
  rw [frozen_eq, packages_relisted, packages_relisted]
  refine congrArg (List.map _) ?_
  rw [hnames, hnames, if_pos List.isEmpty_nil]
  split
  · -- where nothing is found, the empty list asks for all directories again
    rfl
  · rw [List.filter_filter]
    simp only [Bool.and_self]

end Layout

end ModContent
