import ModContent.Package
import ModContent.Proofs.Source.Log

/-!
# Loads as operations

All that loading does to a tree is made of the operations of the tree: a scan makes children and
edits properties, as its log tells, and resolving a queue edits properties. So the trees that can be
reached (`ContentTree.Reachable`) are closed under loading, whether it fails or not, and what is
said of them holds of every loaded tree.
-/

namespace ModContent

open Content (Logs)

variable {t : ContentTree}

/-! ### Scans -/

/-- What a log declares is reached by calls. -/
theorem Content.Logs.reachable {log : List Declaration} {start after : Content}
    (h : Logs start log after) (hstart : start.tree.Reachable) : after.tree.Reachable := by
  induction h with
  | refl => exact hstart
  | enter _ _ key ih => exact ih.childOrCreate _ key
  | declare _ _ ih =>
    rw [Content.tree_declare]
    exact ih.edit (fun n ↦ n.stem_insert _) _

theorem reachable_scanFile {content : Content} (h : content.tree.Reachable) (file : String)
    (source : NormalizedSource) : (scanFile content file source).1.tree.Reachable :=
  (Content.logs_scanFile h.linked ⟨file, source⟩).reachable h

/-- Also a file that fails leaves a tree that can be reached. -/
theorem reachable_addFiles {content : Content} (h : content.tree.Reachable)
    (files : List SourceFile) (stats : ScanStats) :
    (content.addFiles files stats).1.tree.Reachable := by
  induction files generalizing content stats with
  | nil => exact h
  | cons file files ih =>
    have hfile : (content.addFile file).1.tree.Reachable := reachable_scanFile h _ _
    rw [Content.addFiles]
    split
    · next heq => rwa [heq] at hfile
    · next heq =>
      rw [heq] at hfile
      exact ih hfile _

/-! ### Resolving -/

open Resolve

theorem reachable_copyBack (h : t.Reachable) (settled : NodeId × Nat) (chain : List Link) :
    (copyBack t settled chain).Reachable := by
  induction chain generalizing t settled with
  | nil => exact h
  | cons link chain ih =>
    refine ih (h.edit (fun n ↦ ?_) _) _
    exact Node.stem_eq_of_shape_eq (n.shape_modifySlot _ fun p ↦ p.key_assign _)

theorem reachable_run (h : t.Reachable) (links rest : List Link) (done : List Nat) :
    (run links rest done t).1.Reachable := by
  induction rest generalizing t done with
  | nil => exact h
  | cons link rest ih =>
    rw [run]
    split
    · exact ih h _
    · split
      · exact h
      · exact ih (reachable_copyBack h _ _) _

theorem reachable_resolveAll {content : Content} (h : content.tree.Reachable) :
    content.resolveAll.1.tree.Reachable :=
  reachable_run h _ _ _

/-! ### Loads -/

/-- A package leads from a tree that can be reached to another, whether it loads or not. -/
theorem reachable_addPackage {loading : Loading} (h : loading.tree.Reachable)
    (package : Package) : (loading.addPackage package).1.tree.Reachable := by
  have hfiles : ((Content.start loading.tree loading.diagnostics).addFiles package.files
      ScanStats.zero).1.tree.Reachable := reachable_addFiles h _ _
  rw [Loading.addPackage]
  split
  · next heq => rwa [heq] at hfiles
  · next heq =>
    rw [heq] at hfiles
    exact reachable_resolveAll hfiles

theorem reachable_add {start loaded : Loaded} (h : start.tree.Reachable) {package : Package}
    (hadd : start.add package = .ok loaded) : loaded.tree.Reachable := by
  have hpackage : (Loading.addPackage ⟨start.tree, start.diagnostics⟩ package).1.tree.Reachable :=
    reachable_addPackage h package
  rw [Loaded.add] at hadd
  split at hadd
  · cases hadd
  · next heq =>
    obtain rfl := Except.ok.inj hadd
    rwa [heq] at hpackage

theorem reachable_addAll {packages : List Package} {start loaded : Loaded}
    (hstart : start.tree.Reachable) (h : packages.foldlM Loaded.add start = .ok loaded) :
    loaded.tree.Reachable := by
  induction packages generalizing start with
  | nil =>
    obtain rfl := Except.ok.inj h
    exact hstart
  | cons package rest ih =>
    rw [List.foldlM_cons] at h
    obtain ⟨next, hadd, h⟩ := bind_eq_ok_iff.1 h
    exact ih (reachable_add hstart hadd) h

/-- **Every loaded tree can be reached.** -/
theorem reachable_of_load {packages : List Package} {loaded : Loaded}
    (h : load packages = .ok loaded) : loaded.tree.Reachable :=
  reachable_addAll .new h

/-- A text that is parsed into a tree leads to another that can be reached, also where it fails. -/
theorem reachable_parse (h : t.Reachable) (source : String) : (t.parse source).1.Reachable := by
  have hscan : (t.scanText source).1.tree.Reachable := reachable_scanFile h _ _
  rw [ContentTree.parse]
  split
  · next heq => rwa [heq] at hscan
  · next heq =>
    rw [heq] at hscan
    exact reachable_resolveAll hscan

end ModContent
