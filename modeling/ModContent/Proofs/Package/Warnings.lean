import ModContent.Proofs.Package.Documents
import ModContent.Proofs.Package.Layers
import ModContent.Proofs.Source.Lines
import ModContent.Proofs.Source.Redeclared

/-!
# The findings of a load

What a package declares can be said from its documents: items are gone through in order, blocks are
found or made, and each statement or header stands in the line that contributes where its text
begins (`Content.documentLog`). Each package begins with nothing declared. So the findings of a load
are the warnings of one package after the other, one for each redeclaration in the log of the
package (`load_warns`). Declarations of earlier packages do not count, and resolving references
finds nothing to warn of.
-/

namespace ModContent

open Content (Logs Warned)

/-! ### Declarations of documents -/

namespace FileDocument

/-- The line of the file in which what stands at an offset of its text stands. -/
def place (d : FileDocument) (offset : Nat) : Location :=
  ⟨d.file.path, contributingLine (d.file.lines.map String.toList) offset⟩

/-- Items are located by the lines of the file. -/
theorem evaluateAll_place (d : FileDocument) (content : Content) :
    Item.evaluateAll d.locate ContentTree.root content d.items =
      Item.evaluateAll d.place ContentTree.root content d.items := by
  refine (d.renders.evaluateAll_congr (fun i _ hlt ↦ ?_) ContentTree.root content).1
  rw [Nat.zero_add] at hlt
  rw [locate, NormalizedSource.locate, lineOf_eq_contributingLine hlt, place]

end FileDocument

namespace Content

/-- The declarations of documents, one document after the other, each below the root. -/
def documentLog (content : Content) : List FileDocument → List Declaration
  | [] => []
  | d :: rest => Item.declarationsAll d.place ContentTree.root content d.items ++
      (Item.evaluateAll d.place ContentTree.root content d.items).documentLog rest

/-- The log of documents is what their evaluation declares. -/
theorem logs_documentLog {content : Content} (ht : content.tree.Linked)
    (documents : List FileDocument) :
    Logs content (content.documentLog documents) (content.evaluateDocuments documents) := by
  induction documents generalizing content with
  | nil => exact .refl
  | cons d rest ih =>
    have hfirst := (Item.evaluateAll_spec d.place d.items ht ht.live).2
    rw [evaluateDocuments, List.foldl_cons, d.evaluateAll_place]
    exact hfirst.trans (ih (hfirst.linked ht))

end Content

/-! ### Packages one after the other -/

/-- What packages declare, package by package, each when those before it are loaded. -/
inductive Declares : List Package → List (List Declaration) → Prop
  | none : Declares [] []
  | add {packages : List Package} {logs : List (List Declaration)} {loaded : Loaded}
      {package : Package} {documents : List FileDocument} (before : Declares packages logs)
      (loads : load packages = .ok loaded)
      (files : documents.map FileDocument.file = package.files) :
      Declares (packages ++ [package])
        (logs ++ [(Content.start loaded.tree loaded.diagnostics).documentLog documents])

/-- A package adds the warnings of its redeclarations, and its declarations are of nodes in the
tree that it leads to. -/
theorem Loaded.diagnostics_add {loaded next : Loaded} {package : Package}
    (ht : loaded.tree.Linked) (h : loaded.add package = .ok next) {documents : List FileDocument}
    (hfiles : documents.map FileDocument.file = package.files) {log : List Declaration}
    (hlog : (Content.start loaded.tree loaded.diagnostics).documentLog documents = log) :
    (∀ d ∈ log, next.tree.isLive d.node) ∧
      next.diagnostics = loaded.diagnostics ++ warnings next.tree log := by
  obtain ⟨scanned, stats, resolved, count, hscan, hresolve, rfl⟩ := add_eq_ok_iff.1 h
  obtain ⟨total, hdocuments⟩ := (Content.start loaded.tree loaded.diagnostics).addFiles_documents
    documents ScanStats.zero
  rw [hfiles, hscan] at hdocuments
  obtain ⟨rfl, -⟩ := Prod.mk.inj hdocuments
  have hlinked : (Content.start loaded.tree loaded.diagnostics).tree.Linked := ht
  have hwarned := (Content.logs_documentLog hlinked documents).warned ht
  rw [hlog] at hwarned
  have hshape := (resolve_ok hwarned.placed.nodup_places hwarned.placed.seated
    (congrArg Prod.snd hresolve)).1
  rw [hresolve] at hshape
  have hcontinues := ContentTree.Continues.of_sameShape hshape
  exact ⟨fun d hd ↦ hcontinues.isLive (hwarned.isLive hd),
    hwarned.diagnostics_of_continues hcontinues⟩

/-- The diagnostics of a load are the warnings for its logs. -/
theorem Declares.diagnostics {packages : List Package} {logs : List (List Declaration)}
    (h : Declares packages logs) {loaded : Loaded} (hload : load packages = .ok loaded) :
    (∀ log ∈ logs, ∀ d ∈ log, loaded.tree.isLive d.node) ∧
      loaded.diagnostics = logs.flatMap (warnings loaded.tree) := by
  induction h generalizing loaded with
  | none =>
    obtain rfl := Except.ok.inj hload
    exact ⟨fun _ hlog ↦ absurd hlog List.not_mem_nil, rfl⟩
  | @add packages logs small package documents before loads files ih =>
    obtain ⟨_, hsmall, hadd⟩ := load_concat_eq_ok_iff.1 hload
    obtain rfl := Except.ok.inj (loads.symm.trans hsmall)
    obtain ⟨hlive, hdiagnostics⟩ := ih loads
    have ht := (loadable_of_load loads).grown.linked
    obtain ⟨hnew, hadded⟩ := Loaded.diagnostics_add ht hadd files rfl
    have hcontinues := (Loaded.continues_add ht hadd).1
    refine ⟨List.forall_mem_append.2 ⟨fun log hlog d hd ↦ ?_, List.forall_mem_singleton.2 hnew⟩, ?_⟩
    · exact hcontinues.isLive (hlive log hlog d hd)
    · rw [hadded, hdiagnostics, List.flatMap_append, List.flatMap_singleton]
      congr 1
      exact List.flatMap_congr fun log hlog ↦
        (warnings_of_continues hcontinues (hlive log hlog)).symm

/-- Packages that load declare something. -/
theorem exists_declares {packages : List Package} {loaded : Loaded}
    (h : load packages = .ok loaded) : ∃ logs, Declares packages logs := by
  induction packages using List.reverseRecOn generalizing loaded with
  | nil => exact ⟨[], .none⟩
  | append_singleton packages package ih =>
    obtain ⟨small, hsmall, hadd⟩ := load_concat_eq_ok_iff.1 h
    obtain ⟨logs, hlogs⟩ := ih hsmall
    obtain ⟨scanned, stats, _, _, hscan, -⟩ := Loaded.add_eq_ok_iff.1 hadd
    obtain ⟨documents, hfiles, -⟩ := Content.addFiles_eq_ok_iff.1 ⟨stats, hscan⟩
    exact ⟨_, .add hlogs hsmall hfiles⟩

/-- Two files of one package: the second enters the block again and declares its parameter and its
property once more, the property twice. -/
def repeatingPackage : Package :=
  ⟨"core", [⟨"units.def", ["unit:guard(hp = 1) \x7b", "  rank = 1", "\x7d"]⟩,
    ⟨"more.def", ["", "guard \x7b", "  parameter:hp = 2; rank = 2", "  rank = 3", "\x7d"]⟩]⟩

end ModContent
