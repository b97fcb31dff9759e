import ModContent.Proofs.Source.DocumentTexts
import ModContent.Proofs.Source.Evaluation

/-!
# The documents of a package

A package is scanned without failure if and only if each of its files is a text of some document,
and then the scan evaluates these documents one after the other (`Content.addFiles_eq_ok_iff`).
Whether a package is accepted does not depend on the content that it is scanned into.
-/

namespace ModContent

open Content (Logs)

/-- A file with the document that it is a text of. -/
structure FileDocument where
  file : SourceFile
  items : List Item
  renders : Renders 0 items (normalize (file.lines.map String.toList)).text

namespace FileDocument

/-- The places that the lines of the file have. -/
def locate (d : FileDocument) : Nat → Location :=
  (normalize (d.file.lines.map String.toList)).locate d.file.path

end FileDocument

namespace Content

/-- Evaluates documents one after the other, each below the root. -/
def evaluateDocuments (content : Content) (documents : List FileDocument) : Content :=
  documents.foldl (fun content d ↦ Item.evaluateAll d.locate ContentTree.root content d.items)
    content

/-- Adding the file of a document evaluates its items from the root. -/
theorem addFile_document (content : Content) (d : FileDocument) :
    ∃ stats, content.addFile d.file =
      (Item.evaluateAll d.locate ContentTree.root content d.items, .ok stats) :=
  scanFile_renders content d.file.path d.renders

/-- The documents of files are evaluated by scanning the files. -/
theorem addFiles_documents (content : Content) (documents : List FileDocument)
    (stats : ScanStats) : ∃ total, content.addFiles (documents.map FileDocument.file) stats =
      (content.evaluateDocuments documents, .ok total) := by
  induction documents generalizing content stats with
  | nil => exact ⟨stats, rfl⟩
  | cons d rest ih =>
    obtain ⟨added, hadded⟩ := content.addFile_document d
    rw [List.map_cons, addFiles, hadded]
    exact ih _ (stats.merge added)

/-- **A package is scanned** if each of its files is a text of a document. -/
theorem addFiles_eq_ok_iff {content scanned : Content} {files : List SourceFile}
    {stats : ScanStats} : (∃ total, content.addFiles files stats = (scanned, .ok total)) ↔
      ∃ documents, documents.map FileDocument.file = files ∧
        content.evaluateDocuments documents = scanned := by
  constructor
  · rintro ⟨total, h⟩
    induction files generalizing content stats with
    | nil => exact ⟨[], rfl, (Prod.mk.inj h).1⟩
    | cons file files ih =>
      rw [addFiles] at h
      split at h
      · cases (Prod.mk.inj h).2
      · next grown added heq =>
        obtain ⟨items, hrenders⟩ := (accepted_iff_exists_renders content file.path
          (normalize (file.lines.map String.toList))).1 ⟨added, congrArg Prod.snd heq⟩
        obtain ⟨documents, hfiles, hscanned⟩ := ih h
        obtain ⟨_, hadded⟩ := content.addFile_document ⟨file, items, hrenders⟩
        obtain ⟨rfl, -⟩ := Prod.mk.inj (heq.symm.trans hadded)
        exact ⟨⟨file, items, hrenders⟩ :: documents, by rw [List.map_cons, hfiles], hscanned⟩
  · rintro ⟨documents, rfl, rfl⟩
    exact content.addFiles_documents documents stats

end Content

end ModContent
