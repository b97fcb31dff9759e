import ModContent.Project.Layout
import ModContent.Proofs.Disk.Written

/-!
# Id files and manifests on the disk

What was written to a path is read back there, if the format gives it back
(`IdFile.readFrom_of_writeText`). A write that does not go through
either found no place for the file and changed nothing, or was broken off by the device
(`IdFile.writeTo_cases`).
-/

namespace ModContent

variable {d d' : Disk} {path : String}

namespace IdFile

variable [Format IdFile] {f : IdFile}

/-- What writing an id file comes to. -/
theorem writeTo_cases (f : IdFile) (d : Disk) (path : String) :
    (∃ error, d.target path = .error error ∧
        f.writeTo d path = (d, .error (.io path error.message))) ∨
      (∃ d', d.writeText path f.text = .ok d' ∧ f.writeTo d path = (d', .ok ())) ∨
      ∃ report d', d.BrokenOff path f.text report d' ∧
        f.writeTo d path = (d', .error (.io path report)) := by
  rw [writeTo]
  obtain ⟨error, htarget, hsave⟩ | ⟨d', hwrite, hsave⟩ | ⟨report, d', hbroken, hsave⟩ :=
    d.save_cases path f.text
  · exact .inl ⟨error, htarget, by rw [hsave]; rfl⟩
  · exact .inr (.inl ⟨d', hwrite, by rw [hsave]; rfl⟩)
  · exact .inr (.inr ⟨report, d', hbroken, by rw [hsave]; rfl⟩)

/-- What was written is read back. -/
theorem readFrom_of_writeText (hf : f.ReadsBack) (h : d.writeText path f.text = .ok d') :
    readFrom d' path = .ok f := by
  obtain ⟨hexists, hread⟩ := Disk.readText_of_writeText h
  rw [readFrom, if_pos hexists, hread]
  dsimp only
  rw [hf]

end IdFile

namespace Manifest

variable [Format Manifest] {m : Manifest}

/-- When writing a manifest goes through. -/
theorem writeTo_eq_ok_iff : (m.writeTo d path).2 = .ok () ↔
    (∃ place, d.target path = .ok place) ∧ ¬ d.BreaksOff path m.text := by
  rw [writeTo, ← Disk.save_eq_ok_iff]
  exact mapError_eq_ok_iff

/-- The text is then in the file. -/
theorem writeText_of_writeTo (h : m.writeTo d path = (d', .ok ())) :
    d.writeText path m.text = .ok d' := by
  rw [writeTo] at h
  obtain ⟨_, -, hsave⟩ | ⟨_, hwrite, hsave⟩ | ⟨_, _, -, hsave⟩ := d.save_cases path m.text
  · rw [hsave] at h
    cases h
  · rw [hsave] at h
    obtain ⟨rfl, -⟩ := Prod.mk.inj h
    exact hwrite
  · rw [hsave] at h
    cases h

end Manifest

end ModContent
