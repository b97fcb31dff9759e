import ModContent.Package
import ModContent.Proofs.Grammar.Vocabulary
import ModContent.Proofs.Source.Normalized
import ModContent.Proofs.Source.Declare
import ModContent.Proofs.Source.Steps

/-!
# What a scan keeps

A scan touches the content in two ways only: it makes a child under a key that it has read below a
live node, and it declares a statement that it has read in a live node. So a property of contents
that both keep (`Content.Preserved`) holds of what a scan reaches, whether it fails or not
(`Content.Preserved.scanFile`), and whatever the lines of the files are
(`Content.Preserved.addFiles`). What is known of the keys and statements depends on the vocabulary.
-/

namespace ModContent

namespace Content

/-- A property of contents that is kept by entering blocks and by declaring statements. -/
structure Preserved (v : Vocabulary) (P : Content → Prop) : Prop where
  grown : ∀ {content}, P content → content.tree.Grown
  enter : ∀ {content id key}, P content → content.tree.isLive id → v.key key →
    P { content with tree := (content.tree.childOrCreate id key).2 }
  declare : ∀ {content id} {s : Statement} {location}, P content → content.tree.isLive id →
    v.statement s → P (content.declare id s location)

end Content

namespace Scan

variable {v : Vocabulary} {P : Content → Prop} {s : Scan}

/-- The content has the property, the open blocks are live, and the pending text is in the
vocabulary. -/
structure Holds (v : Vocabulary) (P : Content → Prop) (s : Scan) : Prop where
  content : P s.content
  blocks : ∀ b ∈ s.blocks, s.content.tree.isLive b.node
  pending : ∀ c ∈ s.pending, v.char c

/-- The same of the outcome of a step, and of the content reached if it failed. -/
def Ends (v : Vocabulary) (P : Content → Prop) : Step → Prop
  | .ok s => s.Holds v P
  | .error (_, reached) => P reached

/-- A last change that keeps what holds does so for every outcome. -/
theorem Ends.map {result : Step} (h : Ends v P result) {f : Scan → Scan}
    (hf : ∀ s, s.Holds v P → (f s).Holds v P) : Ends v P (result.map f) := by
  cases result with
  | ok s => exact hf s h
  | error failure => exact h

/-- A failed step reaches what the rest of the run would have started from. -/
theorem Ends.bind {result : Step} (h : Ends v P result) {f : Scan → Step}
    (hf : ∀ s, s.Holds v P → Ends v P (f s)) : Ends v P (result >>= f) := by
  cases result with
  | ok s => exact hf s h
  | error failure => exact h

theorem Holds.moved (h : s.Holds v P) (offset : Nat) : Holds v P { s with offset } :=
  ⟨h.content, h.blocks, h.pending⟩

namespace Holds

variable (hP : Content.Preserved v P) (locate : Nat → Location)
include hP

theorem isLive_scope (h : s.Holds v P) : s.content.tree.isLive s.scope = true := by
  rw [scope]
  cases hblocks : s.blocks with
  | nil => exact (hP.grown h.content).linked.live
  | cons b blocks =>
    have hb : b ∈ s.blocks := by
      rw [hblocks]
      exact List.mem_cons_self
    exact h.blocks b hb

theorem declare (h : s.Holds v P) {id : NodeId} (hid : s.content.tree.isLive id)
    {statement : Statement} (hs : v.statement statement) :
    Holds v P (s.declare locate id statement) := by
  refine ⟨hP.declare h.content hid hs, fun b hb ↦ ?_, h.pending⟩
  show (s.content.declare id statement _).tree.isLive b.node = true
  rw [Content.isLive_declare]
  exact h.blocks b hb

theorem foldl_declare (h : s.Holds v P) {id : NodeId} (hid : s.content.tree.isLive id)
    {statements : List Statement} (hs : ∀ statement ∈ statements, v.statement statement) :
    Holds v P (statements.foldl (Scan.declare locate id) s) ∧
      (statements.foldl (Scan.declare locate id) s).content.tree.isLive id = true := by
  induction statements generalizing s with
  | nil => exact ⟨h, hid⟩
  | cons statement rest ih =>
    obtain ⟨hstatement, hrest⟩ := List.forall_mem_cons.1 hs
    rw [List.foldl_cons]
    refine ih (declare hP locate h hid hstatement) ?_ hrest
    show (s.content.declare id statement _).tree.isLive id = true
    rwa [Content.isLive_declare]

/-- The pending text is made a statement. -/
theorem flush (h : s.Holds v P) : Ends v P (s.flush locate) := by
  rw [Scan.flush]
  split
  · exact h
  · cases hread : Statement.read s.text none with
    | error fault => exact h.content
    | ok statement =>
      have hstatement := v.read_statement hread
        fun c hc ↦ h.pending c (List.mem_reverse.1 hc)
      have hdeclared := declare hP locate h (isLive_scope hP h) hstatement
      exact ⟨hdeclared.content, hdeclared.blocks, List.forall_mem_nil _⟩

/-- The pending text is made a header, and its block is entered. -/
theorem openBlock (h : s.Holds v P) : Ends v P (s.openBlock locate) := by
  rw [Scan.openBlock]
  cases hread : Header.read s.text with
  | error fault => exact h.content
  | ok header =>
    obtain ⟨hkey, hparameters⟩ := v.read_header hread
      fun c hc ↦ h.pending c (List.mem_reverse.1 hc)
    have hgrown := hP.grown h.content
    have hscope := isLive_scope hP h
    -- the block is entered first, and its parameters are declared in it
    have hentered : Holds v P { s with content :=
        { s.content with tree := (s.content.tree.childOrCreate s.scope header.key).2 } } :=
      ⟨hP.enter h.content hscope hkey,
        fun b hb ↦ hgrown.linked.isLive_childOrCreate_of_isLive hscope _ (h.blocks b hb), h.pending⟩
    obtain ⟨hdeclared, hlive⟩ := foldl_declare hP locate hentered
      (hgrown.linked.isLive_childOrCreate hscope header.key) hparameters
    refine ⟨hdeclared.content, fun b hb ↦ ?_, List.forall_mem_nil _⟩
    rcases List.mem_cons.1 hb with rfl | hb
    · exact hlive
    · refine hdeclared.blocks b ?_
      rw [Scan.foldl_declare]
      exact hb

theorem closeBlock (h : s.Holds v P) : Ends v P (s.closeBlock locate) := by
  rw [Scan.closeBlock]
  refine (flush hP locate h).bind fun next hnext ↦ ?_
  rcases hblocks : next.blocks with - | ⟨b, blocks⟩
  · exact hnext.content
  · refine ⟨hnext.content, fun b' hb' ↦ hnext.blocks b' ?_, hnext.pending⟩
    rw [hblocks]
    exact List.mem_cons_of_mem _ hb'

theorem step (h : s.Holds v P) {c : Char} (hc : ¬ IsDelimiter c → v.char c) :
    Ends v P (step locate s c) := by
  by_cases hdelimiter : IsDelimiter c
  · rcases hdelimiter with rfl | rfl | rfl
    · rw [step_open]
      exact (openBlock hP locate h).map fun s hs ↦ hs.moved _
    · rw [step_close]
      exact (closeBlock hP locate h).map fun s hs ↦ hs.moved _
    · rw [step_semicolon]
      exact (flush hP locate h).map fun s hs ↦ hs.moved _
  · rw [step_of_not_isDelimiter hdelimiter]
    exact ⟨h.content, h.blocks, List.forall_mem_cons.2 ⟨hc hdelimiter, h.pending⟩⟩

theorem foldlM (h : s.Holds v P) {text : List Char}
    (htext : ∀ c ∈ text, ¬ IsDelimiter c → v.char c) :
    Ends v P (text.foldlM (Scan.step locate) s) := by
  induction text generalizing s with
  | nil => exact h
  | cons c rest ih =>
    obtain ⟨hc, hrest⟩ := List.forall_mem_cons.1 htext
    rw [List.foldlM_cons]
    exact (step hP locate h hc).bind fun next hnext ↦ ih hnext hrest

theorem finish (h : s.Holds v P) : Ends v P (s.finish locate) := by
  rw [Scan.finish]
  refine (flush hP locate h).bind fun next hnext ↦ ?_
  rcases next.blocks with - | ⟨innermost, blocks⟩
  · exact hnext
  · exact hnext.content

theorem run (h : s.Holds v P) {text : List Char}
    (htext : ∀ c ∈ text, ¬ IsDelimiter c → v.char c) : Ends v P (s.run locate text) := by
  rw [Scan.run]
  exact (foldlM hP locate h htext).bind fun next hnext ↦ finish hP locate hnext

end Holds

end Scan

/-- The texts of normalized lines are plain. -/
theorem isPlain_of_mem_normalize {lines : List (List Char)} {c : Char}
    (hc : c ∈ (normalize lines).text) (hdelimiter : ¬ Scan.IsDelimiter c) : IsPlain c := by
  obtain ⟨hblank, hsign⟩ := mem_normalize_text hc
  simp only [Scan.IsDelimiter, not_or] at hdelimiter
  exact ⟨hblank, hsign, hdelimiter⟩

namespace Content.Preserved

variable {v : Vocabulary} {P : Content → Prop} {content : Content}

/-- A scan keeps the property, whatever its outcome. -/
theorem scanFile (hP : Preserved v P) (h : P content) (file : String) (source : NormalizedSource)
    (hsource : ∀ c ∈ source.text, ¬ Scan.IsDelimiter c → v.char c) :
    P (ModContent.scanFile content file source).1 := by
  have hstart : (Scan.start content).Holds v P :=
    ⟨h, List.forall_mem_nil _, List.forall_mem_nil _⟩
  have hrun := Scan.Holds.run hP (source.locate file) hstart hsource
  rw [ModContent.scanFile]
  cases hresult : (Scan.start content).run (source.locate file) source.text with
  | error failure =>
    rw [hresult] at hrun
    exact hrun
  | ok s =>
    rw [hresult] at hrun
    exact hrun.content

theorem addFiles (hP : Preserved .plain P) (h : P content) (files : List SourceFile)
    (stats : ScanStats) : P (content.addFiles files stats).1 := by
  induction files generalizing content stats with
  | nil => exact h
  | cons file files ih =>
    have hfile : P (content.addFile file).1 :=
      hP.scanFile h file.path _ fun _ ↦ isPlain_of_mem_normalize
    rw [Content.addFiles]
    split
    · next reached error heq =>
      rw [heq] at hfile
      exact hfile
    · next grown added heq =>
      rw [heq] at hfile
      exact ih hfile (stats.merge added)

end Content.Preserved

end ModContent
