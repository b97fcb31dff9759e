import ModContent.Proofs.Source.Progress
import ModContent.Proofs.Source.Normalized

/-!
# Splitting a file

A scan that reads a closed text without failing is at rest behind it: no text waits and no block is
open (`Scan.foldlM_of_run`). From there on the offsets decide nothing but where findings and
failures are located. So two scans go the same way if they agree on the rest (`Scan.Alike`): their
contents are the same up to locations, blocks at the same nodes are open, the same text waits, and
the counts of the second are those of the first, merged to what was counted before. That is how a
scan that starts behind the first part of a file compares with one of the whole file
(`Scan.agree_of_run`), whether the rest fails or not.

Main statement: `scanFile_split`.
-/

namespace ModContent

open Scan (IsDelimiter)

/-! ### Content without locations -/

/-- A location to stand for all. -/
def Location.somewhere : Location := ⟨"", 0⟩

def Reference.unlocated (r : Reference) : Reference := { r with location := .somewhere }

def Diagnostic.unlocated (d : Diagnostic) : Diagnostic :=
  { d with location := d.location.map fun _ ↦ .somewhere }

namespace Content

def unlocated (content : Content) : Content :=
  { content with
    queue := content.queue.map Reference.unlocated
    diagnostics := content.diagnostics.map Diagnostic.unlocated }

/-- A queue is cancelled in by places, whatever the locations. -/
theorem map_unlocated_cancel (queue : List Reference) (place : NodeId × Nat) :
    (Reference.cancel queue place).map Reference.unlocated =
      Reference.cancel (queue.map Reference.unlocated) place := by
  rw [Reference.cancel, Reference.cancel, List.filter_map]
  rfl

/-- Where a statement stands changes locations only. -/
theorem unlocated_declare (content : Content) (id : NodeId) (s : Statement) (location : Location) :
    (content.declare id s location).unlocated =
      content.unlocated.declare id s .somewhere := by
  have htree : content.unlocated.tree = content.tree := rfl
  have hdeclared : content.unlocated.declared = content.declared := rfl
  rw [declare, declare, htree, hdeclared]
  cases content.tree.node? id with
  | none => rfl
  | some node =>
    rcases s with ⟨key, values | path⟩
    all_goals
      simp only [unlocated, mk.injEq, true_and]
      refine ⟨?_, ?_⟩
      · split <;> simp [map_unlocated_cancel, Reference.unlocated]
      · split <;> simp [Diagnostic.unlocated, redeclared]

end Content

/-! ### Scans that go the same way -/

namespace ScanStats

variable (a b : ScanStats)

theorem zero_merge : zero.merge b = b := by
  simp [merge, zero]

theorem merge_zero : a.merge zero = a := by
  simp [merge, zero]

theorem merge_addDeclaration (s : Statement) :
    (a.merge b).addDeclaration s = a.merge (b.addDeclaration s) := by
  rcases s with ⟨key, values | path⟩
  all_goals simp [addDeclaration, merge, Nat.add_assoc]

theorem merge_addBlock (depth : Nat) :
    (a.merge b).addBlock depth = a.merge (b.addBlock depth) := by
  simp [addBlock, merge, Nat.add_assoc, Nat.max_assoc]

end ScanStats

namespace Scan

/-- Two scans that go the same way from here, the second with these counts before. -/
structure Alike (counted : ScanStats) (s s' : Scan) : Prop where
  content : s'.content.unlocated = s.content.unlocated
  nodes : s'.blocks.map OpenBlock.node = s.blocks.map OpenBlock.node
  pending : s'.pending = s.pending
  stats : s'.stats = counted.merge s.stats

/-- Two steps lead to scans that go the same way, or fail with one fault. -/
inductive Agree (counted : ScanStats) : Step → Step → Prop
  | ok {s s' : Scan} (alike : Alike counted s s') : Agree counted (.ok s) (.ok s')
  | error {offset offset' : Nat} {reached reached' : Content} (fault : ScanFault)
      (content : reached'.unlocated = reached.unlocated) :
      Agree counted (.error (⟨offset, fault⟩, reached)) (.error (⟨offset', fault⟩, reached'))

variable {counted : ScanStats} {s s' : Scan} {locate locate' : Nat → Location}

theorem Agree.bind {x x' : Step} {f f' : Scan → Step} (h : Agree counted x x')
    (hf : ∀ s s', Alike counted s s' → Agree counted (f s) (f' s')) :
    Agree counted (x >>= f) (x' >>= f') := by
  cases h with
  | ok alike => exact hf _ _ alike
  | error fault content => exact .error fault content

namespace Alike

/-- Scans that are alike have the same text before them. -/
theorem text (h : Alike counted s s') : s'.text = s.text := by
  rw [Scan.text, Scan.text, h.pending]

theorem scope (h : Alike counted s s') : s'.scope = s.scope := by
  have hhead := congrArg List.head? h.nodes
  rw [List.head?_map, List.head?_map] at hhead
  rw [Scan.scope, Scan.scope, hhead]

theorem length (h : Alike counted s s') : s'.blocks.length = s.blocks.length := by
  simpa using congrArg List.length h.nodes

/-- Either no block is open in both, or one is, at one node. -/
theorem blocks_cases (h : Alike counted s s') : (s.blocks = [] ∧ s'.blocks = []) ∨
    ∃ b blocks b' blocks', s.blocks = b :: blocks ∧ s'.blocks = b' :: blocks' ∧
      b'.node = b.node ∧ blocks'.map OpenBlock.node = blocks.map OpenBlock.node := by
  have hnodes := h.nodes
  rcases hblocks : s.blocks with - | ⟨b, blocks⟩
  · rw [hblocks, List.map_nil, List.map_eq_nil_iff] at hnodes
    exact .inl ⟨rfl, hnodes⟩
  · rw [hblocks, List.map_cons, List.map_eq_cons_iff] at hnodes
    obtain ⟨b', blocks', hblocks', hnode, hrest⟩ := hnodes
    exact .inr ⟨b, blocks, b', blocks', rfl, hblocks', hnode, hrest⟩

theorem tree (h : Alike counted s s') : s'.content.tree = s.content.tree :=
  (Content.mk.inj h.content).1

/-- A declaration leaves scans that are alike so, wherever it stands. -/
theorem declare (h : Alike counted s s') (locate locate' : Nat → Location) (id : NodeId)
    (statement : Statement) :
    Alike counted (s.declare locate id statement) (s'.declare locate' id statement) where
  content := by
    show (Content.declare _ _ _ _).unlocated = (Content.declare _ _ _ _).unlocated
    rw [Content.unlocated_declare, Content.unlocated_declare, h.content]
  nodes := h.nodes
  pending := h.pending
  stats := by
    show s'.stats.addDeclaration statement = counted.merge (s.stats.addDeclaration statement)
    rw [h.stats, ScanStats.merge_addDeclaration]

theorem declareAll (h : Alike counted s s') (locate locate' : Nat → Location) (id : NodeId)
    (statements : List Statement) :
    Alike counted (statements.foldl (Scan.declare locate id) s)
      (statements.foldl (Scan.declare locate' id) s') := by
  induction statements generalizing s s' with
  | nil => exact h
  | cons statement rest ih => exact ih (h.declare locate locate' id statement)

/-! ### What a character does -/

/-- Scans that are alike read the same statement or fail with the same fault. -/
theorem flush (h : Alike counted s s') : Agree counted (s.flush locate) (s'.flush locate') := by
  rw [Scan.flush, Scan.flush, h.pending, h.text, h.scope]
  split
  · exact .ok h
  · cases Statement.read s.text none with
    | error fault => exact .error _ h.content
    | ok statement =>
      have hdeclared := h.declare locate locate' s.scope statement
      exact .ok ⟨hdeclared.content, hdeclared.nodes, rfl, hdeclared.stats⟩

theorem openBlock (h : Alike counted s s') :
    Agree counted (s.openBlock locate) (s'.openBlock locate') := by
  rw [Scan.openBlock, Scan.openBlock, h.text]
  cases Header.read s.text with
  | error fault => exact .error _ h.content
  | ok header =>
    simp only [h.tree, h.scope, List.length_cons, h.length]
    obtain ⟨id, tree⟩ := s.content.tree.childOrCreate s.scope header.key
    have hentered : Alike counted { s with content := { s.content with tree } }
        { s' with content := { s'.content with tree } } := by
      refine ⟨?_, h.nodes, h.pending, h.stats⟩
      have hsame : { s'.content.unlocated with tree } = { s.content.unlocated with tree } := by
        rw [h.content]
      exact hsame
    have hdeclared := hentered.declareAll locate locate' id header.parameters
    refine .ok ⟨hdeclared.content, ?_, rfl, ?_⟩
    · simp [h.nodes]
    · show ScanStats.addBlock _ _ = counted.merge (ScanStats.addBlock _ _)
      rw [hdeclared.stats, ScanStats.merge_addBlock]

theorem closeBlock (h : Alike counted s s') :
    Agree counted (s.closeBlock locate) (s'.closeBlock locate') := by
  refine h.flush.bind fun t t' ht ↦ ?_
  obtain ⟨hnone, hnone'⟩ | ⟨b, blocks, b', blocks', hsome, hsome', -, hrest⟩ := ht.blocks_cases
  · simp only [hnone, hnone']
    exact .error _ ht.content
  · simp only [hsome, hsome']
    exact .ok ⟨ht.content, hrest, ht.pending, ht.stats⟩

theorem keep (h : Alike counted s s') (c : Char) : Alike counted (s.keep c) (s'.keep c) :=
  ⟨h.content, h.nodes, congrArg (c :: ·) h.pending, h.stats⟩

theorem step (h : Alike counted s s') (c : Char) :
    Agree counted (s.step locate c) (s'.step locate' c) := by
  rw [Scan.step, Scan.step]
  have hmoved : ∀ t t', Alike counted t t' →
      Agree counted (.ok { t with offset := t.offset + c.utf8Size })
        (.ok { t' with offset := t'.offset + c.utf8Size }) :=
    fun t t' ht ↦ .ok ⟨ht.content, ht.nodes, ht.pending, ht.stats⟩
  split
  · exact h.openBlock.bind hmoved
  · split
    · exact h.closeBlock.bind hmoved
    · split
      · exact h.flush.bind hmoved
      · exact hmoved _ _ (h.keep c)

/-! ### What a text does -/

theorem foldlM_step (h : Alike counted s s') (text : List Char) :
    Agree counted (text.foldlM (Scan.step locate) s) (text.foldlM (Scan.step locate') s') := by
  induction text generalizing s s' with
  | nil => exact .ok h
  | cons c rest ih =>
    rw [List.foldlM_cons, List.foldlM_cons]
    exact (h.step c).bind fun t t' ht ↦ ih ht

theorem finish (h : Alike counted s s') : Agree counted (s.finish locate) (s'.finish locate') := by
  refine h.flush.bind fun t t' ht ↦ ?_
  have hlength := ht.length
  obtain ⟨hnone, hnone'⟩ | ⟨b, blocks, b', blocks', hsome, hsome', hnode, -⟩ := ht.blocks_cases
  · simp only [hnone, hnone']
    exact .ok ht
  · rw [hsome, hsome'] at hlength
    simp only [hsome, hsome', hnode, hlength, ht.tree]
    exact .error _ ht.content

theorem run (h : Alike counted s s') (text : List Char) :
    Agree counted (s.run locate text) (s'.run locate' text) :=
  (h.foldlM_step text).bind fun _ _ ht ↦ ht.finish

end Alike

/-! ### Behind a closed text -/

/-- A delimiter leaves no text waiting. -/
theorem pending_of_flush {next : Scan} (h : s.flush locate = .ok next) : next.pending = [] := by
  rw [flush] at h
  split at h
  · next hempty =>
    obtain rfl := Except.ok.inj h
    exact List.isEmpty_iff.1 hempty
  · split at h
    · cases h
    · obtain rfl := Except.ok.inj h
      rfl

theorem pending_of_openBlock {next : Scan} (h : s.openBlock locate = .ok next) :
    next.pending = [] := by
  rw [openBlock] at h
  split at h
  · cases h
  · obtain rfl := Except.ok.inj h
    rfl

theorem pending_of_closeBlock {next : Scan} (h : s.closeBlock locate = .ok next) :
    next.pending = [] := by
  obtain ⟨flushed, hflush, h⟩ := bind_eq_ok_iff.1 h
  split at h
  · cases h
  · obtain rfl := Except.ok.inj h
    have hpending := pending_of_flush hflush
    exact hpending

/-- Nothing is left over behind a delimiter, whichever it is. -/
theorem pending_of_step {c : Char} (hc : IsDelimiter c) {next : Scan}
    (h : step locate s c = .ok next) : next.pending = [] := by
  -- the offset moves on after the delimiter has done its work
  have hmoved : ∀ {x : Step}, (∀ s, x = .ok s → s.pending = []) →
      x.map (fun s ↦ { s with offset := s.offset + 1 }) = .ok next → next.pending = [] := by
    intro x hx hnext
    cases x with
    | error failure => cases hnext
    | ok s =>
      obtain rfl := Except.ok.inj hnext
      exact hx s rfl
  rcases hc with rfl | rfl | rfl
  · rw [step_open] at h
    exact hmoved (fun _ ↦ pending_of_openBlock) h
  · rw [step_close] at h
    exact hmoved (fun _ ↦ pending_of_closeBlock) h
  · rw [step_semicolon] at h
    exact hmoved (fun _ ↦ pending_of_flush) h

/-- A closed text leaves no text waiting. -/
theorem pending_of_foldlM {text : List Char} (hclosed : Closed text) (hs : s.pending = [])
    {next : Scan} (h : text.foldlM (step locate) s = .ok next) : next.pending = [] := by
  rcases List.eq_nil_or_concat text with rfl | ⟨before, d, rfl⟩
  · obtain rfl := Except.ok.inj h
    exact hs
  · rw [List.concat_eq_append] at h hclosed
    rw [List.foldlM_append] at h
    obtain ⟨reached, -, h⟩ := bind_eq_ok_iff.1 h
    rw [List.foldlM_cons] at h
    obtain ⟨last, hlast, h⟩ := bind_eq_ok_iff.1 h
    obtain rfl := Except.ok.inj h
    exact pending_of_step (hclosed d (by simp)) hlast

/-- A scan that reads a closed text to its end is at rest behind it: no text waits and no block is
open. -/
theorem foldlM_of_run {text : List Char} (hclosed : Closed text) (hs : s.pending = [])
    {next : Scan} (h : s.run locate text = .ok next) :
    text.foldlM (step locate) s = .ok next ∧ next.pending = [] ∧ next.blocks = [] := by
  obtain ⟨reached, hreached, h⟩ := bind_eq_ok_iff.1 h
  have hpending := pending_of_foldlM hclosed hs hreached
  rw [finish, flush_of_pending_eq_nil hpending] at h
  obtain ⟨flushed, hflushed, h⟩ := bind_eq_ok_iff.1 h
  obtain rfl := Except.ok.inj hflushed
  split at h
  · next hblocks =>
    obtain rfl := Except.ok.inj h
    exact ⟨hreached, hpending, hblocks⟩
  · cases h

/-- What stands behind a text is scanned from where the scan of the text has got to. -/
theorem run_append (s : Scan) (text rest : List Char) :
    s.run locate (text ++ rest) =
      text.foldlM (step locate) s >>= fun next ↦ next.run locate rest := by
  rw [run, List.foldlM_append, bind_assoc]
  rfl

end Scan

/-- **A scan restarts behind a closed text**, however what it reads is located. -/
theorem Scan.agree_of_run {content : Content} {locate locate' again : Nat → Location}
    {text : List Char} (hclosed : Closed text) {next : Scan}
    (h : (Scan.start content).run locate text = .ok next) (rest : List Char) :
    Scan.Agree next.stats ((Scan.start next.content).run again rest)
      ((Scan.start content).run locate' (text ++ rest)) := by
  obtain ⟨hread, hpending, hblocks⟩ := Scan.foldlM_of_run hclosed rfl h
  have hstart : Scan.Alike .zero (Scan.start content) (Scan.start content) :=
    ⟨rfl, rfl, rfl, (ScanStats.zero_merge _).symm⟩
  have hagree : Scan.Agree .zero (text.foldlM (Scan.step locate) (Scan.start content))
      (text.foldlM (Scan.step locate') (Scan.start content)) := hstart.foldlM_step text
  rw [hread] at hagree
  rw [Scan.run_append]
  generalize text.foldlM (Scan.step locate') (Scan.start content) = joint at hagree ⊢
  cases hagree with
  | @ok _ reached alike =>
    have hrestart : Scan.Alike next.stats (Scan.start next.content) reached := by
      refine ⟨alike.content, ?_, ?_, ?_⟩
      · rw [alike.nodes, hblocks]
        rfl
      · rw [alike.pending, hpending]
        rfl
      · rw [alike.stats, ScanStats.zero_merge]
        exact (ScanStats.merge_zero _).symm
    exact hrestart.run rest

/-! ### Lines -/

open NormalizedSource in
/-- Lines make a closed text, unless they end in an equals sign. -/
theorem closed_normalize_text {lines : List (List Char)}
    (h : (normalize lines).text.getLast? ≠ some '=') : Closed (normalize lines).text := by
  intro c hc
  have hends := endsStatement_of_mem_getLast?_normalize hc
  simp only [endsStatement, Bool.or_eq_true, beq_iff_eq] at hends
  rcases hends with ((rfl | rfl) | rfl) | rfl
  · exact .inr (.inr rfl)
  · exact .inl rfl
  · exact .inr (.inl rfl)
  · exact absurd hc h

/-- The scan of the second part of a file, after the first part with these counts, comes to the same
as the scan of the whole file. -/
structure SplitAgrees (counted : ScanStats)
    (second whole : Content × Except ContentError ScanStats) : Prop where
  tree : second.1.tree = whole.1.tree
  declared : second.1.declared = whole.1.declared
  queue : second.1.queue.map Reference.unlocated = whole.1.queue.map Reference.unlocated
  diagnostics :
    second.1.diagnostics.map Diagnostic.unlocated = whole.1.diagnostics.map Diagnostic.unlocated
  outcome : (∃ stats, second.2 = .ok stats ∧ whole.2 = .ok (counted.merge stats)) ∨
    ∃ place place' note, second.2 = .error (.parse place note) ∧
      whole.2 = .error (.parse place' note)

/-- **Splitting a file changes nothing.** Where the first lines of a file do not end in an equals
sign and are scanned without failure, scanning them and then the other lines comes to the same as
scanning all lines in one file: the content is the same up to locations, the counts add up, and a
failure has the same note. -/
theorem scanFile_split (content : Content) (first second whole : String)
    (xs ys : List (List Char)) {counted : ScanStats}
    (hscan : (scanFile content first (normalize xs)).2 = .ok counted)
    (hends : (normalize xs).text.getLast? ≠ some '=') :
    SplitAgrees counted
      (scanFile (scanFile content first (normalize xs)).1 second (normalize ys))
      (scanFile content whole (normalize (xs ++ ys))) := by
  cases hrun : (Scan.start content).run ((normalize xs).locate first) (normalize xs).text with
  | error failure =>
    rw [scanFile, hrun] at hscan
    cases hscan
  | ok next =>
    have hfirst : scanFile content first (normalize xs) = (next.content, .ok next.stats) := by
      rw [scanFile, hrun]
    rw [hfirst] at hscan ⊢
    obtain rfl := Except.ok.inj hscan
    have hagree : Scan.Agree next.stats
        ((Scan.start next.content).run ((normalize ys).locate second) (normalize ys).text)
        ((Scan.start content).run ((normalize (xs ++ ys)).locate whole)
          ((normalize xs).text ++ (normalize ys).text)) :=
      Scan.agree_of_run (closed_normalize_text hends) hrun _
    rw [← normalize_text_append] at hagree
    rw [scanFile, scanFile]
    generalize (Scan.start next.content).run _ _ = part at hagree ⊢
    generalize (Scan.start content).run _ _ = joint at hagree ⊢
    cases hagree with
    | ok alike =>
      obtain ⟨htree, hqueue, hdeclared, hdiagnostics⟩ := Content.mk.inj alike.content
      exact ⟨htree.symm, hdeclared.symm, hqueue.symm, hdiagnostics.symm,
        .inl ⟨_, rfl, congrArg Except.ok alike.stats⟩⟩
    | error fault reached =>
      obtain ⟨htree, hqueue, hdeclared, hdiagnostics⟩ := Content.mk.inj reached
      exact ⟨htree.symm, hdeclared.symm, hqueue.symm, hdiagnostics.symm, .inr ⟨_, _, _, rfl, rfl⟩⟩

/-- A file that waits for a reference. -/
def waitingLines : List (List Char) :=
  ["unit:archer \x7b", "  hp = @base", "\x7d"].map String.toList

/-- Lines that declare the property again, in the block entered again. -/
def againLines : List (List Char) := ["unit:archer \x7b hp = 4 \x7d"].map String.toList

/-- Two files against one with the lines of both, where the second declares something again. -/
theorem scanFile_split_of_redeclared :
    (scanFile (Content.start ContentTree.new []) "a.def" (normalize waitingLines)).2 =
        .ok ⟨1, 1, 1, 1⟩ ∧
      (normalize waitingLines).text.getLast? ≠ some '=' ∧
      SplitAgrees ⟨1, 1, 1, 1⟩
        (scanFile (scanFile (Content.start ContentTree.new []) "a.def" (normalize waitingLines)).1
          "b.def" (normalize againLines))
        (scanFile (Content.start ContentTree.new []) "c.def"
          (normalize (waitingLines ++ againLines))) := by
  have hscan : (scanFile (Content.start ContentTree.new []) "a.def" (normalize waitingLines)).2 =
      .ok ⟨1, 1, 1, 1⟩ := by
    decide +kernel
  have hends : (normalize waitingLines).text.getLast? ≠ some '=' := by decide +kernel
  exact ⟨hscan, hends, scanFile_split _ "a.def" "b.def" "c.def" waitingLines againLines hscan hends⟩

end ModContent
