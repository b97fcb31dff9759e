import ModContent.Proofs.Source.Evaluation

/-!
# The log of a scan

A scan may fail, and then the content keeps what was done before. `Scan.log` lists the declarations
that a scan makes, in order and up to where it fails: a text that is made a statement declares it in
the innermost open block, and a header declares its parameters in the block that it enters. Nothing
else happens to the content but that blocks are entered, so whatever holds of a log
(`Content.Logs`) holds of scans, whether they fail or not (`Content.logs_scanAll`).

The sources of a package are scanned into the same content, one after the other.
-/

namespace ModContent

open Content (Logs)

/-- Live nodes stay live. -/
theorem Content.Logs.isLive {log : List Declaration} {start after : Content}
    (h : Logs start log after) (ht : start.tree.Linked) {id : NodeId}
    (hid : start.tree.isLive id) : after.tree.isLive id = true := by
  induction h with
  | refl => exact hid
  | enter before live key ih =>
    exact (before.linked ht).isLive_childOrCreate_of_isLive live key ih
  | declare _ _ ih => exact (Content.isLive_declare ..).trans ih

namespace Scan

variable {locate : Nat → Location} {s : Scan}

/-! ### Declarations -/

section

variable (locate : Nat → Location) (s : Scan)

/-- The declaration that the pending text makes as a statement; none if it cannot be read. -/
def flushLog : List Declaration :=
  match Statement.read s.text none with
  | .error _ => []
  | .ok statement => [⟨s.scope, statement, locate s.pendingStart⟩]

/-- The declarations that the pending text makes as a header. -/
def openLog : List Declaration :=
  match Header.read s.text with
  | .error _ => []
  | .ok header =>
    let id := (s.content.tree.childOrCreate s.scope header.key).1
    header.parameters.map fun parameter ↦ ⟨id, parameter, locate s.pendingStart⟩

/-- The declarations that a character leads to. -/
def stepLog (c : Char) : List Declaration :=
  if c = '{' then s.openLog locate
  else if c = '}' ∨ c = ';' then s.flushLog locate
  else []

end

/-- The declarations that a scan of a text makes, in order, up to where it fails. -/
def log (locate : Nat → Location) (s : Scan) : List Char → List Declaration
  | [] => s.flushLog locate
  | c :: rest => s.stepLog locate c ++
      match s.step locate c with
      | .ok next => next.log locate rest
      | .error _ => []

/-! ### Tracking a step -/

/-- The content that a step reached, whether it failed or not. -/
def reached : Step → Content
  | .ok s => s.content
  | .error (_, content) => content

/-- The tree is linked, and the open blocks are live. -/
structure Rooted (s : Scan) : Prop where
  linked : s.content.tree.Linked
  blocks : ∀ b ∈ s.blocks, s.content.tree.isLive b.node

/-- The log leads from a state to what a step reached, and the next state is rooted. -/
structure Tracks (s : Scan) (log : List Declaration) (result : Step) : Prop where
  logs : Logs s.content log (reached result)
  rooted : ∀ next, result = .ok next → next.Rooted

theorem rooted_start {content : Content} (ht : content.tree.Linked) : (start content).Rooted :=
  ⟨ht, List.forall_mem_nil _⟩

theorem Rooted.isLive_scope (h : s.Rooted) : s.content.tree.isLive s.scope = true := by
  rw [scope]
  cases hblocks : s.blocks with
  | nil => exact h.linked.live
  | cons b blocks => exact h.blocks b (hblocks ▸ List.mem_cons_self)

namespace Tracks

variable {log log' : List Declaration} {result : Step}

/-- A step that declares nothing is tracked by no declarations. -/
theorem ok (h : s.Rooted) : Tracks s [] (.ok s) :=
  ⟨.refl, fun _ hnext ↦ Except.ok.inj hnext ▸ h⟩

/-- A step that fails leaves the content to what was declared before. -/
theorem fail (offset : Nat) (fault : ScanFault) : Tracks s [] (s.fail offset fault) :=
  ⟨.refl, fun _ hnext ↦ nomatch hnext⟩

/-- A change that leaves the content and the blocks alone is not tracked. -/
theorem map (h : Tracks s log result) {f : Scan → Scan} (hcontent : ∀ s, (f s).content = s.content)
    (hblocks : ∀ s, (f s).blocks = s.blocks) : Tracks s log (result.map f) := by
  cases result with
  | error failure => exact ⟨h.logs, fun _ hnext ↦ nomatch hnext⟩
  | ok mid =>
    obtain ⟨hlinked, hlive⟩ := h.rooted mid rfl
    refine ⟨?_, fun next hnext ↦ ?_⟩
    · show Logs s.content log (f mid).content
      rw [hcontent]
      exact h.logs
    · obtain rfl := Except.ok.inj hnext
      refine ⟨?_, ?_⟩
      · rwa [hcontent]
      · rwa [hcontent, hblocks]

/-- A failed step has reached what the whole has reached. -/
theorem bind (h : Tracks s log result) {f : Scan → Step}
    (hf : ∀ next, result = .ok next → Tracks next log' (f next))
    (herror : ∀ failure, result = .error failure → log' = []) :
    Tracks s (log ++ log') (result >>= f) := by
  cases result with
  | ok mid =>
    obtain ⟨hlogs, hrooted⟩ := hf mid rfl
    exact ⟨h.logs.trans hlogs, hrooted⟩
  | error failure =>
    rw [herror failure rfl, List.append_nil]
    exact ⟨h.logs, fun _ hnext ↦ nomatch hnext⟩

end Tracks

/-! ### What each step declares -/

namespace Rooted

variable (locate)

/-- The pending text is made a statement. -/
theorem flush (h : s.Rooted) : Tracks s (s.flushLog locate) (s.flush locate) := by
  rw [Scan.flush]
  split
  · next hempty =>
    -- an empty text cannot be read
    have hnone : s.flushLog locate = [] := by
      rw [flushLog, text, List.isEmpty_iff.1 hempty]
      rfl
    rw [hnone]
    exact .ok h
  · cases hread : Statement.read s.text none with
    | error fault =>
      rw [flushLog, hread]
      exact .fail ..
    | ok statement =>
      rw [flushLog, hread]
      have hlogs : Logs s.content [⟨s.scope, statement, locate s.pendingStart⟩]
          (s.content.declare s.scope statement (locate s.pendingStart)) :=
        Logs.declare (d := ⟨s.scope, statement, locate s.pendingStart⟩) .refl h.isLive_scope
      refine ⟨hlogs, fun next hnext ↦ ?_⟩
      obtain rfl := Except.ok.inj hnext
      exact ⟨hlogs.linked h.linked, fun b hb ↦ (Content.isLive_declare ..).trans (h.blocks b hb)⟩

/-- The pending text is made a header, and its block is entered. -/
theorem openBlock (h : s.Rooted) : Tracks s (s.openLog locate) (s.openBlock locate) := by
  cases hread : Header.read s.text with
  | error fault =>
    rw [openLog, Scan.openBlock, hread]
    exact .fail ..
  | ok header =>
    rw [openLog, openBlock_eq hread, hread, entered_eq]
    have hlogs := Item.logs_enter locate h.isLive_scope h.linked s.pendingStart header
    have hentered := Item.linked_enter locate h.isLive_scope h.linked s.pendingStart header
    refine ⟨hlogs, fun next hnext ↦ ?_⟩
    obtain rfl := Except.ok.inj hnext
    refine ⟨hentered.1, List.forall_mem_cons.2 ⟨hentered.2, fun b hb ↦ ?_⟩⟩
    exact hlogs.isLive h.linked (h.blocks b hb)

/-- Once the pending text is a statement, the innermost block is left. -/
theorem closeBlock (h : s.Rooted) : Tracks s (s.flushLog locate) (s.closeBlock locate) := by
  rw [Scan.closeBlock, ← List.append_nil (s.flushLog locate)]
  refine (flush locate h).bind (fun next hnext ↦ ?_) fun _ _ ↦ rfl
  have hnext := (flush locate h).rooted next hnext
  cases hblocks : next.blocks with
  | nil => exact .fail ..
  | cons b blocks =>
    refine ⟨.refl, fun left hleft ↦ ?_⟩
    obtain rfl := Except.ok.inj hleft
    exact ⟨hnext.linked, fun b hb ↦ hnext.blocks b (hblocks ▸ List.mem_cons_of_mem _ hb)⟩

/-- A character is taken. -/
theorem step (h : s.Rooted) (c : Char) : Tracks s (s.stepLog locate c) (s.step locate c) := by
  by_cases hdelimiter : IsDelimiter c
  · rcases hdelimiter with rfl | rfl | rfl
    · rw [step_open]
      exact (openBlock locate h).map (fun _ ↦ rfl) fun _ ↦ rfl
    · rw [step_close]
      exact (closeBlock locate h).map (fun _ ↦ rfl) fun _ ↦ rfl
    · rw [step_semicolon]
      exact (flush locate h).map (fun _ ↦ rfl) fun _ ↦ rfl
  · rw [step_of_not_isDelimiter hdelimiter]
    simp only [IsDelimiter, not_or] at hdelimiter
    obtain ⟨hopen, hclose, hsemicolon⟩ := hdelimiter
    have hnone : s.stepLog locate c = [] := by
      rw [stepLog, if_neg hopen, if_neg fun h ↦ h.elim hclose hsemicolon]
    rw [hnone]
    exact (Tracks.ok h).map (f := fun s ↦ { s.keep c with offset := s.offset + c.utf8Size })
      (fun _ ↦ rfl) fun _ ↦ rfl

/-- The text ends. -/
theorem finish (h : s.Rooted) : Tracks s (s.flushLog locate) (s.finish locate) := by
  rw [Scan.finish, ← List.append_nil (s.flushLog locate)]
  refine (flush locate h).bind (fun next hnext ↦ ?_) fun _ _ ↦ rfl
  cases next.blocks with
  | nil => exact .ok ((flush locate h).rooted next hnext)
  | cons innermost blocks => exact .fail ..

/-- **A scan does what its log says**, up to its end or to its failure. -/
theorem run (h : s.Rooted) (text : List Char) :
    Tracks s (s.log locate text) (s.run locate text) := by
  induction text generalizing s with
  | nil => exact finish locate h
  | cons c rest ih =>
    have hrun : s.run locate (c :: rest) = s.step locate c >>= fun next ↦ next.run locate rest := by
      rw [Scan.run, List.foldlM_cons, bind_assoc]
      rfl
    rw [hrun, log]
    have hstep := step locate h c
    refine hstep.bind (fun next hnext ↦ ?_) fun failure hfailure ↦ ?_
    · rw [hnext]
      exact ih (hstep.rooted next hnext)
    · rw [hfailure]

end Rooted

end Scan

/-! ### Several sources -/

/-- A normalized source with the name of its file. -/
structure NamedSource where
  file : String
  source : NormalizedSource

/-- The normalized text of a file. -/
def SourceFile.named (file : SourceFile) : NamedSource :=
  ⟨file.path, normalize (file.lines.map String.toList)⟩

namespace Content

/-- Scans sources one after the other into the same content. One that fails leaves what it did
before. -/
def scanAll (content : Content) : List NamedSource → Content
  | [] => content
  | s :: rest => (scanFile content s.file s.source).1.scanAll rest

/-- The declarations that the scans of some sources make, in order. -/
def logAll (content : Content) : List NamedSource → List Declaration
  | [] => []
  | s :: rest => (Scan.start content).log (s.source.locate s.file) s.source.text ++
      (scanFile content s.file s.source).1.logAll rest

theorem logs_scanFile {content : Content} (ht : content.tree.Linked) (s : NamedSource) :
    Logs content ((Scan.start content).log (s.source.locate s.file) s.source.text)
      (scanFile content s.file s.source).1 := by
  have hrun := (Scan.Rooted.run (s.source.locate s.file) (Scan.rooted_start ht) s.source.text).logs
  rw [scanFile]
  split
  · next heq => rwa [heq] at hrun
  · next heq => rwa [heq] at hrun

/-- **Scans do what their log says**, whichever of them fail. -/
theorem logs_scanAll {content : Content} (ht : content.tree.Linked) (sources : List NamedSource) :
    Logs content (content.logAll sources) (content.scanAll sources) := by
  induction sources generalizing content with
  | nil => exact .refl
  | cons s rest ih =>
    have hfirst := logs_scanFile ht s
    exact hfirst.trans (ih (hfirst.linked ht))

/-- The files of a package are scanned up to the first that fails. -/
theorem addFiles_of_ok {content scanned : Content} {files : List SourceFile}
    {stats total : ScanStats} (h : content.addFiles files stats = (scanned, .ok total)) :
    scanned = content.scanAll (files.map SourceFile.named) := by
  induction files generalizing content stats with
  | nil => exact (Prod.mk.inj h).1.symm
  | cons file files ih =>
    rw [addFiles] at h
    split at h
    · cases (Prod.mk.inj h).2
    · next grown added heq =>
      have hgrown : grown = (scanFile content file.named.file file.named.source).1 := by
        have hfile := congrArg Prod.fst heq
        exact hfile.symm
      rw [List.map_cons, scanAll, ← hgrown]
      exact ih h

/-- Files that are not scanned fail at a text that cannot be read. -/
theorem exists_parse_of_addFiles {content reached : Content} {files : List SourceFile}
    {stats : ScanStats} {error : ContentError}
    (h : content.addFiles files stats = (reached, .error error)) :
    ∃ location note, error = .parse location note := by
  induction files generalizing content stats with
  | nil => cases (Prod.mk.inj h).2
  | cons file files ih =>
    rw [addFiles] at h
    split at h
    · next failed fault heq =>
      obtain rfl := Except.error.inj (Prod.mk.inj h).2
      rw [addFile, scanFile] at heq
      split at heq
      · cases (Prod.mk.inj heq).2
      · exact ⟨_, _, (Except.error.inj (Prod.mk.inj heq).2).symm⟩
    · exact ih h

end Content

end ModContent
