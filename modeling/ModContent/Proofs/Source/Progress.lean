import ModContent.Proofs.Source.Nesting

/-!
# How far a scan gets

Behind each delimiter the state of a scan can be told from the text up to there: all its headers
and statements were read, the open blocks are those that the text leaves open, and the counts are
those of the text (`Reached`). A segment with its delimiter leads from one such state to the next,
or fails with a fault that the text shows as well (`FaultAt`). So the text alone decides what a
scan comes to, whatever the content was it started with (`scanFile_ok`, `scanFile_error`).
-/

namespace ModContent

open Scan (IsDelimiter)

/-- Whether a statement is given a reference. -/
def Statement.isReference (s : Statement) : Bool :=
  match s.value with
  | .values _ => false
  | .reference _ => true

/-- The statements of a text, as far as they can be read. -/
def statementsOf (text : List Char) : List Statement :=
  (statementTexts text).filterMap fun t ↦ (Statement.read t none).toOption

/-- The parameters in the headers of a text, as far as they can be read. -/
def parametersOf (text : List Char) : List Statement :=
  (headerTexts text).flatMap fun t ↦ ((Header.read t).toOption.map Header.parameters).getD []

/-- All headers and statements of a text can be read. -/
structure Legible (text : List Char) : Prop where
  headers : ∀ t ∈ headerTexts text, ∃ header, Header.read t = .ok header
  statements : ∀ t ∈ statementTexts text, ∃ statement, Statement.read t none = .ok statement

/-- The counts are those of the text. -/
structure Tally (text : List Char) (stats : ScanStats) : Prop where
  blocks : stats.blocks = text.count '{'
  properties : stats.properties = (statementTexts text).length + (parametersOf text).length
  references : stats.references =
    (statementsOf text).countP Statement.isReference +
      (parametersOf text).countP Statement.isReference
  maxDepth : IsDepth text stats.maxDepth

/-- What stands before the last text between delimiters that is not empty; nothing if there is no
such text. -/
inductive LastText : List Char → List Char → Prop
  | none {done : List Char} (delimiters : ∀ c ∈ done, IsDelimiter c) : LastText done []
  | some {before text rest : List Char} (closed : Closed before) (free : Free text)
      (nonempty : text ≠ []) (delimiters : ∀ c ∈ rest, IsDelimiter c) :
      LastText (before ++ text ++ rest) before

/-- A text has a fault, and this is what stands before it: before the text that cannot be read, or
the opening brace if the header is missing; before the closing brace that is not matched; before
the header of the innermost block that is left open. There is no fault before. -/
inductive FaultAt : List Char → ScanFault → List Char → Prop
  | header {place text rest : List Char} {fault : GrammarFault} (legible : Legible place)
      (nested : Nested place) (closed : Closed place) (free : Free text)
      (refused : Header.read text = .error fault) :
      FaultAt (place ++ text ++ '{' :: rest) (.grammar fault) place
  | statement {place text rest : List Char} {fault : GrammarFault} (legible : Legible place)
      (nested : Nested place) (closed : Closed place) (free : Free text) (nonempty : text ≠ [])
      (ends : ∀ c ∈ rest.head?, c = '}' ∨ c = ';')
      (refused : Statement.read text none = .error fault) :
      FaultAt (place ++ text ++ rest) (.grammar fault) place
  | unmatchedClose {place rest : List Char} (legible : Legible place) (nested : Nested place)
      (equal : place.count '{' = place.count '}') :
      FaultAt (place ++ '}' :: rest) .unmatchedClose place
  | neverClosed {text place : List Char} {block : String} {outer : List (List Char)}
      (legible : Legible text) (encloses : Encloses text (place :: outer)) :
      FaultAt text (.neverClosed block (outer.length + 1)) place

/-- Right behind this beginning of a text stands an opening brace, with no header. -/
def BareBrace (text place : List Char) : Prop := place ++ ['{'] <+: text

/-- A fault is located by what stands before it, but a missing header by the last text before the
brace. -/
structure LocatedBy (text place before : List Char) : Prop where
  bare : BareBrace text place → LastText place before
  other : ¬ BareBrace text place → before = place

variable {text done place before rest : List Char} {d : Char} {stats : ScanStats}

/-! ### Longer texts -/

theorem legible_nil : Legible [] :=
  ⟨fun _ ht ↦ absurd ht List.not_mem_nil, fun _ ht ↦ absurd ht List.not_mem_nil⟩

/-- The empty text has nothing to count. -/
theorem tally_nil : Tally [] ScanStats.zero := ⟨rfl, rfl, rfl, .nil⟩

theorem LastText.nil : LastText [] [] := .none (List.forall_mem_nil _)

/-- A delimiter behind leaves the last text where it is. -/
theorem LastText.concat (h : LastText done before) (hd : IsDelimiter d) :
    LastText (done ++ [d]) before := by
  have hconcat : ∀ {rest : List Char}, (∀ c ∈ rest, IsDelimiter c) →
      ∀ c ∈ rest ++ [d], IsDelimiter c :=
    fun hrest ↦ List.forall_mem_append.2 ⟨hrest, List.forall_mem_singleton.2 hd⟩
  cases h with
  | none delimiters => exact .none (hconcat delimiters)
  | some closed free nonempty delimiters =>
    rw [List.append_assoc]
    exact .some closed free nonempty (hconcat delimiters)

/-- A free text that is not empty is the last one. -/
theorem LastText.of_free (hclosed : Closed done) (hfree : Free text) (hne : text ≠ []) :
    LastText (done ++ text) done := by
  rw [← List.append_nil (done ++ text)]
  exact .some hclosed hfree hne (List.forall_mem_nil _)

/-! ### Where a fault is located -/

/-- A fault at a character that is no opening brace is located by what stands before it. -/
theorem LocatedBy.of_cons {c : Char} (hc : c ≠ '{') (place rest : List Char) :
    LocatedBy (place ++ c :: rest) place place := by
  refine ⟨fun hbrace ↦ ?_, fun _ ↦ rfl⟩
  obtain ⟨rfl, -⟩ := List.cons_prefix_cons.1 ((List.prefix_append_right_inj place).1 hbrace)
  exact absurd rfl hc

/-- So is a fault in a text that is not empty. -/
theorem LocatedBy.of_free (hfree : Free text) (hne : text ≠ []) (place rest : List Char) :
    LocatedBy (place ++ text ++ rest) place place := by
  obtain ⟨c, more, rfl⟩ := List.exists_cons_of_ne_nil hne
  have hc : c ≠ '{' := by
    rintro rfl
    exact hfree _ List.mem_cons_self (.inl rfl)
  rw [List.append_assoc]
  exact .of_cons hc place (more ++ rest)

/-- A missing header is located by the last text before the brace. -/
theorem LocatedBy.of_missing (h : LastText place before) (rest : List Char) :
    LocatedBy (place ++ '{' :: rest) place before := by
  refine ⟨fun _ ↦ h, fun hbrace ↦ absurd ?_ hbrace⟩
  rw [List.append_cons place '{' rest]
  exact List.prefix_append _ _

/-- A block that is left open has a header. -/
theorem Encloses.locatedBy {outer : List (List Char)} (h : Encloses text (place :: outer)) :
    LocatedBy text place place := by
  cases h with
  | some outside closed free nonempty balanced => exact .of_free free nonempty place _

/-! ### A delimiter more -/

section Ending

variable (hd : IsDelimiter d) (hne : d ≠ '{')
include hd hne

/-- A delimiter behind leaves a text legible. -/
theorem Legible.concat (h : Legible text) : Legible (text ++ [d]) := by
  refine ⟨?_, ?_⟩
  · rw [headerTexts_concat hd hne]
    exact h.headers
  · rw [statementTexts_concat hd hne]
    exact h.statements

/-- A delimiter that opens nothing adds no parameters. -/
theorem parametersOf_concat : parametersOf (text ++ [d]) = parametersOf text := by
  rw [parametersOf, headerTexts_concat hd hne]
  rfl

/-- It adds no statements either. -/
theorem statementsOf_concat : statementsOf (text ++ [d]) = statementsOf text := by
  rw [statementsOf, statementTexts_concat hd hne]
  rfl

/-- So only the depth is to be counted again. -/
theorem Tally.concat (h : Tally text stats) (hdepth : IsDepth (text ++ [d]) stats.maxDepth) :
    Tally (text ++ [d]) stats := by
  refine ⟨?_, ?_, ?_, hdepth⟩
  · simp [h.blocks, hne]
  · rw [parametersOf_concat hd hne, statementTexts_concat hd hne]
    exact h.properties
  · rw [parametersOf_concat hd hne, statementsOf_concat hd hne]
    exact h.references

end Ending

/-! ### One statement more -/

section Statement

variable (hclosed : Closed done) (hfree : Free text)
include hclosed hfree

/-- A statement behind a closed text adds no header. -/
theorem headerTexts_append_free : headerTexts (done ++ text) = headerTexts done := by
  rw [headerTexts_append hclosed, headerTexts_of_free hfree, List.append_nil]

variable (hne : text ≠ [])
include hne

/-- It is the last of the statements. -/
theorem statementTexts_append_free :
    statementTexts (done ++ text) = statementTexts done ++ [text] := by
  rw [statementTexts_append hclosed, statementTexts_of_free hfree, statementText?, if_neg hne]

variable {declared : Statement} (hread : Statement.read text none = .ok declared)
include hread

/-- A statement that can be read leaves the text legible. -/
theorem Legible.statement (h : Legible done) : Legible (done ++ text) := by
  refine ⟨?_, ?_⟩
  · rw [headerTexts_append_free hclosed hfree]
    exact h.headers
  · rw [statementTexts_append_free hclosed hfree hne]
    exact List.forall_mem_append.2
      ⟨h.statements, List.forall_mem_singleton.2 ⟨declared, hread⟩⟩

/-- It counts as one more property. -/
theorem Tally.statement (h : Tally done stats) :
    Tally (done ++ text) (stats.addDeclaration declared) := by
  have hparameters : parametersOf (done ++ text) = parametersOf done := by
    rw [parametersOf, headerTexts_append_free hclosed hfree]
    rfl
  have hstatements : statementsOf (done ++ text) = statementsOf done ++ [declared] := by
    simp [statementsOf, statementTexts_append_free hclosed hfree hne, hread, Except.toOption]
  have hblocks : (done ++ text).count '{' = done.count '{' := by
    rw [List.count_append, hfree.flat.count_open, Nat.add_zero]
  have hdepth := h.maxDepth.append_flat hfree.flat
  rcases declared with ⟨key, values | path⟩
  all_goals
    refine ⟨h.blocks.trans hblocks.symm, ?_, ?_, hdepth⟩
    · simp [ScanStats.addDeclaration, hparameters, statementTexts_append_free hclosed hfree hne,
        h.properties]
      omega
    · simp [ScanStats.addDeclaration, hparameters, hstatements, h.references,
        Statement.isReference]
      try omega

end Statement

/-! ### One block more -/

/-- Counting declarations one by one counts them all. -/
theorem foldl_addDeclaration (statements : List Statement) (stats : ScanStats) :
    statements.foldl ScanStats.addDeclaration stats = { stats with
      properties := stats.properties + statements.length
      references := stats.references + statements.countP Statement.isReference } := by
  induction statements generalizing stats with
  | nil => rfl
  | cons statement rest ih =>
    rw [List.foldl_cons, ih]
    rcases statement with ⟨key, values | path⟩ <;>
      simp [ScanStats.addDeclaration, Statement.isReference, List.countP_cons] <;> omega

section Header

variable (hclosed : Closed done) (hfree : Free text) {entered : Header}
  (hread : Header.read text = .ok entered)
include hclosed hfree

/-- A header behind a closed text is the last of the headers. -/
theorem headerTexts_append_open :
    headerTexts (done ++ text ++ ['{']) = headerTexts done ++ [text] := by
  rw [List.append_assoc, headerTexts_append hclosed, headerTexts_open hfree]
  rfl

/-- It adds no statement. -/
theorem statementTexts_append_open :
    statementTexts (done ++ text ++ ['{']) = statementTexts done := by
  rw [List.append_assoc, statementTexts_append hclosed, statementTexts_open hfree]
  exact List.append_nil _

include hread

/-- A header that can be read leaves the text legible. -/
theorem Legible.header (h : Legible done) : Legible (done ++ text ++ ['{']) := by
  refine ⟨?_, ?_⟩
  · rw [headerTexts_append_open hclosed hfree]
    exact List.forall_mem_append.2 ⟨h.headers, List.forall_mem_singleton.2 ⟨entered, hread⟩⟩
  · rw [statementTexts_append_open hclosed hfree]
    exact h.statements

/-- It counts as one more block, and its parameters as properties. -/
theorem Tally.header (h : Tally done stats) {outer : Nat}
    (houter : done.count '{' = done.count '}' + outer) :
    Tally (done ++ text ++ ['{'])
      ((entered.parameters.foldl ScanStats.addDeclaration stats).addBlock (outer + 1)) := by
  have hparameters : parametersOf (done ++ text ++ ['{']) =
      parametersOf done ++ entered.parameters := by
    rw [parametersOf, headerTexts_append_open hclosed hfree, List.flatMap_append,
      List.flatMap_singleton, hread]
    rfl
  have hstatements : statementsOf (done ++ text ++ ['{']) = statementsOf done := by
    rw [statementsOf, statementTexts_append_open hclosed hfree]
    rfl
  have hcount : (done ++ text).count '{' = (done ++ text).count '}' + outer := by
    rw [List.count_append, List.count_append, hfree.flat.count_open, hfree.flat.count_close]
    exact houter
  rw [foldl_addDeclaration]
  refine ⟨?_, ?_, ?_, (h.maxDepth.append_flat hfree.flat).append_open hcount⟩
  · simp [ScanStats.addBlock, h.blocks, hfree.flat.count_open]
  · rw [hparameters, statementTexts_append_open hclosed hfree, List.length_append, ← Nat.add_assoc,
      ← h.properties]
    rfl
  · rw [hparameters, hstatements, List.countP_append, ← Nat.add_assoc, ← h.references]
    rfl

end Header

/-! ### Segment by segment -/

namespace Scan

variable {locate : Nat → Location} {s : Scan}

/-- The state in which a text waits that may be empty. -/
def awaiting (s : Scan) (text : List Char) : Scan := if text = [] then s else s.gathered text

@[simp] theorem awaiting_nil (s : Scan) : s.awaiting [] = s := if_pos rfl

/-- Characters that wait were gathered. -/
theorem awaiting_of_ne_nil (s : Scan) (h : text ≠ []) : s.awaiting text = s.gathered text :=
  if_neg h

/-- A scan that waits for a delimiter has the text behind the last one. -/
theorem text_awaiting (hs : s.pending = []) (text : List Char) : (s.awaiting text).text = text := by
  by_cases htext : text = []
  · rw [htext, awaiting_nil, Scan.text, hs]
    rfl
  · rw [awaiting_of_ne_nil s htext, text_gathered]

/-- Characters that are no delimiters gather to a text that waits. -/
theorem foldlM_free (hs : s.pending = []) (hfree : Free text) :
    text.foldlM (step locate) s = .ok (s.awaiting text) := by
  by_cases htext : text = []
  · subst htext
    rw [awaiting_nil]
    rfl
  · have hgathered : (text ++ []).foldlM (step locate) s = .ok (s.gathered text) :=
      foldlM_gathered hs htext hfree []
    rw [← awaiting_of_ne_nil s htext, List.append_nil] at hgathered
    exact hgathered

/-- The last segment. -/
theorem run_free (hs : s.pending = []) (hfree : Free text) :
    s.run locate text = (s.awaiting text).finish locate := by
  rw [run, foldlM_free hs hfree]
  rfl

/-- A segment that is not the last, and the text behind it. -/
theorem run_segment (hs : s.pending = []) (hfree : Free text) (d : Char) (rest : List Char) :
    s.run locate (text ++ d :: rest) =
      (s.awaiting text).step locate d >>= fun next ↦ next.run locate rest := by
  rw [run, foldlM_append_of_ok (foldlM_free hs hfree), List.foldlM_cons, bind_assoc]
  rfl

/-! ### The state behind a text -/

/-- What a scan has read so far, its headers and statements all read. Nothing waits. -/
structure Reached (done : List Char) (s : Scan) : Prop where
  legible : Legible done
  pending : s.pending = []
  offset : s.offset = Text.byteLength done
  last : ∃ before, LastText done before ∧ s.pendingStart = Text.byteLength before
  opens : ∃ opens, Encloses done opens ∧
    s.blocks.map OpenBlock.start = opens.map Text.byteLength
  tally : Tally done s.stats

/-- What the outcome of a scan says of the text. -/
def Judges (text : List Char) : Step → Prop
  | .ok s => Legible text ∧ Balanced text ∧ Tally text s.stats
  | .error (failure, _) =>
    ∃ place before, FaultAt text failure.fault place ∧ LocatedBy text place before ∧
      failure.offset = Text.byteLength before

/-- At the start nothing was read. -/
theorem reached_start (content : Content) : Reached [] (Scan.start content) :=
  ⟨legible_nil, rfl, rfl, ⟨[], .nil, rfl⟩, ⟨[], .none ⟨nested_nil, rfl⟩, rfl⟩, tally_nil⟩

namespace Reached

/-- What a scan gets through closes no block that is not open. -/
theorem nested (h : Reached done s) : Nested done := by
  obtain ⟨opens, hencloses, -⟩ := h.opens
  exact hencloses.nested

/-- The open blocks are those that have more opening braces than closing ones. -/
theorem count (h : Reached done s) : done.count '{' = done.count '}' + s.blocks.length := by
  obtain ⟨opens, hencloses, hblocks⟩ := h.opens
  have hlength := congrArg List.length hblocks
  rw [List.length_map, List.length_map] at hlength
  rw [hencloses.count, hlength]

/-- The text that waits is a statement and is declared, or it is none. -/
theorem flush (locate : Nat → Location) (h : Reached done s) (hclosed : Closed done)
    (hfree : Free text) :
    (∃ next, (s.awaiting text).flush locate = .ok next ∧ Reached (done ++ text) next) ∨
      ∃ fault reached, text ≠ [] ∧ Statement.read text none = .error fault ∧
        (s.awaiting text).flush locate =
          .error (⟨Text.byteLength done, .grammar fault⟩, reached) := by
  by_cases htext : text = []
  · subst htext
    rw [awaiting_nil, List.append_nil]
    exact .inl ⟨s, flush_of_pending_eq_nil h.pending, h⟩
  have hpending : (s.gathered text).pending.isEmpty = false := by simpa [gathered] using htext
  rw [awaiting_of_ne_nil s htext, Scan.flush, hpending, if_neg Bool.false_ne_true, text_gathered]
  cases hread : Statement.read text none with
  | error fault =>
    have hstart : (s.gathered text).pendingStart = Text.byteLength done := h.offset
    rw [← hstart]
    exact .inr ⟨fault, _, htext, rfl, rfl⟩
  | ok statement =>
    obtain ⟨opens, hencloses, hblocks⟩ := h.opens
    refine .inl ⟨_, rfl, ?_⟩
    exact {
      legible := h.legible.statement hclosed hfree htext hread
      pending := rfl
      offset := by
        show s.offset + Text.byteLength text = _
        rw [h.offset, Text.byteLength_append]
      last := ⟨done, .of_free hclosed hfree htext, h.offset⟩
      opens := ⟨opens, hencloses.append hfree.flat.balanced, hblocks⟩
      tally := h.tally.statement hclosed hfree htext hread }

/-- A semicolon behind a statement, or behind nothing. -/
theorem semicolon (h : Reached done s) :
    Reached (done ++ [';']) { s with offset := s.offset + 1 } := by
  have hd : IsDelimiter ';' := .inr (.inr rfl)
  have hne : ';' ≠ '{' := by decide
  obtain ⟨before, hlast, hstart⟩ := h.last
  obtain ⟨opens, hencloses, hblocks⟩ := h.opens
  exact {
    legible := h.legible.concat hd hne
    pending := h.pending
    offset := by
      rw [Text.byteLength_append, ← h.offset]
      rfl
    last := ⟨before, hlast.concat hd, hstart⟩
    opens := ⟨opens, hencloses.append flat_semicolon.balanced, hblocks⟩
    tally := h.tally.concat hd hne (h.tally.maxDepth.append_flat flat_semicolon) }

/-- A closing brace leaves the innermost block. -/
theorem close (h : Reached done s) {b : OpenBlock} {blocks : List OpenBlock}
    (hb : s.blocks = b :: blocks) :
    Reached (done ++ ['}']) { s with blocks, offset := s.offset + 1 } := by
  have hd : IsDelimiter '}' := .inr (.inl rfl)
  have hne : '}' ≠ '{' := by decide
  obtain ⟨before, hlast, hstart⟩ := h.last
  obtain ⟨opens, hencloses, hblocks⟩ := h.opens
  rw [hb] at hblocks
  rcases opens with - | ⟨innermost, opens⟩
  · cases hblocks
  exact {
    legible := h.legible.concat hd hne
    pending := h.pending
    offset := by
      rw [Text.byteLength_append, ← h.offset]
      rfl
    last := ⟨before, hlast.concat hd, hstart⟩
    opens := ⟨opens, hencloses.close, (List.cons.inj hblocks).2⟩
    tally := h.tally.concat hd hne h.tally.maxDepth.append_close }

/-- A header with its opening brace enters a block. -/
theorem header (h : Reached done s) (hclosed : Closed done) (hfree : Free text) {header : Header}
    (hread : Header.read text = .ok header) :
    Reached (done ++ text ++ ['{'])
      { (s.awaiting text).entered locate header with
        offset := ((s.awaiting text).entered locate header).offset + 1 } := by
  have htext : text ≠ [] := by
    rintro rfl
    cases hread
  have hopen : IsDelimiter '{' := .inl rfl
  obtain ⟨opens, hencloses, hblocks⟩ := h.opens
  rw [awaiting_of_ne_nil s htext, entered_eq]
  exact {
    legible := h.legible.header hclosed hfree hread
    pending := rfl
    offset := by
      show s.offset + Text.byteLength text + 1 = _
      rw [Text.byteLength_append, Text.byteLength_append, h.offset]
      rfl
    last := ⟨done, (LastText.of_free hclosed hfree htext).concat hopen, h.offset⟩
    opens := by
      refine ⟨done :: opens, .some hencloses hclosed hfree htext ⟨nested_nil, rfl⟩, ?_⟩
      show s.offset :: s.blocks.map OpenBlock.start = _
      rw [hblocks, h.offset]
      rfl
    tally := h.tally.header hclosed hfree hread h.count }

/-- Where no header can be read, the text has a fault. If none is there, the last text before it
locates the fault. -/
theorem locatedBy_of_refused (h : Reached done s) (hfree : Free text) (rest : List Char) :
    ∃ before, LocatedBy (done ++ text ++ '{' :: rest) done before ∧
      (s.awaiting text).pendingStart = Text.byteLength before := by
  by_cases htext : text = []
  · subst htext
    obtain ⟨before, hlast, hstart⟩ := h.last
    rw [awaiting_nil, List.append_nil]
    exact ⟨before, .of_missing hlast rest, hstart⟩
  · rw [awaiting_of_ne_nil s htext]
    exact ⟨done, .of_free hfree htext done _, h.offset⟩

/-- The end of the text: the last statement is made, and no block may be open. -/
theorem finish (locate : Nat → Location) (h : Reached done s) (hclosed : Closed done)
    (hfree : Free text) :
    Judges (done ++ text) ((s.awaiting text).finish locate) := by
  rw [Scan.finish]
  rcases h.flush locate hclosed hfree with
    ⟨next, hflush, hnext⟩ | ⟨fault, reached, htext, hread, hflush⟩
  · rw [hflush]
    obtain ⟨opens, hencloses, hstarts⟩ := hnext.opens
    rcases hblocks : next.blocks with - | ⟨innermost, blocks⟩
    · simp only [hblocks, bind, Except.bind]
      refine ⟨hnext.legible, ⟨hnext.nested, ?_⟩, hnext.tally⟩
      rw [hnext.count, hblocks]
      rfl
    · rw [hblocks] at hstarts
      rcases opens with - | ⟨place, outer⟩
      · cases hstarts
      obtain ⟨hstart, -⟩ := List.cons.inj hstarts
      have hlength : (innermost :: blocks).length = outer.length + 1 := by
        simpa using congrArg List.length hstarts
      simp only [hblocks, hlength, bind, Except.bind]
      have hlocated : LocatedBy (done ++ text) place place := hencloses.locatedBy
      exact ⟨place, place, .neverClosed hnext.legible hencloses, hlocated, hstart⟩
  · rw [hflush]
    rw [← List.append_nil (done ++ text)]
    exact ⟨done, done, .statement h.legible h.nested hclosed hfree htext (by simp) hread,
      .of_free hfree htext done [], rfl⟩

/-- A segment that is not the last one leads on, or the scan fails in it. -/
theorem step (locate : Nat → Location) (h : Reached done s) (hclosed : Closed done)
    (hfree : Free text) (hd : IsDelimiter d) (rest : List Char) :
    (∃ next, (s.awaiting text).step locate d = .ok next ∧ Reached (done ++ text ++ [d]) next) ∨
      ∃ failure, (s.awaiting text).step locate d = .error failure ∧
        Judges (done ++ text ++ d :: rest) (.error failure) := by
  rcases hd with rfl | hends
  · rw [step_open]
    cases hread : Header.read text with
    | ok header =>
      have hawaiting : Header.read (s.awaiting text).text = .ok header := by
        rwa [text_awaiting h.pending]
      rw [openBlock_eq hawaiting]
      exact .inl ⟨_, rfl, h.header hclosed hfree hread⟩
    | error fault =>
      obtain ⟨before, hlocated, hstart⟩ := h.locatedBy_of_refused hfree rest
      rw [Scan.openBlock, text_awaiting h.pending, hread]
      exact .inr ⟨_, rfl, done, before, .header h.legible h.nested hclosed hfree hread, hlocated,
        hstart⟩
  rcases h.flush locate hclosed hfree with
    ⟨next, hflush, hnext⟩ | ⟨fault, reached, htext, hread, hflush⟩
  · rcases hends with rfl | rfl
    · rcases hblocks : next.blocks with - | ⟨b, blocks⟩
      · have hequal : (done ++ text).count '{' = (done ++ text).count '}' := by
          rw [hnext.count, hblocks]
          rfl
        refine .inr ⟨(⟨next.offset, .unmatchedClose⟩, next.content), ?_, done ++ text, done ++ text,
          .unmatchedClose hnext.legible hnext.nested hequal, .of_cons (by decide) _ rest,
          hnext.offset⟩
        simp only [step_close, closeBlock, hflush, hblocks, bind, Except.bind]
        rfl
      · refine .inl ⟨_, ?_, hnext.close hblocks⟩
        simp only [step_close, closeBlock, hflush, hblocks, bind, Except.bind]
        rfl
    · rw [step_semicolon, hflush]
      exact .inl ⟨_, rfl, hnext.semicolon⟩
  · -- the statement is read first, whatever its delimiter does then
    have hfault : FaultAt (done ++ text ++ d :: rest) (.grammar fault) done :=
      .statement h.legible h.nested hclosed hfree htext (by simpa using hends) hread
    refine .inr ⟨(⟨Text.byteLength done, .grammar fault⟩, reached), ?_, done, done, hfault,
      .of_free hfree htext done _, rfl⟩
    rcases hends with rfl | rfl
    · rw [step_close, closeBlock, hflush]
      rfl
    · rw [step_semicolon, hflush]
      rfl

/-- **The text judges the scan**: from where it has got to, the scan reads the rest, or stops at a
fault of the whole text. -/
theorem run (locate : Nat → Location) (h : Reached done s) (hclosed : Closed done)
    (rest : List Char) :
    Judges (done ++ rest) (s.run locate rest) := by
  induction rest using segment_induction generalizing done s with
  | last text hfree =>
    rw [run_free h.pending hfree]
    exact h.finish locate hclosed hfree
  | cons text d rest hfree hd ih =>
    rw [run_segment h.pending hfree, ← List.append_assoc]
    rcases h.step locate hclosed hfree hd rest with
      ⟨next, hstep, hnext⟩ | ⟨failure, hstep, hjudges⟩
    · have hrun := ih hnext (closed_concat hd _)
      rw [List.append_cons, hstep]
      exact hrun
    · rw [hstep]
      exact hjudges

end Reached

end Scan

/-! ### Whole files -/

variable {content : Content} {file : String} {source : NormalizedSource}

/-- A text that is scanned is legible and balanced, and the counts are its own. -/
theorem scanFile_ok (h : (scanFile content file source).2 = .ok stats) :
    Legible source.text ∧ Balanced source.text ∧ Tally source.text stats := by
  have hrun := (Scan.reached_start content).run (source.locate file) closed_nil source.text
  rw [scanFile] at h
  split at h
  · next s hs =>
    obtain rfl := Except.ok.inj h
    rw [hs] at hrun
    exact hrun
  · cases h

/-- A scan that fails reports a fault of the text, at the line of what locates it. -/
theorem scanFile_error {error : ContentError}
    (h : (scanFile content file source).2 = .error error) :
    ∃ fault place before, FaultAt source.text fault place ∧ LocatedBy source.text place before ∧
      error = .parse (source.locate file (Text.byteLength before)) fault.note := by
  have hrun := (Scan.reached_start content).run (source.locate file) closed_nil source.text
  rw [scanFile] at h
  split at h
  · cases h
  · next failure reached hs =>
    obtain rfl := Except.error.inj h
    rw [hs] at hrun
    obtain ⟨place, before, hfault, hlocated, hoffset⟩ := hrun
    exact ⟨failure.fault, place, before, hfault, hlocated, by rw [← hoffset]; rfl⟩

end ModContent
