import ModContent.Source.Scan

/-!
# Steps of the scanner

The scanner works character by character, but only the three delimiters do anything. Between them
characters gather (`foldlM_keep`), so what it does can be said text by text: a statement with its
semicolon, a header with its opening brace, and a closing brace.
-/

namespace ModContent.Scan

/-- The characters that end a statement or a header. -/
def IsDelimiter (c : Char) : Prop := c = '{' ∨ c = '}' ∨ c = ';'

instance : DecidablePred IsDelimiter := fun _ ↦ inferInstanceAs (Decidable (_ ∨ _))

variable {locate : Nat → Location} {s : Scan} {text : List Char} {c : Char}

/-- The open blocks decide where statements go. -/
theorem scope_eq {s' : Scan} (h : s'.blocks = s.blocks) : s'.scope = s.scope := by
  rw [scope, scope, h]

/-! ### One character -/

/-- A character between delimiters is kept for later. -/
theorem step_of_not_isDelimiter (h : ¬ IsDelimiter c) :
    step locate s c = .ok { s.keep c with offset := s.offset + c.utf8Size } := by
  simp only [IsDelimiter, not_or] at h
  rw [step, if_neg h.1, if_neg h.2.1, if_neg h.2.2]
  rfl

theorem step_open : step locate s '{' =
    (s.openBlock locate).map fun s ↦ { s with offset := s.offset + 1 } := by
  rw [step, if_pos rfl]
  cases s.openBlock locate <;> rfl

theorem step_close : step locate s '}' =
    (s.closeBlock locate).map fun s ↦ { s with offset := s.offset + 1 } := by
  rw [step, if_neg (by decide), if_pos rfl]
  cases s.closeBlock locate <;> rfl

/-- At a semicolon the text before it is declared. -/
theorem step_semicolon : step locate s ';' =
    (s.flush locate).map fun s ↦ { s with offset := s.offset + 1 } := by
  rw [step, if_neg (by decide), if_neg (by decide), if_pos rfl]
  cases s.flush locate <;> rfl

/-! ### Whole texts -/

/-- Characters that are no delimiters gather behind those that wait. -/
theorem foldlM_keep (htext : ∀ c ∈ text, ¬ IsDelimiter c) :
    text.foldlM (step locate) s = .ok { s with
      pending := text.reverse ++ s.pending
      pendingStart := if s.pending = [] ∧ text ≠ [] then s.offset else s.pendingStart
      offset := s.offset + Text.byteLength text } := by
  induction text generalizing s with
  | nil => simp [pure, Except.pure]
  | cons c rest ih =>
    obtain ⟨hc, hrest⟩ := List.forall_mem_cons.1 htext
    rw [List.foldlM_cons, step_of_not_isDelimiter hc]
    show rest.foldlM (step locate) _ = _
    rw [ih hrest]
    simp [keep, Nat.add_assoc]

/-- A text is scanned part by part. -/
theorem foldlM_append_of_ok {s' : Scan} (h : text.foldlM (step locate) s = .ok s')
    (rest : List Char) :
    (text ++ rest).foldlM (step locate) s = rest.foldlM (step locate) s' := by
  rw [List.foldlM_append, h]
  rfl

/-- The state in which a text has gathered that began on its own. -/
def gathered (s : Scan) (text : List Char) : Scan :=
  { s with
    pending := text.reverse
    pendingStart := s.offset
    offset := s.offset + Text.byteLength text }

@[simp] theorem text_gathered (s : Scan) (text : List Char) : (s.gathered text).text = text :=
  List.reverse_reverse text

/-- A text without delimiters is gathered in one go. -/
theorem foldlM_gathered (hs : s.pending = []) (hne : text ≠ [])
    (htext : ∀ c ∈ text, ¬ IsDelimiter c) (rest : List Char) :
    (text ++ rest).foldlM (step locate) s = rest.foldlM (step locate) (s.gathered text) := by
  rw [foldlM_append_of_ok (foldlM_keep htext)]
  simp only [hs, List.append_nil, true_and, hne, ne_eq, not_false_iff, if_true]
  rfl

/-- A text that can be read is not empty. -/
theorem ne_nil_of_read {statement : Statement}
    (hread : Statement.read text none = .ok statement) : text ≠ [] := by
  rintro rfl
  cases hread

/-- A text that has gathered is made a statement of the scope. -/
theorem flush_gathered {statement : Statement}
    (hread : Statement.read text none = .ok statement) :
    (s.gathered text).flush locate =
      .ok { (s.gathered text).declare locate s.scope statement with pending := [] } := by
  have hpending : (s.gathered text).pending.isEmpty = false := by
    simpa [gathered] using ne_nil_of_read hread
  rw [flush]
  simp only [hpending, text_gathered, hread]
  rfl

/-- A statement and its semicolon: the statement is declared in the scope. -/
theorem foldlM_statement (hs : s.pending = []) (htext : ∀ c ∈ text, ¬ IsDelimiter c)
    {statement : Statement} (hread : Statement.read text none = .ok statement) :
    (text ++ [';']).foldlM (step locate) s = .ok { s with
      content := s.content.declare s.scope statement (locate s.offset)
      pending := []
      pendingStart := s.offset
      offset := s.offset + Text.byteLength text + 1
      stats := s.stats.addDeclaration statement } := by
  rw [foldlM_gathered hs (ne_nil_of_read hread) htext, List.foldlM_cons, step_semicolon,
    flush_gathered hread]
  rfl

/-- The state behind the opening brace of a block with this header. -/
def entered (locate : Nat → Location) (s : Scan) (header : Header) : Scan :=
  let (id, tree) := s.content.tree.childOrCreate s.scope header.key
  let declared := header.parameters.foldl (Scan.declare locate id)
    { s with content := { s.content with tree } }
  { declared with
    blocks := ⟨id, s.pendingStart⟩ :: s.blocks
    pending := []
    stats := declared.stats.addBlock (s.blocks.length + 1) }

/-- Declaring changes the content and the counts only. -/
theorem foldl_declare (locate : Nat → Location) (id : NodeId) (s : Scan)
    (statements : List Statement) :
    statements.foldl (Scan.declare locate id) s = { s with
      content := statements.foldl
        (fun content statement ↦ content.declare id statement (locate s.pendingStart)) s.content
      stats := statements.foldl ScanStats.addDeclaration s.stats } := by
  induction statements generalizing s with
  | nil => rfl
  | cons statement rest ih =>
    rw [List.foldl_cons, ih]
    rfl

/-- The block is found or made, and its parameters are declared in it. -/
theorem entered_eq (locate : Nat → Location) (s : Scan) (header : Header) :
    s.entered locate header =
      let (id, tree) := s.content.tree.childOrCreate s.scope header.key
      { s with
        content := header.parameters.foldl
          (fun content statement ↦ content.declare id statement (locate s.pendingStart))
          { s.content with tree }
        blocks := ⟨id, s.pendingStart⟩ :: s.blocks
        pending := []
        stats := (header.parameters.foldl ScanStats.addDeclaration s.stats).addBlock
          (s.blocks.length + 1) } := by
  simp only [entered, foldl_declare]

@[simp] theorem offset_entered (locate : Nat → Location) (s : Scan) (header : Header) :
    (s.entered locate header).offset = s.offset := by
  rw [entered_eq]

/-- With a header that can be read, the block is entered. -/
theorem openBlock_eq {header : Header} (hread : Header.read s.text = .ok header) :
    s.openBlock locate = .ok (s.entered locate header) := by
  simp only [openBlock, hread, entered, List.length_cons]

/-- A header and its opening brace: the block is entered. -/
theorem foldlM_header (hs : s.pending = []) (htext : ∀ c ∈ text, ¬ IsDelimiter c)
    {header : Header} (hread : Header.read text = .ok header) :
    (text ++ ['{']).foldlM (step locate) s = .ok
      { (s.gathered text).entered locate header with
        offset := s.offset + Text.byteLength text + 1 } := by
  have hne : text ≠ [] := by
    rintro rfl
    cases hread
  have hgathered : Header.read (s.gathered text).text = .ok header := by
    rw [text_gathered]
    exact hread
  rw [foldlM_gathered hs hne htext, List.foldlM_cons, step_open, openBlock_eq hgathered]
  simp only [Except.map, offset_entered]
  rfl

/-- No text, no statement. -/
theorem flush_of_pending_eq_nil (hs : s.pending = []) : s.flush locate = .ok s := by
  rw [flush, hs]
  rfl

/-- A closing brace with nothing before it leaves the innermost block. -/
theorem step_close_of_pending_eq_nil (hs : s.pending = []) {b : OpenBlock} {blocks : List OpenBlock}
    (hblocks : s.blocks = b :: blocks) :
    step locate s '}' = .ok { s with blocks, offset := s.offset + 1 } := by
  simp only [step_close, closeBlock, flush_of_pending_eq_nil hs, hblocks, bind, Except.bind]
  rfl

/-- Nothing is left to do at the end when no text waits and no block is open. -/
theorem finish_of_pending_eq_nil (hs : s.pending = []) (hblocks : s.blocks = []) :
    s.finish locate = .ok s := by
  simp only [finish, flush_of_pending_eq_nil hs, hblocks, bind, Except.bind]

end ModContent.Scan
