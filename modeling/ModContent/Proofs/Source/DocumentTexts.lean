import ModContent.Proofs.Source.Accepted
import ModContent.Proofs.Source.Document

/-!
# Texts of documents

A text is accepted exactly if it is the text of a document (`accepted_iff_exists_renders`). From the
text the document is found segment by segment, from the end: behind each segment stand the items
that follow in each of the blocks that are open there (`Unwinds`).
-/

namespace ModContent

open Scan (IsDelimiter)
open Text (byteLength)

variable {text rest first : List Char} {opens opens' offset : Nat} {items : List Item}

/-! ### Blocks to be closed -/

/-- A text that closes this many blocks more than it opens, and never another one. -/
structure Closes (opens : Nat) (text : List Char) : Prop where
  nested : ∀ before, before <+: text → before.count '}' ≤ before.count '{' + opens
  equal : text.count '}' = text.count '{' + opens

namespace Closes

/-- Blocks that are opened have to be closed by what follows. -/
theorem behind (h : Closes opens (first ++ rest))
    (hopens : first.count '{' + opens = first.count '}' + opens') : Closes opens' rest := by
  refine ⟨fun before hbefore ↦ ?_, ?_⟩
  · have hle := h.nested (first ++ before) ((List.prefix_append_right_inj first).2 hbefore)
    rw [List.count_append, List.count_append] at hle
    omega
  · have hequal := h.equal
    rw [List.count_append, List.count_append] at hequal
    omega

theorem eq_zero_of_free (h : Closes opens text) (hfree : Free text) : opens = 0 := by
  have hequal := h.equal
  rw [hfree.flat.count_close, hfree.flat.count_open] at hequal
  omega

/-- Behind an opening brace one more block is to be closed. -/
theorem header (h : Closes opens (text ++ '{' :: rest)) (hfree : Free text) :
    Closes (opens + 1) rest := by
  rw [List.append_cons] at h
  refine h.behind ?_
  simp [hfree.flat.count_open, hfree.flat.count_close]
  omega

/-- Behind a semicolon the same blocks are to be closed. -/
theorem semicolon (h : Closes opens (text ++ ';' :: rest)) (hfree : Free text) :
    Closes opens rest := by
  rw [List.append_cons] at h
  refine h.behind ?_
  simp [hfree.flat.count_open, hfree.flat.count_close]

theorem close (h : Closes opens (text ++ '}' :: rest)) (hfree : Free text) :
    ∃ outer, opens = outer + 1 ∧ Closes outer rest := by
  rw [List.append_cons] at h
  have hle := h.nested (text ++ ['}']) (List.prefix_append _ _)
  simp only [List.count_append, hfree.flat.count_open, hfree.flat.count_close] at hle
  have hpos : 1 ≤ opens := by simpa using hle
  refine ⟨opens - 1, by omega, h.behind ?_⟩
  simp [hfree.flat.count_open, hfree.flat.count_close]
  omega

end Closes

/-! ### Segments of a legible text -/

/-- What stands behind a header is legible, and the header can be read. -/
theorem Legible.behind_header (h : Legible (text ++ '{' :: rest)) (hfree : Free text) :
    (∃ header, Header.read text = .ok header) ∧ Legible rest := by
  obtain ⟨hheaders, hstatements⟩ := h
  rw [headerTexts_open hfree] at hheaders
  rw [statementTexts_open hfree] at hstatements
  obtain ⟨hheader, hrest⟩ := List.forall_mem_cons.1 hheaders
  exact ⟨hheader, hrest, hstatements⟩

/-- What stands behind a statement is legible, and the statement can be read if there is one. -/
theorem Legible.behind_statement {d : Char} (h : Legible (text ++ d :: rest)) (hfree : Free text)
    (hd : IsDelimiter d) (hopen : d ≠ '{') :
    (text ≠ [] → ∃ statement, Statement.read text none = .ok statement) ∧ Legible rest := by
  obtain ⟨hheaders, hstatements⟩ := h
  rw [headerTexts_end hfree hd hopen] at hheaders
  rw [statementTexts_end hfree hd hopen] at hstatements
  obtain ⟨hstatement, hrest⟩ := List.forall_mem_append.1 hstatements
  exact ⟨fun hne ↦ hstatement text (mem_statementText? hne), hheaders, hrest⟩

/-- A last segment is the text of a statement, or of nothing. -/
theorem exists_renders_of_free (hfree : Free text) (offset : Nat)
    (hread : text ≠ [] → ∃ statement, Statement.read text none = .ok statement) :
    ∃ items, Renders offset items text := by
  by_cases htext : text = []
  · exact ⟨[], htext ▸ .nil⟩
  · obtain ⟨statement, hstatement⟩ := hread htext
    exact ⟨_, .last hfree hstatement⟩

/-! ### From the text to the document -/

/-- What is left of the text of a document where some blocks are open: the items that follow in each
of them, with its closing brace, and the items that follow outside. -/
inductive Unwinds : Nat → Nat → List Char → Prop
  | outside {offset : Nat} {items : List Item} {text : List Char}
      (renders : Renders offset items text) : Unwinds 0 offset text
  | inside {opens offset : Nat} {items : List Item} {body rest : List Char}
      (renders : Renders offset items body)
      (more : Unwinds opens (offset + byteLength body + 1) rest) :
      Unwinds (opens + 1) offset (body ++ '}' :: rest)

namespace Unwinds

/-- What is put before belongs to the innermost block. -/
theorem prepend (h : Unwinds opens (offset + byteLength first) rest)
    (hfirst : ∀ {items rest}, Renders (offset + byteLength first) items rest →
      ∃ items', Renders offset items' (first ++ rest)) : Unwinds opens offset (first ++ rest) := by
  cases h with
  | outside renders =>
    obtain ⟨items', hrenders⟩ := hfirst renders
    exact .outside hrenders
  | @inside opens _ items body rest renders more =>
    obtain ⟨items', hrenders⟩ := hfirst renders
    rw [← List.append_assoc]
    refine .inside hrenders ?_
    rw [Text.byteLength_append, ← Nat.add_assoc]
    exact more

/-- A statement with its semicolon goes in front of what unwinds. -/
theorem semicolon (hfree : Free text)
    (hread : text ≠ [] → ∃ statement, Statement.read text none = .ok statement)
    (h : Unwinds opens (offset + byteLength (text ++ [';'])) rest) :
    Unwinds opens offset (text ++ ';' :: rest) := by
  rw [List.append_cons]
  refine h.prepend fun {items rest} hmore ↦ ?_
  rw [Text.byteLength_append, ← Nat.add_assoc] at hmore
  rw [← List.append_cons]
  by_cases htext : text = []
  · subst htext
    exact ⟨items, .semicolon hmore⟩
  · obtain ⟨statement, hstatement⟩ := hread htext
    exact ⟨_, .statement hfree hstatement hmore⟩

/-- A block goes on to the first closing brace that is left over. -/
theorem header {header : Header} (hfree : Free text) (hread : Header.read text = .ok header)
    (h : Unwinds (opens + 1) (offset + byteLength text + 1) rest) :
    Unwinds opens offset (text ++ '{' :: rest) := by
  cases h with
  | @inside _ _ inner body rest renders more =>
    have hsplit : ∀ rest, text ++ '{' :: (body ++ '}' :: rest) =
        (text ++ '{' :: (body ++ ['}'])) ++ rest := by simp
    have hlength : offset + byteLength (text ++ '{' :: (body ++ ['}'])) =
        offset + byteLength text + 1 + byteLength body + 1 := by
      have hbraces : '{'.utf8Size = 1 ∧ '}'.utf8Size = 1 := ⟨rfl, rfl⟩
      simp only [Text.byteLength_append, Text.byteLength_cons, Text.byteLength_nil, hbraces.1,
        hbraces.2]
      omega
    rw [hsplit]
    refine prepend (hlength ▸ more) fun {items rest} hmore ↦ ?_
    rw [hlength] at hmore
    rw [← hsplit]
    exact ⟨_, .block hfree hread renders hmore⟩

/-- A legible text that closes the blocks that are open. -/
theorem of_legible (hlegible : Legible text) (hcloses : Closes opens text) :
    Unwinds opens offset text := by
  induction text using segment_induction generalizing opens offset with
  | last text hfree =>
    obtain rfl := hcloses.eq_zero_of_free hfree
    obtain ⟨items, hrenders⟩ := exists_renders_of_free hfree offset fun hne ↦
      hlegible.statements text (statementTexts_of_free hfree ▸ mem_statementText? hne)
    exact .outside hrenders
  | cons text d rest hfree hd ih =>
    rcases hd with rfl | rfl | rfl
    · obtain ⟨⟨header, hread⟩, hrest⟩ := hlegible.behind_header hfree
      exact .header hfree hread (ih hrest (hcloses.header hfree))
    · obtain ⟨hread, hrest⟩ := hlegible.behind_statement hfree (.inr (.inl rfl)) (by decide)
      obtain ⟨outer, rfl, houter⟩ := hcloses.close hfree
      obtain ⟨items, hrenders⟩ := exists_renders_of_free hfree offset hread
      exact .inside hrenders (ih hrest houter)
    · obtain ⟨hread, hrest⟩ := hlegible.behind_statement hfree (.inr (.inr rfl)) (by decide)
      exact .semicolon hfree hread (ih hrest (hcloses.semicolon hfree))

end Unwinds

/-- **A text is accepted exactly if it is the text of a document.** -/
theorem accepted_iff_exists_renders (content : Content) (file : String)
    (source : NormalizedSource) :
    (∃ stats, (scanFile content file source).2 = .ok stats) ↔
      ∃ items, Renders 0 items source.text := by
  constructor
  · intro haccepted
    obtain ⟨hbalanced, hlegible⟩ := (scanFile_isOk_iff content file source).1 haccepted
    have hunwinds : Unwinds 0 0 source.text :=
      .of_legible hlegible ⟨hbalanced.nested, hbalanced.equal.symm⟩
    cases hunwinds with
    | outside renders => exact ⟨_, renders⟩
  · rintro ⟨items, hrenders⟩
    obtain ⟨stats, hscan⟩ := scanFile_renders content file hrenders
    exact ⟨stats, congrArg Prod.snd hscan⟩

end ModContent
