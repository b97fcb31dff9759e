import ModContent.Proofs.Outcome
import ModContent.Proofs.Source.Segment

/-!
# Documents

A document is a list of items: statements, and blocks with a header and items inside. It has many
texts, which differ in their semicolons (`Renders`). To **evaluate** a document below a node is to
go through its items in order (`Item.evaluateAll`), and this is what a scan of any of its texts does
(`scanFile_renders`): the stack of open blocks and the text that waits stand for the recursion.

An item knows the offset at which its text begins, since a declaration is located there.
-/

namespace ModContent

open Scan (IsDelimiter)
open Text (byteLength)

/-- A statement, or a block with its header and the items inside, and where it begins. -/
inductive Item where
  | statement (offset : Nat) (s : Statement)
  | block (offset : Nat) (header : Header) (items : List Item)
  deriving Repr

/-! ### Texts of a document -/

/-- A text of a list of items, when it begins at some offset. There may be any number of further
semicolons, and the last statement of a block or of the document needs none. -/
inductive Renders : Nat → List Item → List Char → Prop
  | nil {offset : Nat} : Renders offset [] []
  | semicolon {offset : Nat} {items : List Item} {rest : List Char}
      (more : Renders (offset + 1) items rest) : Renders offset items (';' :: rest)
  | last {offset : Nat} {text : List Char} {s : Statement} (free : Free text)
      (reads : Statement.read text none = .ok s) : Renders offset [.statement offset s] text
  | statement {offset : Nat} {text rest : List Char} {s : Statement} {items : List Item}
      (free : Free text) (reads : Statement.read text none = .ok s)
      (more : Renders (offset + byteLength text + 1) items rest) :
      Renders offset (.statement offset s :: items) (text ++ ';' :: rest)
  | block {offset : Nat} {text body rest : List Char} {header : Header} {inner items : List Item}
      (free : Free text) (reads : Header.read text = .ok header)
      (inside : Renders (offset + byteLength text + 1) inner body)
      (more : Renders (offset + byteLength text + 1 + byteLength body + 1) items rest) :
      Renders offset (.block offset header inner :: items) (text ++ '{' :: (body ++ '}' :: rest))

/-! ### Evaluation -/

namespace Item

variable (locate : Nat → Location)

/-- Enters a block below a node, and gives the node of the block: the first child that the key
accepts, or a new last child. The parameters are declared in it. -/
def enter (scope : NodeId) (content : Content) (offset : Nat) (header : Header) :
    NodeId × Content :=
  let (id, tree) := content.tree.childOrCreate scope header.key
  (id, header.parameters.foldl (fun content s ↦ content.declare id s (locate offset))
    { content with tree })

mutual

/-- Evaluates an item below a node: a statement is declared there, and a block is entered before
its items are evaluated in it. -/
def evaluate (scope : NodeId) (content : Content) : Item → Content
  | statement offset s => content.declare scope s (locate offset)
  | block offset header items =>
    let entered := enter locate scope content offset header
    evaluateAll entered.1 entered.2 items

/-- Evaluates items in order. -/
def evaluateAll (scope : NodeId) (content : Content) : List Item → Content
  | [] => content
  | item :: rest => evaluateAll scope (evaluate scope content item) rest

end

end Item

/-! ### Scanning a text of a document -/

namespace Item

variable (locate : Nat → Location) (scope : NodeId)

/-- Items are evaluated one after the other. -/
theorem evaluateAll_append (content : Content) (items more : List Item) :
    evaluateAll locate scope content (items ++ more) =
      evaluateAll locate scope (evaluateAll locate scope content items) more := by
  induction items generalizing content with
  | nil => rfl
  | cons item rest ih => exact ih (evaluate locate scope content item)

end Item

namespace Scan

variable {locate : Nat → Location} {s mid next : Scan} {first text rest body : List Char}
  {items more inner : List Item}

/-- From one state to another a text was gone through and its items were evaluated in the scope. The
same blocks are open, and nothing waits. -/
structure Evaluated (locate : Nat → Location) (text : List Char) (items : List Item)
    (s next : Scan) : Prop where
  pending : next.pending = []
  blocks : next.blocks = s.blocks
  offset : next.offset = s.offset + byteLength text
  content : next.content = Item.evaluateAll locate s.scope s.content items

theorem Evaluated.trans (h : Evaluated locate first items s mid)
    (h' : Evaluated locate rest more mid next) :
    Evaluated locate (first ++ rest) (items ++ more) s next := by
  refine ⟨h'.pending, h'.blocks.trans h.blocks, ?_, ?_⟩
  · rw [h'.offset, h.offset, Text.byteLength_append, Nat.add_assoc]
  · rw [h'.content, scope_eq h.blocks, h.content, Item.evaluateAll_append]

/-! #### Parts that end in a delimiter -/

variable (locate)

/-- A lone semicolon is scanned to no item. -/
theorem exists_evaluated_semicolon (hs : s.pending = []) :
    ∃ next, [';'].foldlM (step locate) s = .ok next ∧ Evaluated locate [';'] [] s next := by
  refine ⟨{ s with offset := s.offset + 1 }, ?_, hs, rfl, rfl, rfl⟩
  rw [List.foldlM_cons, step_semicolon, flush_of_pending_eq_nil hs]
  rfl

/-- A text that can be read is scanned to its statement. -/
theorem exists_evaluated_statement (hs : s.pending = []) (hfree : Free text)
    {statement : Statement} (hread : Statement.read text none = .ok statement) :
    ∃ next, (text ++ [';']).foldlM (step locate) s = .ok next ∧
      Evaluated locate (text ++ [';']) [.statement s.offset statement] s next := by
  refine ⟨_, foldlM_statement hs hfree hread, rfl, rfl, ?_, rfl⟩
  rw [Text.byteLength_append, ← Nat.add_assoc]
  rfl

/-- Behind its header a block is entered. -/
theorem exists_entered (hs : s.pending = []) (hfree : Free text) {header : Header}
    (hread : Header.read text = .ok header) :
    ∃ next, (text ++ ['{']).foldlM (step locate) s = .ok next ∧ next.pending = [] ∧
      next.offset = s.offset + byteLength text + 1 ∧
      next.blocks =
        ⟨(Item.enter locate s.scope s.content s.offset header).1, s.offset⟩ :: s.blocks ∧
      next.content = (Item.enter locate s.scope s.content s.offset header).2 := by
  refine ⟨_, foldlM_header hs hfree hread, ?_⟩
  rw [entered_eq]
  exact ⟨rfl, rfl, rfl, rfl⟩

/-- A block is left at its closing brace, after the last statement in it was made. -/
theorem foldlM_close (hscan : text.foldlM (step locate) s >>= flush locate = .ok next)
    {b : OpenBlock} {blocks : List OpenBlock} (hblocks : next.blocks = b :: blocks) :
    (text ++ ['}']).foldlM (step locate) s =
      .ok { next with blocks, offset := next.offset + 1 } := by
  obtain ⟨mid, hmid, hflush⟩ := bind_eq_ok_iff.1 hscan
  have hclose : mid.closeBlock locate = .ok { next with blocks } := by
    simp only [closeBlock, hflush, hblocks, bind, Except.bind]
  rw [foldlM_append_of_ok hmid, List.foldlM_cons, step_close, hclose]
  rfl

/-- A block with its braces is evaluated, if what stands inside is. -/
theorem exists_evaluated_block (hs : s.pending = []) (hfree : Free text) {header : Header}
    (hread : Header.read text = .ok header)
    (hinside : ∀ {opened : Scan}, opened.pending = [] →
      opened.offset = s.offset + byteLength text + 1 →
      ∃ next, body.foldlM (step locate) opened >>= flush locate = .ok next ∧
        Evaluated locate body inner opened next) :
    ∃ next, (text ++ ['{'] ++ (body ++ ['}'])).foldlM (step locate) s = .ok next ∧
      Evaluated locate (text ++ ['{'] ++ (body ++ ['}'])) [.block s.offset header inner] s
        next := by
  obtain ⟨opened, hheader, hpending, hoffset, hblocks, hcontent⟩ :=
    exists_entered locate hs hfree hread
  obtain ⟨closing, hscan, hevaluated⟩ := hinside hpending hoffset
  have hclose := foldlM_close locate hscan (hevaluated.blocks.trans hblocks)
  have hscope : opened.scope = (Item.enter locate s.scope s.content s.offset header).1 := by
    rw [scope, hblocks]
    rfl
  refine ⟨_, (foldlM_append_of_ok hheader _).trans hclose, hevaluated.pending, rfl, ?_, ?_⟩
  · have hbraces : byteLength ['{'] = 1 ∧ byteLength ['}'] = 1 := ⟨rfl, rfl⟩
    simp only [Text.byteLength_append, hbraces.1, hbraces.2, hevaluated.offset, hoffset]
    omega
  · show closing.content = _
    rw [hevaluated.content, hcontent, hscope]
    rfl

/-! #### Whole texts -/

/-- The last statement waits until it is made. -/
theorem exists_evaluated_last (hs : s.pending = []) (hfree : Free text) {statement : Statement}
    (hread : Statement.read text none = .ok statement) :
    ∃ next, text.foldlM (step locate) s >>= flush locate = .ok next ∧
      Evaluated locate text [.statement s.offset statement] s next := by
  have hscan : (text ++ []).foldlM (step locate) s = .ok (s.gathered text) :=
    foldlM_gathered hs (ne_nil_of_read hread) hfree []
  rw [List.append_nil] at hscan
  refine ⟨{ (s.gathered text).declare locate s.scope statement with pending := [] }, ?_, rfl, rfl,
    rfl, rfl⟩
  rw [hscan]
  exact flush_gathered hread

/-- A part that is scanned goes before what is scanned behind it. -/
theorem exists_evaluated_append (hfirst : first.foldlM (step locate) s = .ok mid)
    (hevaluated : Evaluated locate first items s mid)
    (hrest : ∃ next, rest.foldlM (step locate) mid >>= flush locate = .ok next ∧
      Evaluated locate rest more mid next) :
    ∃ next, (first ++ rest).foldlM (step locate) s >>= flush locate = .ok next ∧
      Evaluated locate (first ++ rest) (items ++ more) s next := by
  obtain ⟨next, hscan, hnext⟩ := hrest
  refine ⟨next, ?_, hevaluated.trans hnext⟩
  rw [foldlM_append_of_ok hfirst]
  exact hscan

/-- **Scanning a text of some items evaluates them**, once the last statement is made. -/
theorem exists_evaluated_of_renders {offset : Nat} (h : Renders offset items text)
    (hs : s.pending = []) (hoffset : s.offset = offset) :
    ∃ next, text.foldlM (step locate) s >>= flush locate = .ok next ∧
      Evaluated locate text items s next := by
  induction h generalizing s with
  | nil => exact ⟨s, flush_of_pending_eq_nil hs, hs, rfl, rfl, rfl⟩
  | semicolon more ih =>
    obtain ⟨mid, hscan, hmid⟩ := exists_evaluated_semicolon locate hs
    exact exists_evaluated_append locate hscan hmid (ih hmid.pending (hoffset ▸ hmid.offset))
  | last free reads =>
    subst hoffset
    exact exists_evaluated_last locate hs free reads
  | statement free reads more ih =>
    subst hoffset
    obtain ⟨mid, hscan, hmid⟩ := exists_evaluated_statement locate hs free reads
    rw [List.append_cons]
    refine exists_evaluated_append locate hscan hmid (ih hmid.pending ?_)
    rw [hmid.offset, Text.byteLength_append, ← Nat.add_assoc]
    rfl
  | @block offset text body rest header inner items free reads inside more ihInside ihMore =>
    subst hoffset
    obtain ⟨mid, hscan, hmid⟩ := exists_evaluated_block locate hs free reads ihInside
    have hsplit : text ++ '{' :: (body ++ '}' :: rest) =
        text ++ ['{'] ++ (body ++ ['}']) ++ rest := by simp
    rw [hsplit]
    refine exists_evaluated_append locate hscan hmid (ihMore hmid.pending ?_)
    have hbraces : byteLength ['{'] = 1 ∧ byteLength ['}'] = 1 := ⟨rfl, rfl⟩
    simp only [hmid.offset, Text.byteLength_append, hbraces.1, hbraces.2]
    omega

end Scan

/-- **A file is scanned** to what its items evaluate to below the root, and it is accepted. -/
theorem scanFile_renders (content : Content) (file : String) {source : NormalizedSource}
    {items : List Item} (h : Renders 0 items source.text) :
    ∃ stats, scanFile content file source =
      (Item.evaluateAll (source.locate file) ContentTree.root content items, .ok stats) := by
  obtain ⟨next, hscan, hnext⟩ :=
    Scan.exists_evaluated_of_renders (source.locate file) h (s := Scan.start content) rfl rfl
  obtain ⟨mid, hmid, hflush⟩ := bind_eq_ok_iff.1 hscan
  have hblocks : next.blocks = [] := hnext.blocks
  have hfinish : mid.finish (source.locate file) = .ok next := by
    simp only [Scan.finish, hflush, hblocks, bind, Except.bind]
  refine ⟨next.stats, ?_⟩
  simp only [scanFile, Scan.run, hmid, hfinish, bind, Except.bind]
  rw [hnext.content]
  rfl

end ModContent
