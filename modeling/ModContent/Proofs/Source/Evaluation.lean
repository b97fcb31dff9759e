import ModContent.Proofs.Source.Declared
import ModContent.Proofs.Source.Document

/-!
# What a document does

What the items of a document do is told twice. They edit the outline of the node in which they stand
(`Item.applyAll`), and nothing else changes; and they make declarations, whose log tells what stands
under each key of each node (`Item.declarationsAll`). A file that is scanned does what its items do,
whatever tree and queue it starts from (`scan_evaluates_document`).
-/

namespace ModContent

open ContentTree (Edited Within)
open Content (Logs Declared)

namespace Item

mutual

/-- What an item does to the outline of the node in which it stands: a statement puts a property
there, and a block puts its parameters into a child before its items edit it. -/
def apply : Item → Outline → Outline
  | statement _ s, o => o.put (Content.declaredProperty s)
  | block _ header items, o => o.enter header.key fun child ↦
      applyAll items ((header.parameters.map Content.declaredProperty).foldl Outline.put child)

/-- What items do one after the other. -/
def applyAll : List Item → Outline → Outline
  | [], o => o
  | item :: rest, o => applyAll rest (apply item o)

end

section

variable (locate : Nat → Location)

mutual

/-- The declarations that the evaluation of an item makes, those of parameters included. -/
def declarations (scope : NodeId) (content : Content) : Item → List Declaration
  | statement offset s => [⟨scope, s, locate offset⟩]
  | block offset header items =>
    let entered := enter locate scope content offset header
    header.parameters.map (fun s ↦ ⟨entered.1, s, locate offset⟩) ++
      declarationsAll entered.1 entered.2 items

/-- The declarations that the evaluation of some items makes, in order. -/
def declarationsAll (scope : NodeId) (content : Content) : List Item → List Declaration
  | [] => []
  | item :: rest => declarations scope content item ++
      declarationsAll scope (evaluate locate scope content item) rest

end

end

/-! ### Entering a block -/

section Enter

/-- Parameters are put in one after the other. -/
theorem edited_declare_parameters (content : Content) (id : NodeId) (location : Location)
    (parameters : List Statement) (ht : content.tree.Linked) :
    Edited id (fun o ↦ (parameters.map Content.declaredProperty).foldl Outline.put o) content.tree
      (parameters.foldl (fun content s ↦ content.declare id s location) content).tree := by
  induction parameters generalizing content with
  | nil => exact .refl ht id
  | cons s rest ih =>
    have hdeclared := Edited.insert ht id (Content.declaredProperty s)
    rw [← Content.tree_declare content id s location] at hdeclared
    exact hdeclared.trans (ih _ hdeclared.linked)

/-- Parameters are declared in order, all at the location of their header. -/
theorem logs_declare_parameters (content : Content) (id : NodeId) (location : Location)
    (parameters : List Statement) (hlive : content.tree.isLive id) :
    Logs content (parameters.map fun s ↦ ⟨id, s, location⟩)
      (parameters.foldl (fun content s ↦ content.declare id s location) content) := by
  induction parameters generalizing content with
  | nil => exact .refl
  | cons s rest ih =>
    have hdeclared : Logs content [⟨id, s, location⟩] (content.declare id s location) :=
      Logs.declare (d := ⟨id, s, location⟩) .refl hlive
    exact hdeclared.trans (ih _ ((Content.isLive_declare ..).trans hlive))

variable (locate : Nat → Location) {scope : NodeId} {content : Content}

/-- What entering a block does once its node is there. -/
theorem edited_parameters (hscope : content.tree.isLive scope) (ht : content.tree.Linked)
    (offset : Nat) (header : Header) :
    Edited (enter locate scope content offset header).1
      (fun o ↦ (header.parameters.map Content.declaredProperty).foldl Outline.put o)
      (content.tree.childOrCreate scope header.key).2
      (enter locate scope content offset header).2.tree :=
  edited_declare_parameters { content with tree := (content.tree.childOrCreate scope header.key).2 }
    _ (locate offset) header.parameters (ht.childOrCreate hscope header.key)

/-- Entering a block and then doing more in it. -/
theorem edited_enter (hscope : content.tree.isLive scope) (ht : content.tree.Linked)
    (offset : Nat) (header : Header) {f : Outline → Outline} {after : ContentTree}
    (h : Edited (enter locate scope content offset header).1 f
      (enter locate scope content offset header).2.tree after) :
    Edited scope
      (fun o ↦ o.enter header.key fun child ↦
        f ((header.parameters.map Content.declaredProperty).foldl Outline.put child))
      content.tree after :=
  Edited.enter ht hscope ((edited_parameters locate hscope ht offset header).trans h)

/-- Entering a block declares the parameters of its header in it. -/
theorem logs_enter (hscope : content.tree.isLive scope) (ht : content.tree.Linked)
    (offset : Nat) (header : Header) :
    Logs content
      (header.parameters.map fun s ↦
        ⟨(enter locate scope content offset header).1, s, locate offset⟩)
      (enter locate scope content offset header).2 := by
  have hmade : Logs content []
      { content with tree := (content.tree.childOrCreate scope header.key).2 } :=
    .enter .refl hscope header.key
  exact hmade.trans (logs_declare_parameters _ _ (locate offset) header.parameters
    (ht.isLive_childOrCreate hscope header.key))

/-- The node of an entered block is live, in a linked tree. -/
theorem linked_enter (hscope : content.tree.isLive scope) (ht : content.tree.Linked)
    (offset : Nat) (header : Header) :
    (enter locate scope content offset header).2.tree.Linked ∧
      (enter locate scope content offset header).2.tree.isLive
        (enter locate scope content offset header).1 = true := by
  have hparameters := edited_parameters locate hscope ht offset header
  exact ⟨hparameters.linked,
    hparameters.within.isLive (ht.isLive_childOrCreate hscope header.key)⟩

end Enter

/-! ### Evaluating -/

section Evaluate

variable (locate : Nat → Location)

mutual

/-- One item edits the outline below its scope and logs its declarations, by recursion on it. -/
theorem evaluate_spec : ∀ (item : Item) {scope : NodeId} {content : Content},
    content.tree.Linked → content.tree.isLive scope →
      Edited scope item.apply content.tree (evaluate locate scope content item).tree ∧
        Logs content (declarations locate scope content item) (evaluate locate scope content item)
  | statement offset s, scope, content, ht, hscope => by
    refine ⟨?_, .declare .refl hscope⟩
    rw [evaluate, Content.tree_declare]
    exact .insert ht scope (Content.declaredProperty s)
  | block offset header items, scope, content, ht, hscope => by
    obtain ⟨hlinked, hlive⟩ := linked_enter locate hscope ht offset header
    obtain ⟨hedited, hlogs⟩ := evaluateAll_spec items hlinked hlive
    exact ⟨edited_enter locate hscope ht offset header hedited,
      (logs_enter locate hscope ht offset header).trans hlogs⟩

/-- **Evaluating items** edits the outline of their node, and its log is that of their
declarations. -/
theorem evaluateAll_spec : ∀ (items : List Item) {scope : NodeId} {content : Content},
    content.tree.Linked → content.tree.isLive scope →
      Edited scope (applyAll items) content.tree (evaluateAll locate scope content items).tree ∧
        Logs content (declarationsAll locate scope content items)
          (evaluateAll locate scope content items)
  | [], scope, content, ht, _ => ⟨.refl ht scope, .refl⟩
  | item :: rest, scope, content, ht, hscope => by
    obtain ⟨hedited, hlogs⟩ := evaluate_spec item ht hscope
    obtain ⟨heditedRest, hlogsRest⟩ :=
      evaluateAll_spec rest hedited.linked (hedited.within.isLive hscope)
    exact ⟨hedited.trans heditedRest, hlogs.trans hlogsRest⟩

end

end Evaluate

/-- Entering a block asks for the location of its header only. -/
theorem enter_congr {locate locate' : Nat → Location} {offset : Nat}
    (h : locate offset = locate' offset) (scope : NodeId) (content : Content) (header : Header) :
    enter locate scope content offset header = enter locate' scope content offset header := by
  rw [enter, enter, h]

end Item

/-- The items of a text ask for locations in the text only. -/
theorem Renders.evaluateAll_congr {locate locate' : Nat → Location} {offset : Nat}
    {items : List Item} {text : List Char} (h : Renders offset items text)
    (hlocate : ∀ i, offset ≤ i → i < offset + Text.byteLength text → locate i = locate' i)
    (scope : NodeId) (content : Content) :
    Item.evaluateAll locate scope content items = Item.evaluateAll locate' scope content items ∧
      Item.declarationsAll locate scope content items =
        Item.declarationsAll locate' scope content items := by
  have hone : ';'.utf8Size = 1 ∧ '{'.utf8Size = 1 ∧ '}'.utf8Size = 1 := ⟨rfl, rfl, rfl⟩
  obtain ⟨hsemicolon, hopen, hclose⟩ := hone
  induction h generalizing scope content with
  | nil => exact ⟨rfl, rfl⟩
  | semicolon more ih =>
    refine ih (fun i hge hlt ↦ hlocate i (by omega) ?_) scope content
    rw [Text.byteLength_cons]
    omega
  | @last offset text s free reads =>
    have hpos := Text.byteLength_pos (Scan.ne_nil_of_read reads)
    have hhere : locate offset = locate' offset := hlocate offset (Nat.le_refl _) (by omega)
    simp only [Item.evaluateAll, Item.evaluate, Item.declarationsAll, Item.declarations, hhere,
      and_self]
  | @statement offset text rest s items free reads more ih =>
    rw [Text.byteLength_append, Text.byteLength_cons, hsemicolon] at hlocate
    have hhere : locate offset = locate' offset := hlocate offset (Nat.le_refl _) (by omega)
    have hmore := ih fun i hge hlt ↦ hlocate i (by omega) (by omega)
    simp only [Item.evaluateAll, Item.evaluate, Item.declarationsAll, Item.declarations, hhere,
      hmore, and_self]
  | @block offset text body rest header inner items free reads inside more ihInside ihMore =>
    rw [Text.byteLength_append, Text.byteLength_cons, Text.byteLength_append, Text.byteLength_cons,
      hopen, hclose] at hlocate
    have hhere : locate offset = locate' offset := hlocate offset (Nat.le_refl _) (by omega)
    have hinside := ihInside fun i hge hlt ↦ hlocate i (by omega) (by omega)
    have hmore := ihMore fun i hge hlt ↦ hlocate i (by omega) (by omega)
    simp only [Item.evaluateAll, Item.evaluate, Item.declarationsAll, Item.declarations, hhere,
      Item.enter_congr hhere, hinside, hmore, and_self]

/-! ### Scanning -/

/-- **Scanning a text of a document evaluates the document** below the root, whatever the content is
that it starts from. If the tree was made by its operations, its outline is edited as the items say,
nothing else in it changes, and each key of each node ends with its last declaration, in the place
of its first. -/
theorem scan_evaluates_document (content : Content) (file : String) (source : NormalizedSource)
    (items : List Item) (hrenders : Renders 0 items source.text) :
    ∃ after stats, scanFile content file source = (after, .ok stats) ∧
      after = Item.evaluateAll (source.locate file) ContentTree.root content items ∧
      (content.tree.Reachable →
        after.tree.outline = Item.applyAll items content.tree.outline ∧
        Within ContentTree.root content.tree after.tree ∧
        Declared (Item.declarationsAll (source.locate file) ContentTree.root content items)
          content after) := by
  obtain ⟨stats, hscan⟩ := scanFile_renders content file hrenders
  refine ⟨_, stats, hscan, rfl, fun htree ↦ ?_⟩
  have hlinked := htree.linked
  obtain ⟨hedited, hlogs⟩ :=
    Item.evaluateAll_spec (source.locate file) items hlinked hlinked.live
  refine ⟨?_, hedited.within, hlogs.declared hlinked⟩
  have houtline := hedited.outline
  rw [hedited.linked.outlineOf?_root, hlinked.outlineOf?_root, Option.map_some] at houtline
  exact Option.some.inj houtline

/-- A block that is entered again by its bare name, where its parameter is declared again. -/
def reentered : NormalizedSource :=
  normalizeText "unit:a(hp = 1) \x7b x = 2;; \x7d ; a \x7b parameter:hp = 3 \x7d"

/-- A block that is entered twice, the second time without its category. -/
theorem scan_evaluates_document_of_reentered :
    ∃ after stats, scanFile (Content.start ContentTree.new []) "units.txt" reentered =
        (after, .ok stats) ∧
      after.tree.outline = .node (Key.named "") []
        [.node ⟨"a", some "unit"⟩
          [Property.of ⟨"hp", some "parameter"⟩ ["3"], Property.of (Key.named "x") ["2"]] []] := by
  let items : List Item :=
    [.block 0 ⟨⟨"a", some "unit"⟩, [⟨⟨"hp", some "parameter"⟩, .values ["1"]⟩]⟩
        [.statement 13 ⟨Key.named "x", .values ["2"]⟩],
      .block 20 ⟨Key.named "a", []⟩ [.statement 22 ⟨⟨"hp", some "parameter"⟩, .values ["3"]⟩]]
  have htext : reentered.text = "unit:a(hp=1)".toList ++ '\x7b' ::
      (("x=2".toList ++ ';' :: [';']) ++ '\x7d' :: ';' ::
        ("a".toList ++ '\x7b' :: ("parameter:hp=3".toList ++ '\x7d' :: []))) := by
    decide +kernel
  have hrenders : Renders 0 items reentered.text := by
    rw [htext]
    have hfree : Free "unit:a(hp=1)".toList ∧ Free "x=2".toList ∧ Free "a".toList ∧
        Free "parameter:hp=3".toList := by
      decide +kernel
    obtain ⟨hunit, hx, ha, hparameter⟩ := hfree
    refine .block hunit rfl (.statement hx rfl (.semicolon .nil)) (.semicolon ?_)
    exact .block ha rfl (.last hparameter rfl) .nil
  obtain ⟨after, stats, hscan, -, htree⟩ := scan_evaluates_document
    (Content.start ContentTree.new []) "units.txt" reentered items hrenders
  exact ⟨after, stats, hscan, (htree .new).1⟩

end ModContent
