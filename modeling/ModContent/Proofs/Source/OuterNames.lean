import ModContent.Package
import ModContent.Proofs.Source.Document

/-!
# Names outside all blocks

A file declares properties of the root and opens blocks below it. Their names can be read off the
text of the file: they stand in the segments that begin outside all blocks, where a segment that
ends at an opening brace names a block and any other one a property (`outerNames`). Categories are
left out, and so are the parameters of headers, which belong to the block.

These are the names of the items of the document that the file is a text of
(`Renders.outerNames_eq`).
-/

namespace ModContent

/-- The name of a property of the root, or of a block below it. -/
inductive OuterName where
  | property (name : String)
  | block (name : String)
  deriving DecidableEq, Repr

/-- The segments that begin outside all blocks, when the first of them begins in this many. -/
def outerSegments : Nat → List Segment → List Segment
  | _, [] => []
  | depth, s :: rest =>
    let next := if s.ending = some '{' then depth + 1 else if s.ending = some '}' then depth - 1
      else depth
    if depth = 0 then s :: outerSegments next rest else outerSegments next rest

/-- The name in a segment; none if the segment is empty or cannot be read. -/
def Segment.outerName? (s : Segment) : Option OuterName :=
  if s.ending = some '{' then (Header.read s.text).toOption.map fun h ↦ .block h.key.name
  else (Statement.read s.text none).toOption.map fun s ↦ .property s.key.name

/-- The names in a text that stand outside all blocks. -/
def outerNames (text : List Char) : List OuterName :=
  (outerSegments 0 (segments text)).filterMap Segment.outerName?

/-- The names of the root properties and top-level blocks of a file. -/
def SourceFile.outerNames (file : SourceFile) : List OuterName :=
  ModContent.outerNames (normalize (file.lines.map String.toList)).text

/-- No block name of the top level and no property name of the root stands in both files. -/
def SourceFile.Apart (f g : SourceFile) : Prop := ∀ name ∈ f.outerNames, name ∉ g.outerNames

instance (f g : SourceFile) : Decidable (f.Apart g) :=
  inferInstanceAs (Decidable (∀ name ∈ f.outerNames, name ∉ g.outerNames))

/-- The name of an item. -/
def Item.outerName : Item → OuterName
  | statement _ s => .property s.key.name
  | block _ header _ => .block header.key.name

variable {offset depth : Nat} {items : List Item} {text body rest : List Char} {s : Statement}
  {header : Header}

/-! ### Segments inside blocks -/

/-- Inside a block, an opening brace leads one block deeper. -/
theorem outerSegments_open (free : Free text) (rest : List Char) :
    outerSegments (depth + 1) (segments (text ++ '{' :: rest)) =
      outerSegments (depth + 2) (segments rest) := by
  rw [segments_append_cons free (.inl rfl)]
  rfl

/-- A closing brace leads out of one block. -/
theorem outerSegments_close (free : Free text) (rest : List Char) :
    outerSegments (depth + 1) (segments (text ++ '}' :: rest)) =
      outerSegments depth (segments rest) := by
  rw [segments_append_cons free (.inr (.inl rfl))]
  rfl

/-- A semicolon leads nowhere. -/
theorem outerSegments_semicolon (free : Free text) (rest : List Char) :
    outerSegments (depth + 1) (segments (text ++ ';' :: rest)) =
      outerSegments (depth + 1) (segments rest) := by
  rw [segments_append_cons free (.inr (.inr rfl))]
  rfl

theorem free_nil : Free [] := fun _ hc ↦ absurd hc List.not_mem_nil

/-- A block that is open is left at its closing brace, whatever stands inside. -/
theorem Renders.outerSegments_close (h : Renders offset items body) (depth : Nat)
    (rest : List Char) : outerSegments (depth + 1) (segments (body ++ '}' :: rest)) =
      outerSegments depth (segments rest) := by
  induction h generalizing depth rest with
  | nil => exact ModContent.outerSegments_close free_nil rest
  | semicolon _ ih => exact (outerSegments_semicolon free_nil _).trans (ih depth rest)
  | last free _ => exact ModContent.outerSegments_close free rest
  | statement free _ _ ih =>
    rw [List.append_assoc, List.cons_append, outerSegments_semicolon free]
    exact ih depth rest
  | @block _ _ inside more _ _ _ free _ _ _ ihInside ihMore =>
    have hsplit : ∀ before : List Char, before ++ '{' :: (inside ++ '}' :: more) ++ '}' :: rest =
        before ++ '{' :: (inside ++ '}' :: (more ++ '}' :: rest)) := by
      intro before
      simp
    rw [hsplit, outerSegments_open free, ihInside, ihMore]

/-! ### Names of items -/

theorem outerNames_of_free (free : Free text) (read : Statement.read text none = .ok s) :
    outerNames text = [.property s.key.name] := by
  rw [outerNames, segments_of_free free]
  simp [outerSegments, Segment.outerName?, read, Except.toOption]

/-- A statement outside all blocks names its property. -/
theorem outerNames_statement (free : Free text) (read : Statement.read text none = .ok s)
    (rest : List Char) : outerNames (text ++ ';' :: rest) =
      .property s.key.name :: outerNames rest := by
  rw [outerNames, segments_append_cons free (.inr (.inr rfl))]
  simp [outerSegments, Segment.outerName?, read, Except.toOption, outerNames]

theorem outerNames_semicolon (rest : List Char) : outerNames (';' :: rest) = outerNames rest := by
  have hsegments := segments_append_cons free_nil (.inr (.inr rfl) : Scan.IsDelimiter ';') rest
  rw [List.nil_append] at hsegments
  rw [outerNames, hsegments]
  rfl

/-- A block has its own name only. -/
theorem outerNames_block (free : Free text) (read : Header.read text = .ok header)
    (inside : Renders offset items body) (rest : List Char) :
    outerNames (text ++ '{' :: (body ++ '}' :: rest)) =
      .block header.key.name :: outerNames rest := by
  have hinside := inside.outerSegments_close 0 rest
  rw [Nat.zero_add] at hinside
  rw [outerNames, segments_append_cons free (.inl rfl)]
  simp [outerSegments, hinside, Segment.outerName?, read, Except.toOption, outerNames]

/-- **The names in the text of a document** are those of its items. -/
theorem Renders.outerNames_eq (h : Renders offset items text) :
    outerNames text = items.map Item.outerName := by
  induction h with
  | nil => rfl
  | semicolon _ ih => rw [outerNames_semicolon, ih]
  | last free reads => exact outerNames_of_free free reads
  | statement free reads _ ih =>
    rw [outerNames_statement free reads, ih]
    rfl
  | block free reads inside _ _ ih =>
    rw [outerNames_block free reads inside, ih]
    rfl

/-- A block is named once, and neither its parameters nor what stands inside counts. -/
example : outerNames "unit:a(hp=1)\x7bx=2;b\x7b\x7d\x7dtop=@a.hp".toList =
    [.block "a", .property "top"] := by
  decide +kernel

end ModContent
