import ModContent.Text.Cut

/-!
# Keys and dotted paths

Nodes and properties are looked up by a name and an optional category. A key without a category
accepts any category; one with a category accepts just that. A dotted path is a list of keys that
name nodes, and a last key that names a node or a property.
-/

namespace ModContent

/-- A name with an optional category: the label of a node or property, or a pattern for one. -/
structure Key where
  name : String
  category : Option String
  deriving DecidableEq, Repr, Inhabited

namespace Key

/-- A key that accepts `name` in any category. -/
def named (name : String) : Key := ⟨name, none⟩

/-- Reads `category:name` or a bare `name`; the first colon divides. -/
def ofChars (text : List Char) : Key :=
  match Text.cutAt ':' text with
  | some (category, name) => ⟨String.ofList name, some (String.ofList category)⟩
  | none => named (String.ofList text)

/-- Reads `category:name` or a bare `name`; the first colon divides. -/
def parse (packed : String) : Key := ofChars packed.toList

/-- Whether a label has the key's name and, if the key gives one, its category. -/
def accepts (key label : Key) : Bool :=
  key.name == label.name && (key.category == none || key.category == label.category)

/-- A key in one piece: the category, a colon and the name, or the name alone. -/
def chars (key : Key) : List Char :=
  match key.category with
  | some category => category.toList ++ ':' :: key.name.toList
  | none => key.name.toList

/-- A key as it is printed. -/
def text (key : Key) : String := String.ofList key.chars

@[simp] theorem accepts_self (key : Key) : key.accepts key = true := by
  simp [accepts]

/-- A key without a category looks at the name only. -/
@[simp] theorem accepts_named (name : String) (label : Key) :
    (named name).accepts label = (name == label.name) := by
  simp [accepts, named]

/-- A key accepts only keys of its name. -/
theorem name_eq_of_accepts {key label : Key} (h : key.accepts label = true) :
    label.name = key.name := by
  rw [accepts, Bool.and_eq_true, beq_iff_eq] at h
  exact h.1.symm

/-- A key with a category accepts itself only. -/
theorem eq_of_accepts {key label : Key} (h : key.accepts label = true)
    (hcategory : key.category ≠ none) : label = key := by
  obtain ⟨name, category⟩ := key
  obtain ⟨label, own⟩ := label
  simp_all [accepts]

end Key

/-! ### Dotted paths -/

/-- A path below some node: the keys of the nodes on the way, and the last key. -/
structure DottedPath where
  nodes : List Key
  last : Key
  deriving DecidableEq, Repr

namespace DottedPath

/-- The keys of a path text, unless it is empty or has an empty segment. -/
def parse (path : String) : Option DottedPath :=
  let segments := Text.splitOn '.' path.toList
  if segments.any List.isEmpty then none
  else
    let keys := segments.map Key.ofChars
    keys.getLast?.map fun last ↦ ⟨keys.dropLast, last⟩

/-- Whether a text is a path, decided on the text alone. -/
def isValid (path : String) : Bool :=
  !path.isEmpty && (Text.splitOn '.' path.toList).all fun segment ↦ !segment.isEmpty

/-- All keys of a path, the last one included. -/
def keys (path : DottedPath) : List Key := path.nodes ++ [path.last]

end DottedPath

end ModContent
