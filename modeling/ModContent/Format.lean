/-!
# Formats

Manifests and id files are kept as texts. Which texts these are is the work of libraries, so the
format of a type is a parameter (`Format`) of all that reads or writes one.
-/

namespace ModContent

/-- The format in which the values of a type are kept. The text of an error in reading is left
out. -/
class Format (α : Type) where
  /-- The value that a text stands for, if it is a text of the format. -/
  read : String → Option α
  /-- The text that is written for a value. -/
  write : α → String

end ModContent
