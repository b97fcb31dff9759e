import ModContent.Dictionary
import ModContent.Format
import ModContent.Registry.IdTable

/-!
# Id files

The id tables of several registries are kept between runs in one file, by category.
-/

namespace ModContent

/-- The id tables by category. -/
structure IdFile where
  registries : Dictionary IdTable
  deriving DecidableEq, Repr

namespace IdFile

/-- The file without tables. -/
def empty : IdFile := ⟨Dictionary.empty⟩

/-- The table of a category. -/
def get? (f : IdFile) (category : String) : Option IdTable := f.registries.get? category

/-- Puts a table under a category, in place of the one that was there. -/
def insert (f : IdFile) (category : String) (table : IdTable) : IdFile :=
  ⟨f.registries.insert category table⟩

/-- A table that was put under a category is found there, and others as before. -/
@[simp] theorem get?_insert (f : IdFile) (category other : String) (table : IdTable) :
    (f.insert category table).get? other = if other = category then some table else f.get? other :=
  Dictionary.get?_insert f.registries category other table

variable [Format IdFile]

/-- The id file of a text. -/
def parse (text : String) : Option IdFile := Format.read text

/-- What is written for the file: its text in the format, and a line end. -/
def text (f : IdFile) : String := Format.write f ++ "\n"

/-- The file is read back from its text. -/
def ReadsBack (f : IdFile) : Prop := parse f.text = some f

end IdFile

end ModContent
