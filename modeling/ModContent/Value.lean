import ModContent.Colour

/-!
# Typed readings of text values

Content is text; an integer, a double and a colour are read out of each value on demand. A list of
values is read column by column (`Readings.of`), so that a column has one entry per value, and
`Readable` picks the column of a type. `ValueError` says why a typed access gave nothing.
-/

namespace ModContent

/-- The types that a value can be read as. -/
inductive ValueKind where
  | int
  | float
  | colour
  deriving DecidableEq, Repr

/-- The word for a kind in messages. -/
def ValueKind.text : ValueKind → String
  | int => "integer"
  | float => "float"
  | colour => "colour"

/-- What is known of one value under one type. -/
inductive Reading (α : Type) where
  | value (a : α)
  | unreadable
  | notComputed
  deriving DecidableEq, Repr

/-! ### Failures of a typed access -/

/-- Why a typed access to a property gave nothing; the property is named by the text of its key. -/
inductive ValueError where
  | notComputed (property : String) (kind : ValueKind)
  | unreadable (property : String) (index : Nat) (value : String) (kind : ValueKind)
  | missing (property : String) (index : Nat)
  deriving DecidableEq, Repr

namespace ValueError

/-- What an error says. -/
def message : ValueError → String
  | notComputed property kind => s!"property '{property}' has no computed {kind.text} values"
  | unreadable property index value kind =>
    s!"value {index} of property '{property}' ('{value}') is not a valid {kind.text}"
  | missing property index => s!"property '{property}' has no value at index {index}"

/-- The name of the kind of error. -/
def code : ValueError → String
  | notComputed .. => "moddef::value::not_computed"
  | unreadable .. => "moddef::value::unparseable"
  | missing .. => "moddef::value::missing"

/-- What may be done about an error. It is in the hands of the caller only where values were not
computed. -/
def help : ValueError → Option String
  | notComputed .. => some "Call `Property::recompute` after mutating a property's values"
  | _ => none

end ValueError

/-! ### Columns of readings -/

/-- The readings of a list of values, one column for each type. -/
structure Readings where
  ints : List (Option Int)
  floats : List (Option Binary64)
  colours : List (Option Colour)
  deriving DecidableEq, Repr

/-- What values read as, each in all three ways. -/
def Readings.of (values : List String) : Readings where
  ints := values.map fun v ↦ readInteger v.toList
  floats := values.map fun v ↦ readDecimal v.toList
  colours := values.map fun v ↦ Colour.read v.toList

/-- A type that values can be read as, with its column among the readings. -/
class Readable (α : Type) where
  kind : ValueKind
  read : String → Option α
  column : Readings → List (Option α)
  column_of (values : List String) : column (Readings.of values) = values.map read

instance : Readable Int where
  kind := .int
  read v := readInteger v.toList
  column := Readings.ints
  column_of _ := rfl

instance : Readable Binary64 where
  kind := .float
  read v := readDecimal v.toList
  column := Readings.floats
  column_of _ := rfl

instance : Readable Colour where
  kind := .colour
  read v := Colour.read v.toList
  column := Readings.colours
  column_of _ := rfl

end ModContent
