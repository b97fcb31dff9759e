import ModContent.Key
import ModContent.Value

/-!
# Properties

A property is a labelled list of text values. The texts are what counts; their typed readings are
kept beside them and dropped by every edit, so that a typed access sees readings of the current
texts (`Property.Fresh`, kept by every operation) or reports that there are none.
-/

namespace ModContent

/-- A key with values. The values are texts; what they read as is kept beside them or not at all. -/
structure Property where
  key : Key
  values : List String
  /-- The readings of the values, if they were computed since the last edit. -/
  derived : Option Readings
  deriving DecidableEq, Repr

namespace Property

/-! ### Making and editing -/

/-- A property with its readings. -/
def of (key : Key) (values : List String) : Property :=
  ⟨key, values, some (Readings.of values)⟩

/-- A property that waits for the values of another one. -/
def pending (key : Key) : Property :=
  ⟨key, [], none⟩

/-- Reads the values again. -/
def recompute (p : Property) : Property :=
  { p with derived := some (Readings.of p.values) }

/-- Puts values in place of those that were there. Their readings are not computed. -/
def setValues (p : Property) (values : List String) : Property :=
  { p with values, derived := none }

/-- Replaces the values and reads the new ones. -/
def assign (p : Property) (values : List String) : Property :=
  (p.setValues values).recompute

/-- Adds a value behind the others. -/
def push (p : Property) (value : String) : Property :=
  p.setValues (p.values ++ [value])

/-- Removes every copy of a value. -/
def removeAll (p : Property) (value : String) : Property :=
  p.setValues (p.values.filter (· != value))

/-- Whether the readings of the values are there. -/
def isComputed (p : Property) : Bool := p.derived.isSome

/-- The first value, or the empty text. -/
def firstText (p : Property) : String := p.values.headD ""

/-- The key, an equals sign and the values with commas between them. -/
def text (p : Property) : String :=
  p.key.text ++ "=" ++ String.intercalate "," p.values

/-! ### Readings belong to the current values -/

/-- The readings kept are absent or those of the current values. -/
def Fresh (p : Property) : Prop := p.derived = none ∨ p.derived = some (Readings.of p.values)

@[simp] theorem fresh_of (key : Key) (values : List String) : (of key values).Fresh := .inr rfl

@[simp] theorem fresh_pending (key : Key) : (pending key).Fresh := .inl rfl

@[simp] theorem fresh_recompute (p : Property) : p.recompute.Fresh := .inr rfl

@[simp] theorem fresh_setValues (p : Property) (values : List String) :
    (p.setValues values).Fresh := .inl rfl

/-- Values that are assigned are read at once. -/
@[simp] theorem fresh_assign (p : Property) (values : List String) : (p.assign values).Fresh :=
  .inr rfl

/-! ### Typed access -/

section Typed

variable {α : Type} [Readable α]

/-- The readings of all values under one type. -/
def column (p : Property) : Except ValueError (List (Option α)) :=
  match p.derived with
  | none => .error (.notComputed p.key.text (Readable.kind α))
  | some readings => .ok (Readable.column readings)

/-- The error of a value that is there but does not read as asked. -/
def unreadableAt (α : Type) [Readable α] (p : Property) (index : Nat) : ValueError :=
  .unreadable p.key.text index (p.values[index]?.getD "") (Readable.kind α)

/-- The reading of one value; nothing past the last one. -/
def readingAt (α : Type) [Readable α] (p : Property) (index : Nat) : Option (Reading α) :=
  if index < p.values.length then
    match p.derived with
    | none => some .notComputed
    | some readings =>
      match ((Readable.column readings)[index]?).join with
      | some a => some (.value a)
      | none => some .unreadable
  else none

/-- The first value. -/
def first (p : Property) : Except ValueError α := do
  match ← p.column with
  | [] => .error (.missing p.key.text 0)
  | some a :: _ => .ok a
  | none :: _ => .error (p.unreadableAt α 0)

/-- The first value, or the fallback if there is none or it is unreadable. -/
def firstOr (p : Property) (fallback : α) : Except ValueError α := do
  return ((← p.column).head?.join).getD fallback

/-- The readings of a column from some index on, up to the first unreadable value. -/
def collect (p : Property) : Nat → List (Option α) → Except ValueError (List α)
  | _, [] => .ok []
  | index, none :: _ => .error (p.unreadableAt α index)
  | index, some a :: rest => do return a :: (← p.collect (index + 1) rest)

/-- All values; the first unreadable one is reported. -/
def all (p : Property) : Except ValueError (List α) := do
  p.collect 0 (← p.column)

/-- All values, with the fallback in place of the unreadable ones. -/
def allOr (p : Property) (fallback : α) : Except ValueError (List α) := do
  return (← p.column).map fun reading ↦ reading.getD fallback

end Typed

end Property

end ModContent
