import Mathlib.Data.List.Forall2
import ModContent.Proofs.Dictionary
import ModContent.Proofs.Json.Written

/-!
# Id files are read back from JSON

What is written for an id file as JSON is a value (`IdFile.written_json`) that is read as the file
(`IdFile.ofJson?_json`): the categories of a file are sorted, so none is lost or moved when they are
put into a dictionary again.
-/

namespace ModContent

open JsonValue

namespace IdFile

/-! ### The values that are written -/

/-- The value of a slot. -/
def slotJson : Option String → JsonValue
  | none => .null
  | some name => .string (some name)

/-- The value of a table. -/
def tableJson (t : IdTable) : JsonValue := .array (t.slots.map slotJson)

/-- The field of a category. -/
def entryJson (entry : String × IdTable) : Option String × JsonValue :=
  (some entry.1, tableJson entry.2)

/-- The value of all tables. -/
def registriesJson (f : IdFile) : JsonValue := .object (f.registries.entries.map entryJson)

/-- The value of a file. -/
def json (f : IdFile) : JsonValue := .object [(some "registries", f.registriesJson)]

theorem written_slot (slot : Option String) : Written (writeSlot slot) (slotJson slot) := by
  cases slot with
  | none => exact written_null
  | some name => exact written_string name

theorem written_table (t : IdTable) : Written (writeTable t) (tableJson t) := by
  refine written_array 2 ?_
  rw [List.forall₂_map_left_iff, List.forall₂_map_right_iff]
  exact List.forall₂_same.2 fun slot _ ↦ written_slot slot

theorem slotOf?_slotJson (slot : Option String) : slotOf? (slotJson slot) = some slot := by
  cases slot <;> rfl

/-- What undoes a function on every item undoes it on a list. -/
theorem mapM_map_eq_some {α β : Type} {f : α → β} {g : β → Option α}
    (h : ∀ a, g (f a) = some a) (as : List α) : (as.map f).mapM g = some as := by
  induction as with
  | nil => rfl
  | cons a as ih => rw [List.map_cons, List.mapM_cons, h, ih]; rfl

theorem tableOf?_tableJson (t : IdTable) : tableOf? (tableJson t) = some t := by
  rw [tableJson, tableOf?, mapM_map_eq_some slotOf?_slotJson]
  rfl

/-- The tables are read back from the object of them. -/
theorem registriesOf?_registriesJson (f : IdFile) :
    registriesOf? f.registriesJson = some f := by
  rw [registriesJson, registriesOf?]
  refine (congrArg (Option.bind · _) (mapM_map_eq_some (fun entry ↦ ?_) _)).trans ?_
  · simp only [entryJson, tableOf?_tableJson, Option.bind_eq_bind, Option.bind_some]
    rfl
  · exact congrArg some (congrArg IdFile.mk (Dictionary.ofList_entries f.registries))

/-- A file is read back from its value. -/
theorem ofJson?_json (f : IdFile) : ofJson? f.json = some f := by
  rw [json, ofJson?]
  exact f.registriesOf?_registriesJson

/-- The object of the tables is written with one table after the other. -/
theorem written_registries (f : IdFile) :
    Written (writeParts '{' '}' 1 (f.registries.entries.map fun (category, table) ↦
      writeString category ++ [':', ' '] ++ writeTable table)) f.registriesJson := by
  refine written_object 1 ?_
  rw [List.forall₂_map_left_iff, List.forall₂_map_right_iff]
  exact List.forall₂_same.2 fun entry _ ↦ .mk entry.1 (written_table entry.2)

/-- A file is written as its value. -/
theorem written_json (f : IdFile) : Written f.writeJson f.json :=
  written_object 0 (.cons (.mk "registries" f.written_registries) .nil)

theorem text_eq (f : IdFile) : f.text = String.ofList f.writeJson ++ "\n" := rfl

theorem parse_eq (text : String) : parse text = (JsonValue.parse text).bind ofJson? := rfl

/-- **An id file is read back from its JSON text.** -/
theorem readsBack (f : IdFile) : f.ReadsBack := by
  have hread := f.written_json.read (2 * (f.writeJson ++ ['\n']).length) ['\n'] (by
    rw [List.length_append]
    omega)
  have htext : f.text.toList = f.writeJson ++ ['\n'] := by
    rw [text_eq, String.toList_append, String.toList_ofList]
    rfl
  rw [ReadsBack, parse_eq, JsonValue.parse, htext, hread]
  exact f.ofJson?_json

end IdFile

end ModContent
