import ModContent.Value

/-!
# Locations and errors

`ContentError` lists what can go wrong from reading a file to running a command. Its texts are
given by three functions: the message, a code for programs, and a help text for some errors.
-/

namespace ModContent

/-! ### Locations -/

/-- A line of a source, counted from one. -/
structure Location where
  file : String
  line : Nat
  deriving DecidableEq, Repr

namespace Location

/-- A line of a text that came from no file. -/
def inline (line : Nat) : Location := ⟨"<inline>", line⟩

/-- A location as it is printed. -/
def text (l : Location) : String := s!"{l.file}:{l.line}"

end Location

/-! ### Errors -/

/-- A message with an optional help text. -/
structure Note where
  message : String
  help : Option String
  deriving DecidableEq, Repr

/-- What may go wrong, from reading a file to asking for a value. -/
inductive ContentError where
  /-- A file could not be read or written. -/
  | io (path message : String)
  /-- A source breaks the grammar or the block structure. -/
  | parse (location : Location) (note : Note)
  /-- A reference leads nowhere. -/
  | reference (location : Location) (path : String) (note : Note)
  /-- A registry that must not grow has fewer free ids than new names. -/
  | slotUnderflow (category : String) (added free : Nat)
  /-- A definition could not be built from its node. -/
  | definition (category name message : String)
  /-- A manifest or id file is not usable. -/
  | manifest (note : Note)
  /-- Nothing stands at a path asked for. -/
  | notFound (path : String)
  /-- Checks found errors. -/
  | check (errors : Nat)
  /-- A typed access failed. -/
  | value (error : ValueError)
  deriving DecidableEq, Repr

namespace ContentError

/-- What an error says. -/
def message : ContentError → String
  | io path message => s!"IO error with {path}: {message}"
  | parse location note => s!"Parse error at {location.text}: {note.message}"
  | reference location path note =>
    s!"Unresolved reference '@{path}' at {location.text}: {note.message}"
  | slotUnderflow category added free =>
    s!"Registry '{category}' ran out of free ids: {added} new name(s) but only {free} free slot(s)"
  | definition category name message =>
    s!"Failed to build {category} definition '{name}': {message}"
  | manifest note => s!"Manifest error: {note.message}"
  | notFound path => s!"Nothing defined at '{path}'"
  | check errors => s!"Check failed with {errors} error(s)"
  | value error => error.message

/-- The name of the kind of error. -/
def code : ContentError → String
  | io .. => "moddef::io"
  | parse .. => "moddef::parse"
  | reference .. => "moddef::reference"
  | slotUnderflow .. => "moddef::registry::underflow"
  | definition .. => "moddef::registry::definition"
  | manifest .. => "moddef::manifest"
  | notFound .. => "moddef::not_found"
  | check .. => "moddef::check"
  | value error => error.code

/-- What may be done about an error. -/
def help : ContentError → Option String
  | parse _ note | reference _ _ note | manifest note => note.help
  | slotUnderflow .. =>
    some "Rename an existing entry instead of adding one, or switch slot_policy to `grow`"
  | notFound _ =>
    some "Paths are dotted from the document root, e.g. `soldier.hp` or `unit:soldier.hp`"
  | value error => error.help
  | io .. | definition .. | check .. => none

/-- Replaces the help text of an error that carries one of its own; other errors stay as they
are. -/
def withHelp (help : String) : ContentError → ContentError
  | parse location note => parse location { note with help := some help }
  | reference location path note => reference location path { note with help := some help }
  | manifest note => manifest { note with help := some help }
  | error => error

end ContentError

end ModContent
