import ModContent.Error

/-!
# Faults of the statement and header grammar

A fault says what is wrong with one statement or header; the scanner adds the place.
-/

namespace ModContent

/-- What is wrong with a statement or a header. -/
inductive GrammarFault where
  | secondColon (name : List Char)
  | missingName
  | emptyName (name : List Char)
  | emptyCategory (name : List Char)
  | forbidden (name : List Char) (c : Char)
  | emptyReference
  | listedReference (path : List Char)
  | emptySegment (path : List Char)
  | unclosedParameters (header : List Char)
  | nestedParameters (header : List Char)
  | textAfterParameters (rest header : List Char)
  | valueInHeader (header : List Char)
  | unopenedParameters (header : List Char)
  deriving DecidableEq, Repr

namespace GrammarFault

/-- What a fault says. It shows the text that breaks the rule. -/
def message : GrammarFault → String
  | secondColon name => s!"'{String.ofList name}' has more than one ':'"
  | missingName => "missing name"
  | emptyName name => s!"'{String.ofList name}' has an empty name"
  | emptyCategory name => s!"'{String.ofList name}' has an empty category"
  | forbidden name c =>
    s!"'{String.ofList name}' contains '{String.ofList [c]}', which is not allowed in a name"
  | emptyReference => "reference has an empty path"
  | listedReference path => s!"reference '@{String.ofList path}' lists more than one value"
  | emptySegment path => s!"reference '@{String.ofList path}' has an empty path segment"
  | unclosedParameters header => s!"unclosed '(' in header '{String.ofList header}'"
  | nestedParameters header => s!"nested '(' in header '{String.ofList header}'"
  | textAfterParameters rest header =>
    s!"unexpected '{String.ofList rest}' after ')' in header '{String.ofList header}'"
  | valueInHeader header => s!"'=' in block header '{String.ofList header}'"
  | unopenedParameters header => s!"unmatched ')' in header '{String.ofList header}'"

/-- What may be written in place of the text. -/
def help : GrammarFault → Option String
  | secondColon _ => some "Write at most one category, as `category:name`"
  | emptyCategory _ => some "Drop the ':' or name the category before it"
  | emptyReference => some "Write the dotted path of the property to copy, e.g. `@defaults.hp`"
  | listedReference _ => some "A reference replaces every value; write it on its own"
  | valueInHeader _ =>
    some "Headers only name a block; put values inside it or in a parameter list"
  | _ => none

/-- The message of a fault with its help. -/
def note (fault : GrammarFault) : Note := ⟨fault.message, fault.help⟩

end GrammarFault

end ModContent
