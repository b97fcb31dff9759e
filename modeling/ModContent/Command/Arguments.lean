import ModContent.Text.Cut

/-!
# Reading words of a command line

A command declares its options and positional arguments (`CommandDeclaration`), and `Reader` goes
through the words that follow its name. An option may get its value in the same word or in the next
one; a value is accepted only when the next option or argument comes up or the words end, so an
unknown word is reported before a bad value in front of it. Two dashes end the options.
-/

namespace ModContent

/-- Why a command line is refused, or what is shown instead of running it. -/
inductive UsageError where
  | invalidCommand
  | missingCommand
  | nothingGiven
  | unknownArgument
  | missingArgument
  | invalidValue
  | needlessValue
  | repeated
  | helpAsked
  | versionAsked
  deriving DecidableEq, Repr

namespace UsageError

/-- What is said of a command line that is refused. -/
def message : UsageError → String
  | invalidCommand => "error: unrecognized subcommand"
  | missingCommand | nothingGiven => "error: a subcommand is required"
  | unknownArgument => "error: unexpected argument"
  | missingArgument => "error: a required argument was not provided"
  | invalidValue => "error: invalid value for an argument"
  | needlessValue => "error: unexpected value for a flag"
  | repeated => "error: an argument cannot be used multiple times"
  | helpAsked => "Usage: moddef [-v] check|tree|get|ids|watch|init|completions|help ..."
  | versionAsked => "moddef"

/-- What the program ends with: asking for help is no failure. -/
def exitCode : UsageError → UInt32
  | helpAsked | versionAsked => 0
  | _ => 2

end UsageError

namespace Arguments

/-! ### Declarations -/

/-- The values that an argument admits. -/
inductive ValueForm where
  | text
  /-- A path, which is not empty. -/
  | path
  | oneOf (words : List String)
  deriving DecidableEq, Repr

/-- Whether a word is a value of the form. -/
def ValueForm.admits : ValueForm → String → Bool
  | text, _ => true
  | path, value => !value.isEmpty
  | oneOf words, value => words.contains value

/-- What an option does. -/
inductive OptionForm where
  | help
  | version
  | flag
  | value (form : ValueForm) (repeatable : Bool)
  deriving DecidableEq, Repr

/-- An option, by its long name and perhaps a letter. -/
structure OptionDeclaration where
  name : String
  letter : Option Char
  form : OptionForm
  required : Bool
  deriving DecidableEq, Repr

/-- A positional argument. -/
structure PositionalDeclaration where
  name : String
  form : ValueForm
  required : Bool
  deriving DecidableEq, Repr

/-- The arguments of a command. -/
structure CommandDeclaration where
  options : List OptionDeclaration
  positionals : List PositionalDeclaration
  deriving DecidableEq, Repr

/-- The options of every command. -/
def helpOption : OptionDeclaration := ⟨"help", some 'h', .help, false⟩

@[inherit_doc helpOption]
def verboseOption : OptionDeclaration := ⟨"verbose", some 'v', .flag, false⟩

/-- An option that takes a value. -/
def valueOption (name : String) (letter : Option Char) (form : ValueForm) : OptionDeclaration :=
  ⟨name, letter, .value form false, false⟩

/-- A flag with a long name only. -/
def flagOption (name : String) : OptionDeclaration := ⟨name, none, .flag, false⟩

/-! ### The reader -/

/-- A value that waits to be accepted. -/
structure Pending where
  name : String
  form : ValueForm
  repeatable : Bool
  value : Option String
  deriving DecidableEq, Repr

/-- A command line that is read up to some word. -/
structure Reader where
  /-- The arguments accepted so far; a flag has the empty value. -/
  accepted : List (String × String)
  pending : Option Pending
  /-- Whether the next word is the value of the pending option. -/
  awaiting : Bool
  /-- The positional arguments still to come. -/
  positionals : List PositionalDeclaration
  /-- Whether the options have ended. -/
  ended : Bool
  deriving DecidableEq, Repr

namespace Reader

/-- The reader before the first word. -/
def start (declared : CommandDeclaration) : Reader :=
  ⟨[], none, false, declared.positionals, false⟩

/-- Whether an option was given already. -/
def has (r : Reader) (name : String) : Bool := r.accepted.any fun entry ↦ entry.1 == name

/-- The values of an argument in order. -/
def values (r : Reader) (name : String) : List String :=
  r.accepted.filterMap fun entry ↦ if entry.1 == name then some entry.2 else none

/-- The value of an argument that is given at most once. -/
def value? (r : Reader) (name : String) : Option String := (r.values name).head?

/-- Accepts a value. -/
def accept (r : Reader) (p : Pending) : Except UsageError Reader :=
  match p.value with
  | none => .error .invalidValue
  | some value =>
    if !p.repeatable && r.has p.name then .error .repeated
    else if !p.form.admits value then .error .invalidValue
    else .ok { r with accepted := r.accepted ++ [(p.name, value)] }

/-- Accepts the value that waits. -/
def settle (r : Reader) : Except UsageError Reader :=
  match r.pending with
  | none => .ok r
  | some p => { r with pending := none }.accept p

/-- Lets a value wait in place of the one before. -/
def await (r : Reader) (p : Pending) : Except UsageError Reader := do
  return { ← r.settle with pending := some p, awaiting := p.value.isNone }

/-- An option with the value in its own word, if there is one. -/
def takeOption (r : Reader) (o : OptionDeclaration) (attached : Option String) :
    Except UsageError Reader :=
  match o.form with
  | .value form repeatable =>
    match attached with
    | none => r.await ⟨o.name, form, repeatable, none⟩
    | some value => do
      return { ← (← r.settle).accept ⟨o.name, form, repeatable, some value⟩ with awaiting := false }
  | .flag => do
    return { ← (← r.settle).accept ⟨o.name, .text, false, some ""⟩ with awaiting := false }
  | .help => do
    let _ ← r.settle
    .error .helpAsked
  | .version => do
    let _ ← r.settle
    .error .versionAsked

/-- Whether a word may follow the option as its value. -/
def OptionForm.takesValue : OptionForm → Bool
  | .value .. => true
  | _ => false

/-- A word that begins with two dashes, without them. -/
def takeLong (r : Reader) (options : List OptionDeclaration) (word : List Char) :
    Except UsageError Reader :=
  let (name, attached) :=
    match Text.cutAt '=' word with
    | some (name, value) => (String.ofList name, some (String.ofList value))
    | none => (String.ofList word, none)
  match options.find? fun o ↦ o.name == name with
  | none => .error .unknownArgument
  | some o =>
    if attached.isSome && !OptionForm.takesValue o.form then .error .needlessValue
    else r.takeOption o attached

/-- The letters of a word that begins with one dash. The rest of the word behind a letter that takes
a value is its value. -/
def takeLetters (options : List OptionDeclaration) : List Char → Reader → Except UsageError Reader
  | [], r => .ok r
  | letter :: rest, r =>
    match options.find? fun o ↦ o.letter == some letter with
    | none => .error .unknownArgument
    | some o =>
      if OptionForm.takesValue o.form then
        match rest with
        | [] => r.takeOption o none
        | '=' :: value => r.takeOption o (some (String.ofList value))
        | value => r.takeOption o (some (String.ofList value))
      else do takeLetters options rest (← r.takeOption o none)

/-- A word that is no option. The error is that of a word for which there is no argument. -/
def takePositional (r : Reader) (word : String) (surplus : UsageError) :
    Except UsageError Reader :=
  match r.positionals with
  | [] => .error surplus
  | p :: rest => do
    return { ← r.await ⟨p.name, p.form, false, some word⟩ with positionals := rest }

/-- The next word. -/
def step (options : List OptionDeclaration) (surplus : UsageError) (r : Reader) (word : String) :
    Except UsageError Reader :=
  if r.ended then r.takePositional word surplus
  else
    match word.toList with
    | ['-', '-'] => .ok { r with ended := true }
    | '-' :: '-' :: long => r.takeLong options long
    | '-' :: c :: letters => takeLetters options (c :: letters) r
    | _ =>
      match r.awaiting, r.pending with
      | true, some p =>
        .ok { r with pending := some { p with value := some word }, awaiting := false }
      | _, _ => r.takePositional word surplus

/-- Whether all arguments that a command needs are there. -/
def complete (declared : CommandDeclaration) (r : Reader) : Bool :=
  (declared.options.all fun o ↦ !o.required || r.has o.name) &&
    declared.positionals.all fun p ↦ !p.required || r.has p.name

end Reader

/-- Reads the words behind the name of a command. -/
def read (declared : CommandDeclaration) (words : List String) : Except UsageError Reader := do
  let r ← words.foldlM (Reader.step declared.options .unknownArgument) (Reader.start declared)
  let r ← r.settle
  if r.complete declared then return r else throw .missingArgument

end Arguments

end ModContent
