import ModContent.Command.Arguments

/-!
# Requests

`Request.read` makes a request of the words of a command line. The words up to the name of a
command may only hold flags; those behind it belong to the command.
-/

namespace ModContent

/-- What a command line asks for. -/
inductive Request where
  | check (path : String)
  | tree (path : String) (category : Option String)
  | get (property project : String)
  | ids (path : String) (categories : List String) (idsFile : Option String) (dryRun : Bool)
  | watch (path : String) (categories : List String)
  | init (path : String) (force : Bool)
  | completions (shell : String)
  deriving DecidableEq, Repr

/-- A request, and whether details are wanted with it. -/
structure Invocation where
  request : Request
  verbose : Bool
  deriving DecidableEq, Repr

namespace Request

/-- The directory of the project that a request is about. -/
def project? : Request → Option String
  | check path | tree path _ | ids path _ _ _ | watch path _ | init path _ => some path
  | get _ project => some project
  | completions _ => none

/-- The id file that a request names. -/
def idsFile? : Request → Option String
  | ids _ _ idsFile _ => idsFile
  | _ => none

open Arguments

/-! ### The commands -/

/-- A project directory, which is the working directory if it is left out. -/
def pathArgument : PositionalDeclaration := ⟨"path", .path, false⟩

/-- The shells for which there are completion scripts. -/
def shells : List String := ["bash", "elvish", "fish", "powershell", "zsh"]

/-- The names of the commands with their arguments. -/
def commands : List (String × CommandDeclaration) :=
  let options (own : List OptionDeclaration) := own ++ [verboseOption, helpOption]
  let categories : OptionDeclaration := ⟨"category", some 'c', .value .text true, false⟩
  [("check", ⟨options [], [pathArgument]⟩),
    ("tree", ⟨options [valueOption "category" (some 'c') .text], [pathArgument]⟩),
    ("get", ⟨options [valueOption "project" (some 'p') .path], [⟨"property", .text, true⟩]⟩),
    ("ids",
      ⟨options [{ categories with required := true }, valueOption "ids-file" none .path,
        flagOption "dry-run"], [pathArgument]⟩),
    ("watch", ⟨options [categories], [pathArgument]⟩),
    ("init", ⟨options [flagOption "force"], [pathArgument]⟩),
    ("completions", ⟨options [], [⟨"shell", .oneOf shells, true⟩]⟩)]

/-- The command that shows help texts. -/
def helpCommand : String := "help"

/-- Whether a word names a command, the one that prints the help included. -/
def isCommand (word : String) : Bool :=
  word == helpCommand || (commands.lookup word).isSome

/-- The request for a command, by its accepted arguments. -/
def ofArguments? (command : String) (r : Reader) : Option Request :=
  let path := (r.value? "path").getD "."
  match command with
  | "check" => some (.check path)
  | "tree" => some (.tree path (r.value? "category"))
  | "get" => some (.get ((r.value? "property").getD "") ((r.value? "project").getD "."))
  | "ids" =>
    some (.ids path (r.values "category") (r.value? "ids-file") (r.has "dry-run"))
  | "watch" => some (.watch path (r.values "category"))
  | "init" => some (.init path (r.has "force"))
  | "completions" => some (.completions ((r.value? "shell").getD ""))
  | _ => none

/-! ### Reading -/

/-- What is known before the name of a command comes up. -/
def outerDeclaration : CommandDeclaration :=
  ⟨[verboseOption, helpOption, ⟨"version", some 'V', .version, false⟩], []⟩

/-- The words behind `help`: nothing, or the name of one command. -/
def readHelp : List String → UsageError
  | [] => .helpAsked
  | [word] => if isCommand word then .helpAsked else .invalidCommand
  | _ => .invalidCommand

/-- A command with the words behind its name. -/
def readCommand (outer : Reader) (command : String) (words : List String) :
    Except UsageError Invocation :=
  if command == helpCommand then .error (readHelp words)
  else
    match commands.lookup command with
    | none => .error .invalidCommand
    | some declared => do
      let r ← Arguments.read declared words
      match ofArguments? command r with
      | some request => return ⟨request, outer.has "verbose" || r.has "verbose"⟩
      | none => throw .invalidCommand

/-- The words up to the name of a command, and on from there. -/
def readFrom (outer : Reader) : List String → Except UsageError Invocation
  | [] => .error (if outer.accepted.isEmpty then .nothingGiven else .missingCommand)
  | word :: words =>
    if !outer.ended && isCommand word then readCommand outer word words
    else do
      let surplus := if isCommand word then .unknownArgument else .invalidCommand
      readFrom (← outer.step outerDeclaration.options surplus word) words

/-- The request of a command line without the name of the program. -/
def read (words : List String) : Except UsageError Invocation :=
  readFrom (Reader.start outerDeclaration) words

end Request

end ModContent
