import ModContent.Error

/-!
# Diagnostics

Loading and checking note findings that stop nothing. A finding is a warning or an error, has a
code for programs, a message, perhaps a location and perhaps a help text. Lists of findings are
kept in the order in which they were made.
-/

namespace ModContent

/-- How serious a finding is. Only errors make a check fail. -/
inductive Severity where
  | warning
  | error
  deriving DecidableEq, Repr

/-- The word that a severity is printed as. -/
def Severity.text : Severity → String
  | warning => "warning"
  | error => "error"

/-- A finding: what kind it is, what it says, where it was made and what may be done about it. -/
structure Diagnostic where
  severity : Severity
  code : String
  message : String
  location : Option Location
  help : Option String
  deriving DecidableEq, Repr

namespace Diagnostic

/-- A warning without a location. -/
def warning (code message : String) (help : Option String) : Diagnostic :=
  ⟨.warning, code, message, none, help⟩

/-- An error without a location. -/
def error (code message : String) (help : Option String) : Diagnostic :=
  ⟨.error, code, message, none, help⟩

/-- A finding as one line, without its help. -/
def text (d : Diagnostic) : String :=
  let place := (d.location.map fun l ↦ s!"{l.text}: ").getD ""
  s!"{d.severity.text}[{d.code}]: {place}{d.message}"

end Diagnostic

/-! ### Lists of findings -/

/-- How many findings have this severity. -/
def countSeverity (findings : List Diagnostic) (severity : Severity) : Nat :=
  findings.countP fun d ↦ d.severity == severity

/-- The number of errors among findings. -/
def errorCount (findings : List Diagnostic) : Nat := countSeverity findings .error

/-- The number of warnings among findings. -/
def warningCount (findings : List Diagnostic) : Nat := countSeverity findings .warning

/-- Whether some finding is an error. -/
def hasErrors (findings : List Diagnostic) : Bool :=
  findings.any fun d ↦ d.severity == .error

/-- Whether some finding is a warning. -/
def hasWarnings (findings : List Diagnostic) : Bool :=
  findings.any fun d ↦ d.severity == .warning

/-- The findings with this code. -/
def withCode (findings : List Diagnostic) (code : String) : List Diagnostic :=
  findings.filter fun d ↦ d.code == code

/-- A count with its noun: the first form for one, the second for all other numbers. -/
def plural (n : Nat) (one many : String) : String :=
  if n = 1 then s!"{n} {one}" else s!"{n} {many}"

end ModContent
