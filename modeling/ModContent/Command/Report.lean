import ModContent.Diagnostic

/-!
# Progress reports

What a command says about its progress, apart from its results: lines that begin with a verb, and
findings with their help texts. A list of findings ends in a verdict.
-/

namespace ModContent

/-- The column that verbs end in. -/
def verbWidth : Nat := 12

/-- A line that begins with a verb. -/
def statusLine (verb message : String) : String :=
  let room := String.ofList (List.replicate (verbWidth - verb.length) ' ')
  s!"{room}{verb} {message}\n"

/-- A finding, with its help on a line of its own. -/
def Diagnostic.lines (d : Diagnostic) : String :=
  let help := (d.help.map fun help ↦ s!"  help: {help}\n").getD ""
  s!"{d.text}\n{help}"

/-- The line that sums up a list of findings. -/
def verdict (findings : List Diagnostic) : String :=
  let errors := errorCount findings
  let warnings := warningCount findings
  let counted := plural warnings "warning" "warnings"
  if 0 < errors then
    let failed := plural errors "error" "errors"
    statusLine "Failed" s!"{failed}, {counted}"
  else if 0 < warnings then statusLine "Passed" s!"with {counted}"
  else statusLine "Passed" "no problems found"

/-- All findings, and the verdict. -/
def findingsReport (findings : List Diagnostic) : String :=
  String.join (findings.map Diagnostic.lines) ++ verdict findings

end ModContent
