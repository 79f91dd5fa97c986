import SwitchLint.Issue
import SwitchLint.Json
import SwitchLint.Number.Integer

/-!
# Reports

What a run over several files found: how many files were checked, the issues in order, and the files that could not
be read. A report is written as text or as JSON.
-/

namespace SwitchLint

/-- A report on several files. -/
structure Report where
  filesChecked : Int := 0
  issues : List Issue := []
  failedFiles : List String := []

/-- An issue as JSON. -/
def Issue.toJson (i : Issue) : Json :=
  .obj [("severity", .str i.severity.label), ("file_path", .str i.file), ("line_number", .int i.line),
    ("column", .int i.column), ("rule_id", .str i.code), ("message", .str i.message), ("suggestion", .null),
    ("auto_fixable", .bool i.autoFixable)]

/-- An issue as a line of text. There is none if its column has too many digits. -/
def Issue.toLine (i : Issue) : Option String :=
  if Integer.isWritable i.column then
    some s!"{i.severity.label}: {i.file}:{i.line}:{i.column} [{i.code}] - {i.message}"
  else none

namespace Report

/-- The number of issues that are errors. -/
def errorCount (r : Report) : Nat :=
  r.issues.countP (·.severity == .error)

/-- Whether a report calls for attention: some issue is an error, or some file could not be read. -/
def hasTrouble (r : Report) : Bool :=
  0 < r.errorCount || !r.failedFiles.isEmpty

/-- A report as JSON. -/
def toJson (r : Report) : Json :=
  .obj [("files_checked", .int r.filesChecked), ("issues", .arr (r.issues.map (·.toJson))),
    ("failed_files", .arr (r.failedFiles.map .str))]

/-- A report as lines of text: one for each issue, an empty one and the totals. -/
def toLines (r : Report) : List (Option String) :=
  r.issues.map (·.toLine) ++
    ["", s!"Total issues found: {r.issues.length} in {r.filesChecked} file(s)"].map some

end Report

end SwitchLint
