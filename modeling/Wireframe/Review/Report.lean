/-
Reports.

* `Report.errorCount`, `Report.warningCount`, `Report.isOk`, `Report.isClean` — what a report says
  in short;
* `Report.promote` — the report with every issue an error;
* `Report.text` — a report in words.
-/
import Wireframe.Review.Issue

namespace Wireframe.Review

/-- The issues found in a design, in the order in which they were found. -/
structure Report where
  issues : List Issue := []
deriving Repr, Inhabited

namespace Report

/-- The number of issues of a given severity. -/
def count (report : Report) (severity : Severity) : Nat :=
  (report.issues.filter (·.severity = severity)).length

/-- The number of errors. -/
def errorCount (report : Report) : Nat := report.count .error

/-- The number of warnings. -/
def warningCount (report : Report) : Nat := report.count .warning

/-- There are no errors. -/
def isOk (report : Report) : Bool := report.errorCount == 0

/-- There are no issues at all. -/
def isClean (report : Report) : Bool := report.issues.isEmpty

/-- The report with every issue an error. -/
def promote (report : Report) : Report := ⟨report.issues.map Issue.promote⟩

/-- There is an issue of this kind. -/
def has (report : Report) (code : Code) : Bool := report.issues.any (·.code = code)

/-- The issues of some kinds. -/
def only (report : Report) (codes : List Code) : Report :=
  ⟨report.issues.filter (codes.contains ·.code)⟩

/-- A report in words. -/
def text (report : Report) : String :=
  if report.isClean then "Validation passed: no issues found\n"
  else
    s!"Validation completed with {report.errorCount} error(s) and " ++
      s!"{report.warningCount} warning(s):\n\n" ++
      String.join (report.issues.map fun issue => "  " ++ issue.text ++ "\n")

end Report

end Wireframe.Review
