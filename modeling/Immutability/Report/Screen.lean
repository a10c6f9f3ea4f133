import Immutability.Report
import Immutability.Styled

/-! Reports on a terminal. -/

namespace Immutability

/-- The label of a severity on a terminal. -/
def Severity.label (color : Bool) : Severity → String
  | .error => styled color .boldRed "ERROR"
  | .warn => styled color .boldYellow "WARN"
  | .note => styled color .cyan "NOTE"

/-- A diagnostic on one line. -/
def Diagnostic.line (color : Bool) (d : Diagnostic) : String :=
  "  [" ++ d.severity.label color ++ "] " ++ d.rule.code ++ ": " ++ d.message ++ "\n"

namespace Report

/-- A diagnostic and, on a line of its own, its place. -/
def screenEntry (color : Bool) (d : Diagnostic) : String :=
  d.line color ++ match d.location with
    | some l => "    at " ++ l.text ++ "\n"
    | none => ""

/-- The origin of the report and its counts; a count of errors or warnings is alarming. -/
def screenSummary (color : Bool) (r : Report) : String :=
  let alarm (look : Look) (n : Nat) : String :=
    styled color (if 0 < n then look else .green) (toString n)
  "Version: " ++ r.version.text ++ "\n"
    ++ "Timestamp: " ++ r.timestamp ++ "\n\n"
    ++ styled color .bold "Summary:" ++ "\n"
    ++ "  Annotated elements: " ++ toString r.summary.elementsChecked ++ "\n"
    ++ "  Classes verified:   " ++ toString r.summary.classesVerified ++ "\n"
    ++ "  Total diagnostics:  " ++ toString r.summary.total ++ "\n"
    ++ "  Errors:   " ++ alarm .boldRed r.summary.errors ++ "\n"
    ++ "  Warnings: " ++ alarm .yellow r.summary.warnings ++ "\n"
    ++ "  Notes:    " ++ toString r.summary.notes ++ "\n"

/-- The diagnostics in order. -/
def screenDiagnostics (color : Bool) : List Diagnostic → String
  | [] => styled color .boldGreen "✓ No issues found!" ++ "\n"
  | ds => styled color .bold "Diagnostics:" ++ "\n" ++ String.join (ds.map (screenEntry color))

/-- The report on a terminal. -/
def screen (color : Bool) (r : Report) : String :=
  "\n" ++ ruler color ++ "\n"
    ++ styled color .boldBrightBlue "Immutability Check Report" ++ "\n"
    ++ ruler color ++ "\n\n"
    ++ r.screenSummary color ++ "\n"
    ++ screenDiagnostics color r.diagnostics
    ++ "\n" ++ ruler color ++ "\n"

end Report

end Immutability
