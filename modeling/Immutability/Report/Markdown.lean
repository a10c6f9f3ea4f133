import Immutability.Report

/-! Reports as Markdown. -/

namespace Immutability

/-- The sign of a severity. -/
def Severity.sign : Severity → String
  | .error => "❌"
  | .warn => "⚠️"
  | .note => "ℹ️"

namespace Report

/-- A labelled piece of evidence, if there is one. -/
def evidence (label : String) : Option String → String
  | none => ""
  | some s => "**" ++ label ++ ":** `" ++ s ++ "`\n\n"

/-- The section of a diagnostic. -/
def diagnosticSection (d : Diagnostic) : String :=
  "### " ++ d.severity.sign ++ " " ++ d.severity.name ++ " - " ++ d.rule.code ++ "\n\n"
    ++ d.message ++ "\n\n"
    ++ evidence "Location" (d.location.map Location.text)
    ++ evidence "Expected" d.expected
    ++ evidence "Actual" d.actual

/-- One line of the summary. -/
def countLine (label : String) (n : Nat) : String := "- " ++ label ++ ": " ++ toString n ++ "\n"

/-- The report as Markdown. -/
def markdown (r : Report) : String :=
  "# Immutability Check Report\n\n"
    ++ "**Version:** " ++ r.version.text ++ "\n\n"
    ++ "**Timestamp:** " ++ r.timestamp ++ "\n\n"
    ++ "## Summary\n\n"
    ++ countLine "Annotated elements" r.summary.elementsChecked
    ++ countLine "Classes verified" r.summary.classesVerified
    ++ countLine "Total diagnostics" r.summary.total
    ++ countLine "Errors" r.summary.errors
    ++ countLine "Warnings" r.summary.warnings
    ++ countLine "Notes" r.summary.notes
    ++ "\n"
    ++ (if r.diagnostics.isEmpty then "✅ **No issues found!**\n"
      else "## Diagnostics\n\n" ++ String.join (r.diagnostics.map diagnosticSection))

end Report

end Immutability
