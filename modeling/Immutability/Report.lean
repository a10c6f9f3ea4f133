import Immutability.Diagnostic
import Immutability.Json.Basic

/-! Reports: the diagnostics of a run with counts of them. -/

namespace Immutability

/-- The version of the form of reports. -/
structure ReportVersion where
  major : UInt32
  minor : UInt32
  deriving DecidableEq

namespace ReportVersion

/-- The version that is written. -/
def current : ReportVersion := ⟨1, 0⟩

/-- The version as a reader wants it. -/
def text (v : ReportVersion) : String :=
  toString v.major.toNat ++ "." ++ toString v.minor.toNat

end ReportVersion

/-- The counts of a report. -/
structure Summary where
  total : Nat := 0
  errors : Nat := 0
  warnings : Nat := 0
  notes : Nat := 0
  elementsChecked : Nat := 0
  classesVerified : Nat := 0
  deriving DecidableEq

/-- The counts with one more diagnostic of a severity. -/
def Summary.count (s : Summary) : Severity → Summary
  | .error => { s with errors := s.errors + 1, total := s.total + 1 }
  | .warn => { s with warnings := s.warnings + 1, total := s.total + 1 }
  | .note => { s with notes := s.notes + 1, total := s.total + 1 }

/-- A report of a run. The metadata is free-form. -/
structure Report where
  version : ReportVersion := .current
  timestamp : String
  summary : Summary := {}
  diagnostics : List Diagnostic := []
  metadata : Option Json := none

namespace Report

/-- The report without diagnostics. -/
def empty (timestamp : String) : Report := { timestamp }

/-- The report with one more diagnostic at its end. -/
def add (r : Report) (d : Diagnostic) : Report :=
  { r with summary := r.summary.count d.severity, diagnostics := r.diagnostics ++ [d] }

/-- The report of diagnostics in their order. -/
def ofDiagnostics (timestamp : String) (ds : List Diagnostic) : Report :=
  ds.foldl add (empty timestamp)

/-- The report with the counts of a run. -/
def withCounts (r : Report) (elementsChecked classesVerified : Nat) : Report :=
  { r with summary := { r.summary with elementsChecked, classesVerified } }

/-- The report with metadata. -/
def withMetadata (r : Report) (metadata : Json) : Report := { r with metadata := some metadata }

/-- Some diagnostic is an error, by the counts. -/
def hasErrors (r : Report) : Bool := decide (0 < r.summary.errors)

end Report

end Immutability
