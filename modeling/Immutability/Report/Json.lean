import Immutability.Diagnostic.Json
import Immutability.Report

/-! Reports as JSON. Metadata that is absent is left out. -/

namespace Immutability

open Json

namespace ReportVersion

/-- A version as JSON. -/
def toJson (v : ReportVersion) : Json :=
  .table [("major", .integer v.major.toNat), ("minor", .integer v.minor.toNat)]

/-- The members of a version. -/
def members : Members Tree [Nat, Nat] :=
  .also (.required "major" Read.versionPart) <| .also (.required "minor" Read.versionPart) .none

/-- The version of the values of its members. -/
def ofValues : Values [Nat, Nat] → ReportVersion
  | (major, minor, ()) => ⟨.ofNat major, .ofNat minor⟩

/-- Reads a version. -/
def ofTree (t : Tree) : Except Fault ReportVersion :=
  (Read.record "ReportVersion" members t).map ofValues

end ReportVersion

namespace Summary

/-- Counts as JSON. -/
def toJson (s : Summary) : Json :=
  .table [("total", .integer s.total), ("errors", .integer s.errors),
    ("warnings", .integer s.warnings), ("notes", .integer s.notes),
    ("elements_checked", .integer s.elementsChecked),
    ("classes_verified", .integer s.classesVerified)]

/-- The members of counts. -/
def members : Members Tree [Nat, Nat, Nat, Nat, Nat, Nat] :=
  .also (.required "total" Read.count) <|
  .also (.required "errors" Read.count) <|
  .also (.required "warnings" Read.count) <|
  .also (.required "notes" Read.count) <|
  .also (.required "elements_checked" Read.count) <|
  .also (.required "classes_verified" Read.count) .none

/-- The counts of the values of their members. -/
def ofValues : Values [Nat, Nat, Nat, Nat, Nat, Nat] → Summary
  | (total, errors, warnings, notes, elementsChecked, classesVerified, ()) =>
    { total, errors, warnings, notes, elementsChecked, classesVerified }

/-- Reads counts. -/
def ofTree (t : Tree) : Except Fault Summary := (Read.record "ReportSummary" members t).map ofValues

end Summary

namespace Report

/-- A report as JSON. -/
def toJson (r : Report) : Json :=
  .table ([("version", r.version.toJson), ("timestamp", .text r.timestamp),
    ("summary", r.summary.toJson),
    ("diagnostics", .sequence (r.diagnostics.map Diagnostic.toJson))]
    ++ member? "metadata" id r.metadata)

/-- The text of a report. -/
def text (r : Report) : String := r.toJson.indented

/-- The nesting of containers that a text may have, the report itself included. -/
def maxDepth : Nat := 127

/-- The members of a report. -/
def members : Members Tree
    [ReportVersion, String, Summary, List Diagnostic, Option Json] :=
  .also (.required "version" ReportVersion.ofTree) <|
  .also (.required "timestamp" Read.text) <|
  .also (.required "summary" Summary.ofTree) <|
  .also (.required "diagnostics" (Read.list Diagnostic.ofTree)) <|
  .also (.optional "metadata" (Read.option (Read.free (maxDepth - 1)))) .none

/-- The report of the values of its members. -/
def ofValues : Values [ReportVersion, String, Summary, List Diagnostic, Option Json] → Report
  | (version, timestamp, summary, diagnostics, metadata, ()) =>
    { version, timestamp, summary, diagnostics, metadata }

/-- Reads a report. -/
def ofTree (t : Tree) : Except Fault Report := (Read.record "Report" members t).map ofValues

/-- Reads the text of a report. -/
def ofText (s : String) : Except Fault Report := (Source.ofText s).read ofTree

end Report

end Immutability
