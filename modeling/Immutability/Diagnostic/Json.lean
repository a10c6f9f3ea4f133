import Immutability.Declaration.Json
import Immutability.Diagnostic

/-! Diagnostics as JSON. A diagnostic always writes its location and its evidence, as null where they
    are absent; a location leaves out what it does not know. -/

namespace Immutability

open Json

namespace Severity

/-- The severities by their names. -/
def byName : List (String × Severity) := all.map fun s => (s.name, s)

/-- A severity as JSON. -/
def toJson (s : Severity) : Json := .text s.name

/-- Reads a severity. -/
def ofTree : Tree → Except Fault Severity := Read.plain byName

end Severity

namespace Rule

/-- The rules by their codes. -/
def byName : List (String × Rule) := all.map fun r => (r.code, r)

/-- A rule as JSON. -/
def toJson (r : Rule) : Json := .text r.code

/-- Reads a rule. -/
def ofTree : Tree → Except Fault Rule := Read.plain byName

end Rule

namespace Location

/-- A location as JSON. -/
def toJson (l : Location) : Json :=
  .table ([("element", .text l.element), ("kind", l.kind.toJson)]
    ++ member? "file" .text l.file ++ member? "line" ofLine l.line)

/-- The members of a location. -/
def members : Members Tree [String, ElementKind, Option String, Option UInt64] :=
  .also (.required "element" Read.text) <|
  .also (.required "kind" ElementKind.ofTree) <|
  .also (.defaulted "file" (Read.option Read.text) none) <|
  .also (.defaulted "line" (Read.option Read.line) none) .none

/-- The location of the values of its members. -/
def ofValues : Values [String, ElementKind, Option String, Option UInt64] → Location
  | (element, kind, file, line, ()) => { element, kind, file, line }

/-- Reads a location. -/
def ofTree (t : Tree) : Except Fault Location := (Read.record "Location" members t).map ofValues

end Location

namespace Diagnostic

/-- A diagnostic as JSON. -/
def toJson (d : Diagnostic) : Json :=
  .table [("code", d.rule.toJson), ("severity", d.severity.toJson), ("message", .text d.message),
    ("location", (d.location.map Location.toJson).getD .null), ("expected", ofText? d.expected),
    ("actual", ofText? d.actual)]

/-- The members of a diagnostic. -/
def members : Members Tree
    [Rule, Severity, String, Option Location, Option String, Option String] :=
  .also (.required "code" Rule.ofTree) <|
  .also (.required "severity" Severity.ofTree) <|
  .also (.required "message" Read.text) <|
  .also (.optional "location" (Read.option Location.ofTree)) <|
  .also (.optional "expected" (Read.option Read.text)) <|
  .also (.optional "actual" (Read.option Read.text)) .none

/-- The diagnostic of the values of its members. -/
def ofValues : Values [Rule, Severity, String, Option Location, Option String, Option String] →
    Diagnostic
  | (rule, severity, message, location, expected, actual, ()) =>
    { rule, severity, message, location, expected, actual }

/-- Reads a diagnostic. -/
def ofTree (t : Tree) : Except Fault Diagnostic :=
  (Read.record "Diagnostic" members t).map ofValues

end Diagnostic

end Immutability
