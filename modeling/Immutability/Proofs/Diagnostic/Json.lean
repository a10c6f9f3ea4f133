import Immutability.Diagnostic.Json
import Immutability.Proofs.Declaration.Json

/-! Diagnostics read as they were written, with or without location and evidence. -/

namespace Immutability

open Json

theorem Severity.readAs (s : Severity) : s.toJson.ReadAs Severity.ofTree s :=
  .plain (by cases s <;> decide)

theorem Rule.readAs (r : Rule) : r.toJson.ReadAs Rule.ofTree r :=
  .plain (by cases r <;> decide)

/-- A location is read from what it knows. -/
theorem Location.readAs (l : Location) : l.toJson.ReadAs Location.ofTree l := by
  have hf : Writes (.also (.defaulted "file" (Read.option Read.text) none) <|
      .also (.defaulted "line" (Read.option Read.line) none) .none)
      (member? "file" .text l.file ++ member? "line" ofLine l.line) (l.file, l.line, ()) :=
    .optional (fun file => (ReadAs.text file).present nofun) (writes_line l.line)
  have hw : Writes Location.members
      ([("element", .text l.element), ("kind", l.kind.toJson)]
        ++ (member? "file" .text l.file ++ member? "line" ofLine l.line))
      (l.element, l.kind, l.file, l.line, ()) :=
    .also (.text l.element) <| .also l.kind.readAs hf
  rw [← List.append_assoc] at hw
  exact (hw.readAs (by decide) "Location").map

/-- A location that may be absent is read as present or absent. -/
theorem Location.readAs_option (l : Option Location) :
    ((l.map Location.toJson).getD .null).ReadAs (Read.option Location.ofTree) l := by
  cases l with
  | none => exact .absent
  | some l => exact l.readAs.present nofun

theorem Diagnostic.readAs (d : Diagnostic) : d.toJson.ReadAs Diagnostic.ofTree d := by
  have hw : Writes Diagnostic.members
      [("code", d.rule.toJson), ("severity", d.severity.toJson), ("message", .text d.message),
        ("location", (d.location.map Location.toJson).getD .null),
        ("expected", ofText? d.expected), ("actual", ofText? d.actual)]
      (d.rule, d.severity, d.message, d.location, d.expected, d.actual, ()) :=
    .also d.rule.readAs <| .also d.severity.readAs <| .also (.text d.message) <|
      .also (Location.readAs_option d.location) <| .also (readAs_ofText? d.expected) <|
      .also (readAs_ofText? d.actual) .done
  exact (hw.readAs (by decide) "Diagnostic").map

end Immutability
