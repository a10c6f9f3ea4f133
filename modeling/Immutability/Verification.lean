import Immutability.Config
import Immutability.DottedName
import Immutability.Report
import Immutability.Violation

/-! A run of the verifier over a graph.

    The run visits the marked elements in order. Elements of a skipped type are counted and noted but
    not checked; classes are checked with their fields, and what they break becomes diagnostics. -/

namespace Immutability

/-- What a run is made with: the known types, the weights of the rules, and the types to skip. -/
structure Verifier where
  registry : Registry
  severities : Severities := .empty
  skipTypes : List String := []

/-- The outcome of a run. -/
structure Verification where
  diagnostics : List Diagnostic := []
  elementsChecked : Nat := 0
  classesVerified : Nat := 0
  fieldsClassified : Nat := 0
  skipped : List String := []
  deriving DecidableEq

namespace Verification

/-- Some diagnostic is an error. -/
def hasErrors (v : Verification) : Bool := v.diagnostics.any (·.severity = .error)

/-- Some diagnostic is a warning. -/
def hasWarnings (v : Verification) : Bool := v.diagnostics.any (·.severity = .warn)

/-- The number of errors. -/
def errorCount (v : Verification) : Nat := v.diagnostics.countP (·.severity = .error)

/-- The number of warnings. -/
def warningCount (v : Verification) : Nat := v.diagnostics.countP (·.severity = .warn)

/-- The diagnostics about a type and its fields, or about one field. -/
def diagnosticsFor (v : Verification) (path : String) : List Diagnostic :=
  v.diagnostics.filter fun d => d.location.any fun l => isWithin path l.element

/-- The report of a run. -/
def toReport (v : Verification) (timestamp : String) : Report :=
  (Report.ofDiagnostics timestamp v.diagnostics).withCounts v.elementsChecked v.classesVerified

end Verification

namespace Verifier

/-- The verifier of a configuration. -/
def ofConfig (c : Config) : Verifier := ⟨c.registry, c.severities, c.skipTypes⟩

/-- The class of a field of a graph. -/
def classify (v : Verifier) (g : TypeGraph) (f : FieldDeclaration) : FieldClass :=
  Immutability.classify g v.registry f

/-- What a class breaks. -/
def validateClass (v : Verifier) (g : TypeGraph) (t : TypeDeclaration) : List Diagnostic :=
  (classViolations g v.registry t).map (·.diagnose v.severities)

/-- What a marked element breaks. Types to skip are no concern here. -/
def verifyElement (v : Verifier) (g : TypeGraph) (e : Element) : List Diagnostic :=
  (elementViolations g v.registry e).map (·.diagnose v.severities)

/-- The counts of classes and fields that visiting an element adds. -/
def workload : Element → Nat × Nat
  | .type t => if t.kind = .classKind then (1, t.fields.length) else (0, 0)
  | .field _ _ => (0, 0)

/-- The outcome after one more marked element. -/
def visit (v : Verifier) (g : TypeGraph) (o : Verification) (e : Element) : Verification :=
  let o := { o with elementsChecked := o.elementsChecked + 1 }
  if Immutability.skipped v.skipTypes e.owner.name then
    { o with skipped := o.skipped ++ [e.name] }
  else
    { o with
      classesVerified := o.classesVerified + (workload e).1
      fieldsClassified := o.fieldsClassified + (workload e).2
      diagnostics := o.diagnostics ++ v.verifyElement g e }

/-- Verifies the marked elements of a graph. -/
def verify (v : Verifier) (g : TypeGraph) : Verification := g.markedElements.foldl (v.visit g) {}

end Verifier

end Immutability
