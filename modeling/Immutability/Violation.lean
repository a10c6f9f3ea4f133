import Immutability.Classification

/-! Violations of the rules of immutability.

    A violation says which declaration breaks which rule and holds the evidence. Its weight is not part
    of it: a table of severities turns a violation into a diagnostic and changes nothing else. -/

namespace Immutability

/-- A broken rule, with the type and the field that break it. -/
inductive Violation where
  | wrongKind (t : TypeDeclaration)
  | notFinal (t : TypeDeclaration)
  | fieldNotFinal (t : TypeDeclaration) (f : FieldDeclaration)
  | fieldNotPrivate (t : TypeDeclaration) (f : FieldDeclaration)
  | fieldInvalidType (t : TypeDeclaration) (f : FieldDeclaration) (typeName : String)
  deriving DecidableEq

namespace Violation

/-- The rule that is broken. -/
def rule : Violation → Rule
  | wrongKind _ => .wrongKind
  | notFinal _ => .notFinal
  | fieldNotFinal _ _ => .fieldNotFinal
  | fieldNotPrivate _ _ => .fieldNotPrivate
  | fieldInvalidType _ _ _ => .fieldInvalidType

/-- The type that breaks the rule or declares the field that does. -/
def owner : Violation → TypeDeclaration
  | wrongKind t | notFinal t => t
  | fieldNotFinal t _ | fieldNotPrivate t _ | fieldInvalidType t _ _ => t

/-- The place of a field of a type, whatever owner the field claims. -/
def fieldLocation (t : TypeDeclaration) (f : FieldDeclaration) : Location :=
  ⟨t.name ++ "." ++ f.name, .fieldKind, t.file, f.line⟩

/-- Where the rule is broken. -/
def location : Violation → Location
  | wrongKind t | notFinal t => (Element.type t).location
  | fieldNotFinal t f | fieldNotPrivate t f | fieldInvalidType t f _ => fieldLocation t f

/-- What a reader is told. -/
def message : Violation → String
  | wrongKind t =>
    t.name ++ " is annotated as @Immutable but is not a class (type is: " ++ t.kind.name ++ ")"
  | notFinal t => t.name ++ " is annotated as @Immutable but is not marked as final"
  | fieldNotFinal t f =>
    t.name ++ " declared @Immutable contains non-final field '" ++ f.name ++ "'"
  | fieldNotPrivate t f =>
    t.name ++ " declared @Immutable contains non-private field '" ++ f.name ++ "'"
  | fieldInvalidType t f typeName =>
    t.name ++ " declared @Immutable contains field '" ++ f.name ++ "' with invalid type '"
      ++ typeName ++ "'. Fields should be either of primitive or an immutable type. "
      ++ "Valid immutable types are known immutable library types (e.g., a string type) or types "
      ++ "directly annotated with the immutability marker. Finally, it's possible to annotate the "
      ++ "field declaration with the immutability marker as a workaround."

/-- The modifiers as evidence. -/
def modifiersText (s : Modifiers) : String := if s.toList.isEmpty then "(none)" else s.text

/-- What the rule asks for. -/
def expected : Violation → String
  | wrongKind _ => ElementKind.classKind.name
  | notFinal _ | fieldNotFinal _ _ => Modifier.final.name
  | fieldNotPrivate _ _ => Modifier.privateAccess.name
  | fieldInvalidType _ _ _ => "immutable type"

/-- What was found instead. -/
def actual : Violation → String
  | wrongKind t => t.kind.name
  | notFinal t => modifiersText t.modifiers
  | fieldNotFinal _ f | fieldNotPrivate _ f => modifiersText f.modifiers
  | fieldInvalidType _ _ typeName => typeName

/-- The violation with its weight under a table of severities. -/
def diagnose (severities : Severities) (v : Violation) : Diagnostic :=
  { rule := v.rule
    severity := v.rule.severity severities v.rule.defaultSeverity
    message := v.message
    location := some v.location
    expected := some v.expected
    actual := some v.actual }

end Violation

/-! ### What a declaration breaks -/

/-- The rules that a field of a marked class breaks, in check order. -/
def fieldViolations (graph : TypeGraph) (registry : Registry) (t : TypeDeclaration)
    (f : FieldDeclaration) : List Violation :=
  (if f.isFinal then [] else [.fieldNotFinal t f])
    ++ (if f.isPrivate then [] else [.fieldNotPrivate t f])
    ++ match classify graph registry f with
      | .invalid typeName => [.fieldInvalidType t f typeName]
      | _ => []

/-- The rules that a marked class breaks: its own first, then those of its fields in declared
    order. -/
def classViolations (graph : TypeGraph) (registry : Registry) (t : TypeDeclaration) :
    List Violation :=
  (if t.isFinal then [] else [.notFinal t]) ++ t.fields.flatMap (fieldViolations graph registry t)

/-- The rules that a marked type breaks. Only a class can keep its promise; the marker on a field is
    an exemption, which classification takes into account. -/
def typeViolations (graph : TypeGraph) (registry : Registry) (t : TypeDeclaration) :
    List Violation :=
  match t.kind with
  | .classKind => classViolations graph registry t
  | .interfaceKind | .enumKind | .annotationKind => [.wrongKind t]
  | .fieldKind => []

/-- The rules that a marked element breaks. -/
def elementViolations (graph : TypeGraph) (registry : Registry) : Element → List Violation
  | .type t => typeViolations graph registry t
  | .field _ _ => []

end Immutability
