import Immutability.Graph
import Immutability.Registry

/-! How the type of a field is trusted.

    A field is classified by the first reason to trust its type. The declaration of a type is looked up
    but never followed: whether a marked type keeps its promise is checked where it is declared. -/

namespace Immutability

/-- The reason to trust the type of a field, or the name of a type that nothing speaks for. -/
inductive FieldClass where
  | primitive
  | knownImmutable
  | markedType
  | enumeration
  | override
  | invalid (typeName : String)
  deriving DecidableEq

namespace FieldClass

/-- There is a reason to trust the type. -/
def isOk : FieldClass → Bool
  | invalid _ => false
  | _ => true

/-- The name of a class. -/
def label : FieldClass → String
  | primitive => "primitive"
  | knownImmutable => "known immutable"
  | markedType => "annotated type"
  | enumeration => "enum"
  | override => "field override"
  | invalid _ => "invalid"

/-- A class as a reader wants it, with the name of an invalid type. -/
def text : FieldClass → String
  | invalid typeName => "invalid (" ++ typeName ++ ")"
  | c => c.label

end FieldClass

/-- A declaration that speaks for its type: it is marked, or it is an enumeration. -/
def TypeDeclaration.classOf? (t : TypeDeclaration) : Option FieldClass :=
  if t.marked then some .markedType
  else if t.kind = .enumKind then some .enumeration
  else none

/-- The class of a field in a graph under a registry. -/
def classify (graph : TypeGraph) (registry : Registry) (f : FieldDeclaration) : FieldClass :=
  match f.type with
  | .primitive _ => .primitive
  | .named typeName =>
    if registry.contains typeName then .knownImmutable
    else
      match (graph.resolve? f.type).bind TypeDeclaration.classOf? with
      | some c => c
      | none => if f.marked then .override else .invalid typeName

end Immutability
