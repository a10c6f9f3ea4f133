import Immutability.Diagnostic

/-! Elements: the types and fields that can carry the marker. -/

namespace Immutability

/-- A type, or a field together with the type that declares it. -/
inductive Element where
  | type (decl : TypeDeclaration)
  | field (owner : TypeDeclaration) (field : FieldDeclaration)
  deriving DecidableEq

namespace Element

/-- The kind of an element. -/
def kind : Element → ElementKind
  | type decl => decl.kind
  | field _ _ => .fieldKind

/-- The qualified name of an element. -/
def name : Element → String
  | type decl => decl.name
  | field _ f => f.qualifiedName

/-- The declaration that an element is, or belongs to. -/
def owner : Element → TypeDeclaration
  | type decl => decl
  | field owner _ => owner

/-- Where an element is declared. -/
def location : Element → Location
  | type decl => ⟨decl.name, decl.kind, decl.file, decl.line⟩
  | field owner f => ⟨f.qualifiedName, .fieldKind, owner.file, f.line⟩

end Element

namespace TypeDeclaration

/-- The type itself and then its fields, marked or not. -/
def elements (t : TypeDeclaration) : List Element := .type t :: t.fields.map (.field t)

/-- The marked elements of a type: itself, if it is marked, and then its marked fields. -/
def markedElements (t : TypeDeclaration) : List Element :=
  (if t.marked then [.type t] else []) ++ t.markedFields.map (.field t)

end TypeDeclaration

end Immutability
