import Immutability.Declaration
import Immutability.Json.Printer
import Immutability.Json.Read

/-! Declarations as JSON.

    The place of a declaration is left out where it is not known; everything else is always written. A
    reader may leave out all but the name, the kind or type, and gets the same value as if the defaults
    had been spelled out. -/

namespace Immutability

open Json

/-- A line number as JSON. -/
def Json.ofLine (line : UInt64) : Json := .integer line.toNat

/-- Reads a line number. -/
def Json.Read.line (t : Tree) : Except Fault UInt64 := (Read.count t).map UInt64.ofNat

/-! ### Kinds, modifiers and type references -/

namespace ElementKind

/-- The kinds by their names. -/
def byName : List (String × ElementKind) := all.map fun k => (k.name, k)

/-- A kind as JSON. -/
def toJson (k : ElementKind) : Json := .text k.name

/-- Reads a kind. -/
def ofTree : Tree → Except Fault ElementKind := Read.plain byName

end ElementKind

namespace Modifier

/-- The modifiers by their keywords. -/
def byName : List (String × Modifier) := all.map fun m => (m.name, m)

/-- A modifier as JSON. -/
def toJson (m : Modifier) : Json := .text m.name

/-- Reads a modifier. -/
def ofTree : Tree → Except Fault Modifier := Read.plain byName

end Modifier

namespace Modifiers

/-- A set of modifiers as JSON, in canonical order. -/
def toJson (s : Modifiers) : Json := .sequence (s.toList.map Modifier.toJson)

/-- Reads a set of modifiers from a list. -/
def ofTree (t : Tree) : Except Fault Modifiers := (Read.list Modifier.ofTree t).map ofList

end Modifiers

namespace TypeRef

/-- The two kinds of references by their tags. -/
def byName : List (String × (String → TypeRef)) := [("primitive", primitive), ("named", named)]

/-- A type reference as JSON. -/
def toJson : TypeRef → Json
  | primitive s => .table [("primitive", .text s)]
  | named s => .table [("named", .text s)]

/-- Reads a type reference. -/
def ofTree : Tree → Except Fault TypeRef := Read.tagged byName Read.text

end TypeRef

/-! ### Fields and types -/

namespace FieldDeclaration

/-- A field as JSON. -/
def toJson (f : FieldDeclaration) : Json :=
  .table ([("name", .text f.name), ("type", f.type.toJson), ("modifiers", f.modifiers.toJson),
    ("annotated_immutable", .boolean f.marked), ("owner", .text f.owner)]
    ++ member? "line" ofLine f.line)

/-- The members of a field. -/
def members : Members Tree
    [String, TypeRef, Modifiers, Bool, String, Option UInt64] :=
  .also (.required "name" Read.text) <|
  .also (.required "type" TypeRef.ofTree) <|
  .also (.defaulted "modifiers" Modifiers.ofTree .empty) <|
  .also (.defaulted "annotated_immutable" Read.boolean false) <|
  .also (.defaulted "owner" Read.text "") <|
  .also (.defaulted "line" (Read.option Read.line) none) .none

/-- The field of the values of its members. -/
def ofValues : Values [String, TypeRef, Modifiers, Bool, String, Option UInt64] →
    FieldDeclaration
  | (name, type, modifiers, marked, owner, line, ()) =>
    { name, type, modifiers, marked, owner, line }

/-- Reads a field. -/
def ofTree (t : Tree) : Except Fault FieldDeclaration :=
  (Read.record "FieldDeclaration" members t).map ofValues

end FieldDeclaration

namespace TypeDeclaration

/-- A type as JSON. -/
def toJson (t : TypeDeclaration) : Json :=
  .table ([("name", .text t.name), ("kind", t.kind.toJson), ("modifiers", t.modifiers.toJson),
    ("fields", .sequence (t.fields.map FieldDeclaration.toJson)),
    ("annotated_immutable", .boolean t.marked)]
    ++ member? "file" .text t.file ++ member? "line" ofLine t.line)

/-- The members of a type. -/
def members : Members Tree
    [String, ElementKind, Modifiers, List FieldDeclaration, Bool, Option String, Option UInt64] :=
  .also (.required "name" Read.text) <|
  .also (.required "kind" ElementKind.ofTree) <|
  .also (.defaulted "modifiers" Modifiers.ofTree .empty) <|
  .also (.defaulted "fields" (Read.list FieldDeclaration.ofTree) []) <|
  .also (.defaulted "annotated_immutable" Read.boolean false) <|
  .also (.defaulted "file" (Read.option Read.text) none) <|
  .also (.defaulted "line" (Read.option Read.line) none) .none

/-- The type of the values of its members. -/
def ofValues : Values [String, ElementKind, Modifiers, List FieldDeclaration, Bool, Option String,
    Option UInt64] → TypeDeclaration
  | (name, kind, modifiers, fields, marked, file, line, ()) =>
    { name, kind, modifiers, fields, marked, file, line }

/-- Reads a type. -/
def ofTree (t : Tree) : Except Fault TypeDeclaration :=
  (Read.record "TypeDeclaration" members t).map ofValues

end TypeDeclaration

end Immutability
