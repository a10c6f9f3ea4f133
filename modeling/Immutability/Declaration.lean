/-! Declarations of types and fields, as a front end describes them.

    A declaration may carry the immutability marker. Modifiers form a set: how often and in which order
    they are written does not matter, and they are always listed in one canonical order. -/

namespace Immutability

/-! ### Kinds and modifiers -/

/-- What kind of element a declaration declares. -/
inductive ElementKind where | classKind | interfaceKind | enumKind | annotationKind | fieldKind
  deriving DecidableEq

namespace ElementKind

/-- The kinds in declared order. -/
def all : List ElementKind := [classKind, interfaceKind, enumKind, annotationKind, fieldKind]

/-- The name of a kind. -/
def name : ElementKind → String
  | classKind => "class"
  | interfaceKind => "interface"
  | enumKind => "enum"
  | annotationKind => "annotation"
  | fieldKind => "field"

end ElementKind

/-- A modifier of a type or a field. -/
inductive Modifier where
  | publicAccess | protectedAccess | privateAccess
  | abstractType | staticMember | final | transient | volatile
  deriving DecidableEq

namespace Modifier

/-- The modifiers in canonical order. -/
def all : List Modifier :=
  [publicAccess, protectedAccess, privateAccess, abstractType, staticMember, final, transient,
    volatile]

/-- The keyword of a modifier. -/
def name : Modifier → String
  | publicAccess => "public"
  | protectedAccess => "protected"
  | privateAccess => "private"
  | abstractType => "abstract"
  | staticMember => "static"
  | final => "final"
  | transient => "transient"
  | volatile => "volatile"

theorem mem_all (m : Modifier) : m ∈ all := by cases m <;> decide

end Modifier

/-- A set of modifiers, given by its membership test. -/
@[ext] structure Modifiers where
  has : Modifier → Bool

namespace Modifiers

instance : DecidableEq Modifiers := fun s t =>
  decidable_of_iff (∀ m ∈ Modifier.all, s.has m = t.has m)
    ⟨fun h => Modifiers.ext (funext fun m => h m m.mem_all), fun h _ _ => h ▸ rfl⟩

/-- The set of the modifiers in a list. -/
def ofList (ms : List Modifier) : Modifiers := ⟨fun m => decide (m ∈ ms)⟩

/-- No modifiers. -/
def empty : Modifiers := ofList []

/-- The set with one more modifier. -/
def insert (m : Modifier) (s : Modifiers) : Modifiers := ⟨fun n => decide (n = m) || s.has n⟩

/-- The members in canonical order. -/
def toList (s : Modifiers) : List Modifier := Modifier.all.filter s.has

/-- The keywords of the members in canonical order, separated by spaces. -/
def text (s : Modifiers) : String := " ".intercalate (s.toList.map Modifier.name)

@[simp] theorem has_ofList (ms : List Modifier) (m : Modifier) :
    (ofList ms).has m = decide (m ∈ ms) := rfl

@[simp] theorem mem_toList {s : Modifiers} {m : Modifier} : m ∈ s.toList ↔ s.has m = true := by
  simp [toList, Modifier.mem_all]

/-- Listing a set and collecting the list gives the set back. -/
@[simp] theorem ofList_toList (s : Modifiers) : ofList s.toList = s := by
  ext m
  cases h : s.has m <;> simp [h]

end Modifiers

/-! ### Types and fields -/

/-- A reference to a type: a primitive one, or a declared one by its qualified name. -/
inductive TypeRef where
  | primitive (identifier : String)
  | named (identifier : String)
  deriving DecidableEq

namespace TypeRef

/-- The name by which the type is referred to. -/
def identifier : TypeRef → String
  | primitive s => s
  | named s => s

/-- The reference is to a primitive type. -/
def isPrimitive : TypeRef → Bool
  | primitive _ => true
  | named _ => false

end TypeRef

/-- A field of a type. The owner is the name of that type, or empty while it is not known. -/
structure FieldDeclaration where
  name : String
  type : TypeRef
  modifiers : Modifiers := .empty
  marked : Bool := false
  owner : String := ""
  line : Option UInt64 := none
  deriving DecidableEq

namespace FieldDeclaration

/-- The name of the field within its owner. -/
def qualifiedName (f : FieldDeclaration) : String := f.owner ++ "." ++ f.name

/-- The field cannot be assigned again. -/
def isFinal (f : FieldDeclaration) : Bool := f.modifiers.has .final

/-- The field is hidden from other types. -/
def isPrivate (f : FieldDeclaration) : Bool := f.modifiers.has .privateAccess

end FieldDeclaration

/-- A type with its fields in declared order. -/
structure TypeDeclaration where
  name : String
  kind : ElementKind
  modifiers : Modifiers := .empty
  fields : List FieldDeclaration := []
  marked : Bool := false
  file : Option String := none
  line : Option UInt64 := none
  deriving DecidableEq

namespace TypeDeclaration

/-- The type cannot be extended. -/
def isFinal (t : TypeDeclaration) : Bool := t.modifiers.has .final

/-- The first field of a name. -/
def field? (t : TypeDeclaration) (name : String) : Option FieldDeclaration :=
  t.fields.find? (·.name = name)

/-- The fields that carry the marker, in declared order. -/
def markedFields (t : TypeDeclaration) : List FieldDeclaration := t.fields.filter (·.marked)

/-- The type with one more field at the end, owned by the type. -/
def withField (t : TypeDeclaration) (f : FieldDeclaration) : TypeDeclaration :=
  { t with fields := t.fields ++ [{ f with owner := t.name }] }

/-- The type with the given modifiers in place of its own. -/
def withModifiers (t : TypeDeclaration) (ms : List Modifier) : TypeDeclaration :=
  { t with modifiers := .ofList ms }

/-- The type with the marker. -/
def mark (t : TypeDeclaration) : TypeDeclaration := { t with marked := true }

/-- The type with the place of its declaration. -/
def withSource (t : TypeDeclaration) (file : String) (line : UInt64) : TypeDeclaration :=
  { t with file := some file, line := some line }

end TypeDeclaration

end Immutability
