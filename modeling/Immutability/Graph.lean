import Std.Data.HashMap
import Immutability.Document
import Immutability.Element

/-! Type graphs: declarations in the order of their insertion, with an index of their names.

    A graph holds one declaration of a name, and a declaration one field of a name. Every field in a
    graph knows the type that owns it. -/

namespace Immutability

/-- The declarations of a program. The index gives the place of each name. -/
structure TypeGraph where
  metadata : Metadata := {}
  types : Array TypeDeclaration := #[]
  index : Std.HashMap String Nat := {}

/-- Why declarations do not make up a graph. -/
inductive GraphError where
  | duplicateType (name : String)
  | duplicateField (owner field : String)
  | ownerMismatch (field declared enclosing : String)
  deriving DecidableEq

namespace GraphError

/-- The wording of an error. -/
def message : GraphError → String
  | duplicateType name => "Type '" ++ name ++ "' is declared more than once"
  | duplicateField owner field =>
    "Field '" ++ field ++ "' is declared more than once in '" ++ owner ++ "'"
  | ownerMismatch field declared enclosing =>
    "Field '" ++ field ++ "' claims owner '" ++ declared ++ "' but is enclosed by '" ++ enclosing
      ++ "'"

end GraphError

namespace TypeGraph

/-- The graph without declarations. -/
def empty : TypeGraph := {}

/-- The number of declarations. -/
def size (g : TypeGraph) : Nat := g.types.size

/-- The declaration of a name. -/
def get? (g : TypeGraph) (name : String) : Option TypeDeclaration :=
  g.index[name]?.bind fun i => g.types[i]?

/-- The declaration that a reference to a type means. Primitive types have none. -/
def resolve? (g : TypeGraph) : TypeRef → Option TypeDeclaration
  | .primitive _ => none
  | .named name => g.get? name

/-- The marked elements of all declarations, in order. -/
def markedElements (g : TypeGraph) : List Element := g.types.toList.flatMap (·.markedElements)

/-! ### Insertion -/

/-- Gives the fields of a type their owner, in declared order. `seen` holds the names of the fields
    before them. A repeated name is noticed before a foreign owner. -/
def stampFields (owner : String) : (seen : List String) → List FieldDeclaration →
    Except GraphError (List FieldDeclaration)
  | _, [] => .ok []
  | seen, f :: fs =>
    if f.name ∈ seen then .error (.duplicateField owner f.name)
    else if f.owner = "" ∨ f.owner = owner then
      (stampFields owner (f.name :: seen) fs).map ({ f with owner := owner } :: ·)
    else .error (.ownerMismatch f.name f.owner owner)

/-- The graph with one more declaration at its end. -/
def insert (g : TypeGraph) (t : TypeDeclaration) : Except GraphError TypeGraph :=
  if g.index.contains t.name then .error (.duplicateType t.name)
  else
    (stampFields t.name [] t.fields).map fun fields =>
      { g with
        types := g.types.push { t with fields := fields }
        index := g.index.insert t.name g.types.size }

/-- Inserts declarations up to the first that does not fit, and gives the graph with those before
    it. -/
def insertAll (g : TypeGraph) : List TypeDeclaration → TypeGraph × Option GraphError
  | [] => (g, none)
  | t :: ts =>
    match g.insert t with
    | .error e => (g, some e)
    | .ok g => g.insertAll ts

/-- Appends the declarations of another graph up to the first whose name is taken. Metadata that is
    present stays, whatever becomes of the declarations. -/
def merge (g other : TypeGraph) : TypeGraph × Option GraphError :=
  { g with metadata := g.metadata.orElse other.metadata }.insertAll other.types.toList

/-- The graph of a document. -/
def ofDocument (d : Document) : Except GraphError TypeGraph :=
  match { empty with metadata := d.metadata }.insertAll d.types with
  | (g, none) => .ok g
  | (_, some e) => .error e

/-- The graph of declarations without metadata. -/
def ofDeclarations (ts : List TypeDeclaration) : Except GraphError TypeGraph :=
  ofDocument { types := ts }

/-- The document that holds what the graph holds. -/
def toDocument (g : TypeGraph) : Document := ⟨g.metadata, g.types.toList⟩

end TypeGraph

end Immutability
