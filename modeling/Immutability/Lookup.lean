import Immutability.DottedName
import Immutability.Graph

/-! Finding a type by its qualified name or by the end of it. -/

namespace Immutability

/-- Why no type is found. -/
inductive LookupError where
  | notFound (name : String)
  | ambiguous (name : String) (candidates : List String)
  deriving DecidableEq

/-- The wording of an error. -/
def LookupError.message : LookupError → String
  | notFound name =>
    "Type '" ++ name ++ "' not found in type graph. Try using the fully qualified name "
      ++ "(e.g., 'com.example." ++ name ++ "')"
  | ambiguous name candidates =>
    "Type name '" ++ name ++ "' is ambiguous: " ++ ", ".intercalate candidates

/-- The type of a qualified name, or else the only type whose name ends in it after a dot. -/
def TypeGraph.find (g : TypeGraph) (name : String) : Except LookupError TypeDeclaration :=
  match g.get? name with
  | some t => .ok t
  | none =>
    match g.types.toList.filter fun t => endsInSimple name t.name with
    | [] => .error (.notFound name)
    | [t] => .ok t
    | ts => .error (.ambiguous name (ts.map (·.name)))

end Immutability
