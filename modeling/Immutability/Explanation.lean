import Immutability.Report.Screen
import Immutability.Verification

/-! Explaining a type: how each of its fields is classified, and what a marked type breaks. The types
    to skip are no concern here. -/

namespace Immutability

/-- The declaration of a type. -/
def explainDeclaration (color : Bool) (t : TypeDeclaration) : String :=
  let label (s : String) : String := styled color .bold s
  "\n" ++ ruler color ++ "\n"
    ++ label "Type:" ++ " " ++ styled color .green t.name ++ "\n"
    ++ ruler color ++ "\n\n"
    ++ label "Kind:" ++ " " ++ t.kind.name ++ "\n"
    ++ label "Modifiers:" ++ " " ++ t.modifiers.text ++ "\n"
    ++ label "Annotated @Immutable:" ++ " "
    ++ (if t.marked then styled color .green "yes" else styled color .yellow "no") ++ "\n\n"

/-- A field with its class. -/
def explainField (color : Bool) (v : Verifier) (g : TypeGraph) (f : FieldDeclaration) : String :=
  let c := v.classify g f
  "  " ++ f.modifiers.text ++ " " ++ f.type.identifier ++ " " ++ f.name ++ ": "
    ++ styled color (if c.isOk then .green else .boldRed) c.text ++ "\n"

/-- The fields of a type with their classes. -/
def explainFields (color : Bool) (v : Verifier) (g : TypeGraph) (t : TypeDeclaration) : String :=
  if t.fields.isEmpty then "No fields declared.\n"
  else styled color .bold "Fields:" ++ "\n" ++ String.join (t.fields.map (explainField color v g))

/-- The verdict on a marked type with these diagnostics. -/
def verdict (color : Bool) : List Diagnostic → String
  | [] => styled color .boldGreen "✓ Satisfies the immutability rules" ++ "\n"
  | ds => styled color .bold "Diagnostics:" ++ "\n" ++ String.join (ds.map (Diagnostic.line color))

/-- The verdict on a type, if it is marked. -/
def explainVerdict (color : Bool) (v : Verifier) (g : TypeGraph) (t : TypeDeclaration) : String :=
  if t.marked then "\n" ++ verdict color (v.verifyElement g (.type t)) else ""

/-- The explanation of a type of a graph. -/
def explain (color : Bool) (c : Config) (g : TypeGraph) (t : TypeDeclaration) : String :=
  let v := Verifier.ofConfig c
  explainDeclaration color t ++ explainFields color v g t ++ explainVerdict color v g t
    ++ "\n" ++ ruler color ++ "\n"

end Immutability
