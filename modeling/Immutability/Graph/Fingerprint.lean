import Immutability.Graph
import Immutability.Sha256

/-! The fingerprint of a graph: a digest of its declarations.

    What is digested is the compact JSON of each declaration on a line of its own. Metadata does not
    take part, so the same declarations have the same fingerprint whoever produced them. -/

namespace Immutability

/-- A declaration as one line of compact JSON. -/
def TypeDeclaration.canonicalLine (t : TypeDeclaration) : String := t.toJson.compact ++ "\n"

namespace TypeGraph

/-- The text that is digested. -/
def canonicalText (g : TypeGraph) : String :=
  String.join (g.types.toList.map TypeDeclaration.canonicalLine)

/-- The fingerprint of a graph. -/
def fingerprint (g : TypeGraph) : String := Sha256.hexDigest g.canonicalText

end TypeGraph

end Immutability
