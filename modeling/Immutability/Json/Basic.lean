import Immutability.Keyed
import Immutability.Number.Binary64

/-! JSON values. -/

namespace Immutability

/-- A JSON value. The members of a table stand in the order in which they are written. -/
inductive Json where
  | null
  | boolean (value : Bool)
  | integer (value : Int)
  | decimal (value : Binary64)
  | text (value : String)
  | sequence (items : List Json)
  | table (members : List (String × Json))

namespace Json

/-- A text that may be absent. -/
def ofText? : Option String → Json
  | none => .null
  | some s => .text s

/-- A member that is written only if its value is present. -/
def member? {α : Type} (key : String) (write : α → Json) : Option α → List (String × Json)
  | none => []
  | some a => [(key, write a)]

/-- The members sorted by their keys; of equal keys the last one counts. -/
def sorted (members : List (String × Json)) : List (String × Json) :=
  members.foldl (fun table (key, value) => putSorted key value table) []

end Json

end Immutability
