import Immutability.Number.Notation

/-! TOML values. -/

namespace Immutability.Toml

/-- A real number of TOML. -/
inductive Real where
  | finite (value : Binary64)
  | infinite (negative : Bool)
  | notNumber
  deriving DecidableEq

/-- A real number as a message shows it. -/
def Real.text : Real → String
  | .finite x => String.ofList x.plain
  | .infinite negative => if negative then "-inf" else "inf"
  | .notNumber => "NaN"

/-- A TOML value. The entries of a table stand in the order in which they were first written. A
    sequence may have been written as a run of tables under headers. -/
inductive Value where
  | text (value : String)
  | integer (value : Int)
  | real (value : Real)
  | boolean (value : Bool)
  /-- A date, a time or both, in canonical spelling. -/
  | moment (spelling : String)
  | sequence (items : List Value) (headed : Bool)
  | table (entries : List (String × Value))

end Immutability.Toml
