import Immutability.Text.Quoted

/-! What can be wrong with a text that is read as a value.

    A text is either not of its format at all (`Fault.malformed`), or it is well formed and says
    something of the wrong shape. A wrong shape is a cause, `Mismatch`, and its wording stands in one
    place, `Mismatch.message`. -/

namespace Immutability

/-- What stood in the text where something else was wanted. -/
inductive Found where
  | integer (value : Int)
  | decimal (digits : String)
  | boolean (value : Bool)
  | text (value : String)
  | null
  | sequence
  | map
  | bareVariant
  deriving DecidableEq

/-- How a found value is named in a message. -/
def Found.describe : Found → String
  | .integer value => "integer `" ++ toString value ++ "`"
  | .decimal digits => "floating point `" ++ digits ++ "`"
  | .boolean value => "boolean `" ++ (if value then "true" else "false") ++ "`"
  | .text value => "string " ++ Text.quoted value
  | .null => "null"
  | .sequence => "sequence"
  | .map => "map"
  | .bareVariant => "unit variant"

/-- A well-formed text of the wrong shape. -/
inductive Mismatch where
  | missingField (key : String)
  | duplicateField (key : String)
  | unknownVariant (name : String) (known : List String)
  | wrongType (found : Found) (wanted : String)
  | wrongValue (found : Found) (wanted : String)
  | wrongLength (length : Nat) (wanted : String)
  /-- A table stands for a variant but does not have the one member that would name it. -/
  | notOneMember (found : String)
  /-- The content of a variant that has none is neither empty table nor empty sequence. -/
  | variantContent (wanted : String) (found : Option String)
  /-- Neither a name nor a table stands for a variant. -/
  | notVariant
  deriving DecidableEq

/-- The names of the known variants as a message lists them. -/
def describeChoice : List String → String
  | [a] => "`" ++ a ++ "`"
  | [a, b] => "`" ++ a ++ "` or `" ++ b ++ "`"
  | names => "one of " ++ ", ".intercalate (names.map fun a => "`" ++ a ++ "`")

/-- The wording of a mismatch. -/
def Mismatch.message : Mismatch → String
  | .missingField key => "missing field `" ++ key ++ "`"
  | .duplicateField key => "duplicate field `" ++ key ++ "`"
  | .unknownVariant name known =>
    "unknown variant `" ++ name ++ "`, expected " ++ describeChoice known
  | .wrongType found wanted => "invalid type: " ++ found.describe ++ ", expected " ++ wanted
  | .wrongValue found wanted => "invalid value: " ++ found.describe ++ ", expected " ++ wanted
  | .wrongLength length wanted =>
    "invalid length " ++ toString length ++ ", expected " ++ wanted
  | .notOneMember found => "wanted exactly 1 element, " ++ found
  | .variantContent wanted none => "expected empty " ++ wanted
  | .variantContent wanted (some found) => "expected " ++ wanted ++ ", found " ++ found
  | .notVariant => "wanted string or table"

/-- Why a text could not be read. -/
inductive Fault where
  | malformed
  | shape (mismatch : Mismatch)
  deriving DecidableEq

/-- The wording of a fault. -/
def Fault.message : Fault → String
  | .malformed => "malformed text"
  | .shape mismatch => mismatch.message

/-- The variant of a name among the known ones. -/
def variantOf {α : Type} (known : List (String × α)) (name : String) : Except Fault α :=
  match known.lookup name with
  | some a => .ok a
  | none => .error (.shape (.unknownVariant name (known.map (·.1))))

end Immutability
