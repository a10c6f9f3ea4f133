import Immutability.Json.Basic
import Immutability.Json.Literal
import Immutability.Number.Notation

/-! Writing JSON values.

    Both layouts write the members of a table in the order in which they stand. The compact one has no
    white space at all; the indented one gives every item and member a line of its own. -/

namespace Immutability.Json

/-- An integer in base ten. -/
def integerDigits (i : Int) : List Char :=
  (if i < 0 then ['-'] else []) ++ Nat.toDigits 10 i.natAbs

/-- A value that is neither sequence nor table. -/
def scalar : Json → List Char
  | .null => "null".toList
  | .boolean true => "true".toList
  | .boolean false => "false".toList
  | .integer i => integerDigits i
  | .decimal x => x.scientific
  | .text s => literal s
  | .sequence _ | .table _ => []

/-! ### One line -/

mutual

/-- A value without white space. -/
def compactChars : Json → List Char
  | .sequence items => '[' :: (compactItems items ++ [']'])
  | .table members => '\x7b' :: (compactMembers members ++ ['\x7d'])
  | v => scalar v

/-- The items of a sequence, with commas between them. -/
def compactItems : List Json → List Char
  | [] => []
  | [v] => compactChars v
  | v :: vs => compactChars v ++ ',' :: compactItems vs

/-- The members of a table, with commas between them. -/
def compactMembers : List (String × Json) → List Char
  | [] => []
  | [(key, v)] => literal key ++ ':' :: compactChars v
  | (key, v) :: members => literal key ++ ':' :: (compactChars v ++ ',' :: compactMembers members)

end

/-- The text of a value on one line. -/
def compact (v : Json) : String := String.ofList (compactChars v)

/-! ### Indented -/

/-- A new line at a depth of nesting. -/
def newline (depth : Nat) : List Char := '\n' :: List.replicate (2 * depth) ' '

mutual

/-- A value whose first line is already indented and whose further lines stand at `depth`. -/
def indentedChars (depth : Nat) : Json → List Char
  | .sequence [] => ['[', ']']
  | .sequence (v :: vs) =>
    '[' :: (newline (depth + 1) ++ indentedItems (depth + 1) (v :: vs) ++ newline depth ++ [']'])
  | .table [] => ['\x7b', '\x7d']
  | .table (m :: ms) =>
    '\x7b' :: (newline (depth + 1) ++ indentedMembers (depth + 1) (m :: ms) ++ newline depth
      ++ ['\x7d'])
  | v => scalar v

/-- The items of a sequence, one a line. -/
def indentedItems (depth : Nat) : List Json → List Char
  | [] => []
  | [v] => indentedChars depth v
  | v :: vs => indentedChars depth v ++ ',' :: (newline depth ++ indentedItems depth vs)

/-- The members of a table, one a line. -/
def indentedMembers (depth : Nat) : List (String × Json) → List Char
  | [] => []
  | [(key, v)] => literal key ++ [':', ' '] ++ indentedChars depth v
  | (key, v) :: members =>
    literal key ++ [':', ' '] ++ indentedChars depth v
      ++ ',' :: (newline depth ++ indentedMembers depth members)

end

/-- The text of a value on indented lines, without a newline at its end. -/
def indented (v : Json) : String := String.ofList (indentedChars 0 v)

end Immutability.Json
