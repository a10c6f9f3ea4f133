import Immutability.Number.Shortest

/-! How a binary number is written.

    Both notations write the shortest decimal that reads back. The plain one never uses an exponent;
    the scientific one does for numbers outside the range in which a reader can count places. A whole
    number keeps a final `.0`, so it cannot be taken for an integer. -/

namespace Immutability.Binary64

/-- The digits with the point after the first `place` of them, padded with zeros on the side where the
    point lies outside. -/
def pointed (digits : List Char) (place : Int) : List Char :=
  if place ≤ 0 then
    ['0', '.'] ++ List.replicate (-place).toNat '0' ++ digits
  else if digits.length ≤ place.toNat then
    digits ++ List.replicate (place.toNat - digits.length) '0' ++ ['.', '0']
  else
    digits.take place.toNat ++ ['.'] ++ digits.drop place.toNat

/-- One digit, the others after a point, and a signed exponent. -/
def powered (digits : List Char) (place : Int) : List Char :=
  let e := place - 1
  let first := match digits with
    | [] => []
    | [d] => [d]
    | d :: ds => [d, '.'] ++ ds
  first ++ ['e', if e < 0 then '-' else '+'] ++ Nat.toDigits 10 e.natAbs

/-- The sign, the digits of the shortest decimal, and how many of them stand before the point. -/
def parts (x : Binary64) : List Char × List Char × Int :=
  let d := x.shortest
  let digits := Nat.toDigits 10 d.digits
  (if x.negative then ['-'] else [], digits, digits.length + d.exponent)

/-- The number written without an exponent. -/
def plain (x : Binary64) : List Char :=
  let (sign, digits, place) := x.parts
  sign ++ pointed digits place

/-- The number written with an exponent from `10 ^ 16` on and below `10 ^ -5`. -/
def scientific (x : Binary64) : List Char :=
  let (sign, digits, place) := x.parts
  if x.mantissa = 0 || (-5 < place && place ≤ 16) then sign ++ pointed digits place
  else sign ++ powered digits place

end Immutability.Binary64
