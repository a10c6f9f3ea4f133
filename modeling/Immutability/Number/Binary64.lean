/-! Finite binary floating-point numbers of 64 bits, as exact values.

    A number is `± mantissa · 2 ^ exponent` with a mantissa below `2 ^ 53` and an exponent from `-1074`
    on. All arithmetic is exact arithmetic on natural numbers followed by one rounding to the nearest
    such number, a half going to the even mantissa. -/

namespace Immutability

/-- A finite number of the 64-bit binary format. -/
structure Binary64 where
  negative : Bool
  mantissa : Nat
  exponent : Int
  deriving DecidableEq

namespace Binary64

/-- The quotient rounded to the nearest integer, a half to the even neighbour. -/
def roundQuotient (num den : Nat) : Nat :=
  let quotient := num / den
  let twice := 2 * (num % den)
  if twice < den then quotient
  else if den < twice then quotient + 1
  else quotient + quotient % 2

/-- The greatest `e` with `2 ^ e ≤ num / den`, for positive arguments. The quotient lies between
    `2 ^ (e - 1)` and `2 ^ (e + 1)` for the difference `e` of the two logarithms. -/
def floorLog (num den : Nat) : Int :=
  let e : Int := (num.log2 : Int) - den.log2
  if den * Nat.pow 2 e.toNat ≤ num * Nat.pow 2 (-e).toNat then e else e - 1

/-- Zero, with a sign. -/
def zero (negative : Bool) : Binary64 := ⟨negative, 0, -1074⟩

/-- The number nearest to `num / den`, or nothing if that is beyond the greatest one. -/
def ofRatio (negative : Bool) (num den : Nat) : Option Binary64 :=
  if num = 0 then some (zero negative)
  else
    let e := max (floorLog num den - 52) (-1074)
    let m := roundQuotient (num * Nat.pow 2 (-e).toNat) (den * Nat.pow 2 e.toNat)
    if m < Nat.pow 2 53 then
      if e ≤ 971 then some ⟨negative, m, e⟩ else none
    else
      if e + 1 ≤ 971 then some ⟨negative, Nat.pow 2 52, e + 1⟩ else none

/-- The numerator of the magnitude over the denominator `den`. -/
def num (x : Binary64) : Nat := x.mantissa * Nat.pow 2 x.exponent.toNat

/-- The denominator of the magnitude over the numerator `num`. -/
def den (x : Binary64) : Nat := Nat.pow 2 (-x.exponent).toNat

/-- The number nearest to a natural number. -/
def ofNat (n : Nat) : Option Binary64 := ofRatio false n 1

/-- The product, rounded. -/
def mul (x y : Binary64) : Option Binary64 :=
  ofRatio (x.negative != y.negative) (x.num * y.num) (x.den * y.den)

/-- The quotient by a number other than zero, rounded. -/
def div (x y : Binary64) : Option Binary64 :=
  ofRatio (x.negative != y.negative) (x.num * y.den) (x.den * y.num)

/-- The same magnitude with the given sign. -/
def withSign (negative : Bool) (x : Binary64) : Binary64 := ⟨negative, x.mantissa, x.exponent⟩

/-- The number nearest to `digits · 10 ^ e`, or nothing if that is beyond the greatest one. Powers far
    outside the range are told by their size alone. -/
def ofDecimal (negative : Bool) (digits : Nat) (e : Int) : Option Binary64 :=
  let size : Int := (Nat.toDigits 10 digits).length + e
  if digits = 0 || size < -400 then some (zero negative)
  else if 400 < size then none
  else ofRatio negative (digits * Nat.pow 10 e.toNat) (Nat.pow 10 (-e).toNat)

end Binary64

end Immutability
