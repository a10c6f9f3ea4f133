import Immutability.Number.Binary64

/-! The shortest decimal that reads back as a given binary number.

    The decimals that round to a number fill an interval around it, whose ends belong to it when the
    mantissa is even. For one digit, two digits and so on the two neighbours of the number on that
    decimal grid are tried; the first grid with a neighbour inside the interval wins, and of two such
    neighbours the nearer one, or the even one if both are equally near. Seventeen digits are always
    enough. -/

namespace Immutability.Binary64

/-- A decimal `digits · 10 ^ exponent`. -/
structure Decimal where
  digits : Nat
  exponent : Int
  deriving DecidableEq

/-- The interval of what rounds to a number, in quarters of its last place: lower end, the number
    itself and upper end. Below a power of two the numbers lie twice as dense. -/
structure Interval where
  low : Nat
  middle : Nat
  high : Nat
  closed : Bool

/-- The interval of a number other than zero. -/
def interval (x : Binary64) : Interval :=
  let middle := 4 * x.mantissa
  let below := if x.mantissa = Nat.pow 2 52 && -1074 < x.exponent then 1 else 2
  ⟨middle - below, middle, middle + 2, x.mantissa % 2 = 0⟩

/-- The greatest `e` with `10 ^ e ≤ x`, for a number other than zero. The logarithm to the base two
    gives it up to one. -/
def floorLogTen (x : Binary64) : Int :=
  let binary : Int := (x.mantissa.log2 : Int) + x.exponent
  let e := Int.fdiv (binary * 30103) 100000
  if x.den * Nat.pow 10 (e + 1).toNat ≤ x.num * Nat.pow 10 (-(e + 1)).toNat then e + 1 else e

/-- The neighbour on the grid of multiples of `10 ^ e` that lies in the interval and is nearest to
    the number, if there is one. Both sides are compared over the common denominator. -/
def onGrid (x : Binary64) (e : Int) : Option Nat :=
  let range := x.interval
  -- a quarter of the last place, and one step of the grid, over a common denominator
  let quarter := Nat.pow 2 (x.exponent - 2).toNat * Nat.pow 10 (-e).toNat
  let step := Nat.pow 2 (2 - x.exponent).toNat * Nat.pow 10 e.toNat
  let inside (d : Nat) : Bool :=
    if range.closed then
      range.low * quarter ≤ d * step && d * step ≤ range.high * quarter
    else
      range.low * quarter < d * step && d * step < range.high * quarter
  let down := range.middle * quarter / step
  let up := down + 1
  let twice := 2 * (range.middle * quarter - down * step)
  match inside down, inside up with
  | true, true =>
    some (if twice < step then down else if step < twice then up else down + down % 2)
  | true, false => some down
  | false, true => some up
  | false, false => none

/-- The first grid with a neighbour in the interval, for `n` digits of a number whose first digit
    stands at `10 ^ top`, then more digits while `fuel` lasts. -/
def firstGrid (x : Binary64) (top : Int) : (fuel n : Nat) → Decimal
  | 0, _ => ⟨x.num / x.den, 0⟩
  | fuel + 1, n =>
    let e := top + 1 - n
    match x.onGrid e with
    | some d => ⟨d, e⟩
    | none => firstGrid x top fuel (n + 1)

/-- Moves trailing zeros from the digits to the exponent. -/
def Decimal.trim : (fuel : Nat) → Decimal → Decimal
  | 0, d => d
  | fuel + 1, d => if d.digits ≠ 0 ∧ d.digits % 10 = 0 then trim fuel ⟨d.digits / 10, d.exponent + 1⟩
    else d

/-- The shortest decimal that rounds to the magnitude of `x`, without trailing zeros. -/
def shortest (x : Binary64) : Decimal :=
  if x.mantissa = 0 then ⟨0, 0⟩ else (firstGrid x x.floorLogTen 17 1).trim 20

end Immutability.Binary64
