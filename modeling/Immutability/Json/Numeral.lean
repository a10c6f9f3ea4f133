import Immutability.Number.Binary64
import Immutability.Text.Digits

/-! Numerals of JSON and what they stand for.

    A numeral without point and exponent that fits into 64 bits is an integer. Any other is a decimal
    number, gathered into a 64-bit significand from as many leading digits as fit; the digits after
    those count for their places only. The significand is then scaled by one power of ten, with one
    rounding. -/

namespace Immutability.Json

/-- The parts of a numeral, as spelled. -/
structure Numeral where
  negative : Bool
  whole : List Nat
  fraction : List Nat
  exponent : Option Int
  deriving DecidableEq

/-- What a numeral stands for. -/
inductive Quantity where
  | integer (value : Int)
  | decimal (value : Binary64)
  deriving DecidableEq

/-! ### Scanning -/

open Text (digit? ofDigits)

/-- The decimal digits at the start of a text, and the text after them. -/
def digits : List Char → List Nat × List Char
  | [] => ([], [])
  | c :: rest =>
    match digit? c with
    | some d => let (ds, rest) := digits rest; (d :: ds, rest)
    | none => ([], c :: rest)

/-- The whole part: a single zero, or digits of which the first is not zero. -/
def scanWhole (s : List Char) : Option (List Nat × List Char) :=
  match digits s with
  | ([], _) => none
  | (0 :: _ :: _, _) => none
  | (ds, rest) => some (ds, rest)

/-- The fraction, which is empty or has a digit after its point. -/
def scanFraction : List Char → Option (List Nat × List Char)
  | '.' :: s =>
    match digits s with
    | ([], _) => none
    | (ds, rest) => some (ds, rest)
  | s => some ([], s)

/-- The digits of an exponent after its sign. -/
def scanMagnitude (sign : Int) (s : List Char) : Option (Option Int × List Char) :=
  match digits s with
  | ([], _) => none
  | (ds, rest) => some (some (sign * ofDigits 10 ds), rest)

/-- The exponent, if there is one. -/
def scanExponent : List Char → Option (Option Int × List Char)
  | c :: s =>
    if c = 'e' ∨ c = 'E' then
      match s with
      | '+' :: s => scanMagnitude 1 s
      | '-' :: s => scanMagnitude (-1) s
      | s => scanMagnitude 1 s
    else some (none, c :: s)
  | [] => some (none, [])

/-- The numeral at the start of a text, after its sign. -/
def scanUnsigned (negative : Bool) (s : List Char) : Option (Numeral × List Char) :=
  match scanWhole s with
  | none => none
  | some (whole, s) =>
    match scanFraction s with
    | none => none
    | some (fraction, s) =>
      match scanExponent s with
      | none => none
      | some (exponent, s) => some (⟨negative, whole, fraction, exponent⟩, s)

/-- The numeral at the start of a text, and the text after it. -/
def scanNumeral : List Char → Option (Numeral × List Char)
  | '-' :: s => scanUnsigned true s
  | s => scanUnsigned false s

/-! ### Meaning -/

/-- Appends digits to a significand while it fits into 64 bits, and gives the digits left over. -/
def gather : Nat → List Nat → Nat × List Nat
  | n, [] => (n, [])
  | n, d :: ds => if n * 10 + d < UInt64.size then gather (n * 10 + d) ds else (n, d :: ds)

/-- The product with `10 ^ k`, where the power is itself rounded. -/
def timesTen (x : Binary64) (k : Nat) : Option Binary64 :=
  (Binary64.ofNat (Nat.pow 10 k)).bind x.mul

/-- The quotient by `10 ^ k`, where the power is itself rounded. -/
def overTen (x : Binary64) (k : Nat) : Option Binary64 :=
  (Binary64.ofNat (Nat.pow 10 k)).bind x.div

/-- A significand of 64 bits times `10 ^ e`, or nothing if that is beyond the greatest number. One
    power reaches down to `10 ^ -308` and two to `10 ^ -616`; below that nothing is left. -/
def scaleTen (x : Binary64) (e : Int) : Option Binary64 :=
  if x.mantissa = 0 then some x
  else if 308 < e then none
  else if 0 ≤ e then timesTen x e.toNat
  else if -308 ≤ e then overTen x (-e).toNat
  else if -616 ≤ e then (overTen x 308).bind fun y => overTen y (-(e + 308)).toNat
  else some (.zero x.negative)

namespace Numeral

/-- The decimal number of a significand and an exponent, with the sign of the numeral. -/
def scaled (n : Numeral) (significand : Nat) (e : Int) : Option Quantity :=
  match (Binary64.ofNat significand).bind fun x => scaleTen x e with
  | some x => some (.decimal (x.withSign n.negative))
  | none => none

/-- What the numeral stands for, or nothing if it is too great for any number. -/
def value (n : Numeral) : Option Quantity :=
  match gather 0 n.whole, n.fraction, n.exponent with
  | (m, []), [], none =>
    if !n.negative then some (.integer m)
    else if 0 < m ∧ m ≤ UInt64.size / 2 then some (.integer (-m))
    else n.scaled m 0
  | (m, more), fraction, exponent =>
    let (m, dropped) := gather m fraction
    let taken := fraction.length - dropped.length
    n.scaled m ((more.length : Int) - taken + exponent.getD 0)

end Numeral

/-! ### Progress -/

theorem digits_rest_lt {s rest : List Char} {d : Nat} {ds : List Nat}
    (h : digits s = (d :: ds, rest)) : rest.length < s.length := by
  fun_induction digits s generalizing d ds rest with
  | case1 => simp at h
  | case2 c s _ _ ds' rest' hr ih =>
    simp only [Prod.mk.injEq] at h
    obtain ⟨-, rfl⟩ := h
    cases ds' with
    | nil =>
      have : rest' = s := by
        cases s with
        | nil => simpa [digits] using hr.symm
        | cons c' s =>
          rw [digits] at hr
          split at hr <;> simp_all
      simp [this]
    | cons d' ds' => have := ih hr; simp; omega
  | case3 => simp at h

theorem scanWhole_rest_lt {s rest : List Char} {ds : List Nat}
    (h : scanWhole s = some (ds, rest)) : rest.length < s.length := by
  unfold scanWhole at h
  split at h
  · simp at h
  · simp at h
  · rename_i ds' rest' hne _ hd
    simp only [Option.some.injEq, Prod.mk.injEq] at h
    obtain ⟨rfl, rfl⟩ := h
    cases ds' with
    | nil => exact absurd hd (by simp at hne)
    | cons d ds => exact digits_rest_lt hd

theorem scanFraction_rest_le {s rest : List Char} {ds : List Nat}
    (h : scanFraction s = some (ds, rest)) : rest.length ≤ s.length := by
  unfold scanFraction at h
  split at h
  · split at h
    · simp at h
    · rename_i s' _ ds' rest' hne hd
      simp only [Option.some.injEq, Prod.mk.injEq] at h
      obtain ⟨rfl, rfl⟩ := h
      cases ds' with
      | nil => exact absurd hd (by simp at hne)
      | cons d ds => have := digits_rest_lt hd; simp; omega
  · simp_all

theorem scanMagnitude_rest_lt {sign : Int} {s rest : List Char} {e : Option Int}
    (h : scanMagnitude sign s = some (e, rest)) : rest.length < s.length := by
  unfold scanMagnitude at h
  split at h
  · simp at h
  · rename_i ds' rest' hne hd
    simp only [Option.some.injEq, Prod.mk.injEq] at h
    obtain ⟨-, rfl⟩ := h
    cases ds' with
    | nil => exact absurd hd (by simp at hne)
    | cons d ds => exact digits_rest_lt hd

theorem scanExponent_rest_le {s rest : List Char} {e : Option Int}
    (h : scanExponent s = some (e, rest)) : rest.length ≤ s.length := by
  unfold scanExponent at h
  split at h
  · split at h
    · split at h
      · have := scanMagnitude_rest_lt h
        simp only [List.length_cons]
        omega
      · have := scanMagnitude_rest_lt h
        simp only [List.length_cons]
        omega
      · have := scanMagnitude_rest_lt h
        simp only [List.length_cons]
        omega
    · simp_all
  · simp_all

theorem scanUnsigned_rest_lt {negative : Bool} {s rest : List Char} {n : Numeral}
    (h : scanUnsigned negative s = some (n, rest)) : rest.length < s.length := by
  unfold scanUnsigned at h
  split at h
  · simp at h
  · rename_i hw
    split at h
    · simp at h
    · rename_i hf
      split at h
      · simp at h
      · rename_i he
        simp only [Option.some.injEq, Prod.mk.injEq] at h
        obtain ⟨-, rfl⟩ := h
        have := scanWhole_rest_lt hw
        have := scanFraction_rest_le hf
        have := scanExponent_rest_le he
        omega

/-- A numeral has at least one digit. -/
theorem scanNumeral_rest_lt {s rest : List Char} {n : Numeral}
    (h : scanNumeral s = some (n, rest)) : rest.length < s.length := by
  unfold scanNumeral at h
  split at h
  · have := scanUnsigned_rest_lt h; simp; omega
  · exact scanUnsigned_rest_lt h

end Immutability.Json
