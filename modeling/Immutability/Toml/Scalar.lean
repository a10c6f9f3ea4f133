import Immutability.Text.Digits
import Immutability.Toml.Value

/-! Numbers, truth values, dates and times of TOML.

    A scalar is a run of letters, digits and a few marks. The whole run has to spell one scalar, so no
    scalar can run into what follows it. -/

namespace Immutability.Toml

open Text (digit? hexValue? ofDigits)

/-- The value of a digit in a base up to sixteen, in either case. -/
def digitIn? (base : Nat) (c : Char) : Option Nat := (hexValue? c).filter (· < base)

/-- Digits of a base, between any two of which one underscore may stand. -/
def grouped? (base : Nat) : List Char → Option (List Nat)
  | [] => none
  | [c] => (digitIn? base c).map ([·])
  | c :: '_' :: rest =>
    match digitIn? base c, grouped? base rest with
    | some d, some ds => some (d :: ds)
    | _, _ => none
  | c :: rest =>
    match digitIn? base c, grouped? base rest with
    | some d, some ds => some (d :: ds)
    | _, _ => none

/-! ### Numbers -/

/-- An integer of 64 bits. -/
def Value.ofInt? (i : Int) : Option Value :=
  if Int64.minValue.toInt ≤ i ∧ i ≤ Int64.maxValue.toInt then some (.integer i) else none

/-- The sign of a number, and the rest of it. -/
def splitSign : List Char → Bool × List Char
  | '+' :: cs => (false, cs)
  | '-' :: cs => (true, cs)
  | cs => (false, cs)

/-- The digits of a whole part, which has no leading zero. -/
def wholeDigits? (cs : List Char) : Option (List Nat) :=
  match grouped? 10 cs with
  | some (0 :: _ :: _) => none
  | ds => ds

/-- An integer in base ten. -/
def decimalInteger? (cs : List Char) : Option Value :=
  let (negative, cs) := splitSign cs
  match wholeDigits? cs with
  | some ds => Value.ofInt? (if negative then -(ofDigits 10 ds : Int) else ofDigits 10 ds)
  | none => none

/-- An integer in another base, which the run announces. -/
def basedInteger? : List Char → Option Value
  | '0' :: 'x' :: cs => (grouped? 16 cs).bind fun ds => Value.ofInt? (ofDigits 16 ds)
  | '0' :: 'o' :: cs => (grouped? 8 cs).bind fun ds => Value.ofInt? (ofDigits 8 ds)
  | '0' :: 'b' :: cs => (grouped? 2 cs).bind fun ds => Value.ofInt? (ofDigits 2 ds)
  | _ => none

/-- The part before the first of some marks and, if there is one, the part after it. -/
def splitAtMark (isMark : Char → Bool) : List Char → List Char × Option (List Char)
  | [] => ([], none)
  | c :: cs =>
    if isMark c then ([], some cs)
    else
      let (before, after) := splitAtMark isMark cs
      (c :: before, after)

/-- The exponent of a real number, with its sign. -/
def exponent? (cs : List Char) : Option Int :=
  let (negative, cs) := splitSign cs
  (grouped? 10 cs).map fun ds => if negative then -(ofDigits 10 ds : Int) else ofDigits 10 ds

/-- The real number `± digits · 10 ^ e`. Beyond the greatest number there is nothing, and below the
    least one there is an infinite number. -/
def Real.ofDecimal? (negative : Bool) (digits : Nat) (e : Int) : Option Real :=
  match Binary64.ofDecimal negative digits e with
  | some x => some (.finite x)
  | none => if negative then some (.infinite true) else none

/-- A real number with a point or an exponent. -/
def decimalReal? (cs : List Char) : Option Real :=
  let (negative, cs) := splitSign cs
  let (mantissa, exponent) := splitAtMark (fun c => c = 'e' || c = 'E') cs
  let (whole, fraction) := splitAtMark (· = '.') mantissa
  match wholeDigits? whole, fraction, exponent with
  | some ds, none, some e => (exponent? e).bind fun e => Real.ofDecimal? negative (ofDigits 10 ds) e
  | some ds, some fs, none =>
    (grouped? 10 fs).bind fun fs =>
      Real.ofDecimal? negative (ofDigits 10 (ds ++ fs)) (-fs.length)
  | some ds, some fs, some e =>
    match grouped? 10 fs, exponent? e with
    | some fs, some e => Real.ofDecimal? negative (ofDigits 10 (ds ++ fs)) (e - fs.length)
    | _, _ => none
  | _, _, _ => none

/-- A real number that is no decimal. -/
def namedReal? (cs : List Char) : Option Real :=
  let (negative, cs) := splitSign cs
  if cs = ['i', 'n', 'f'] then some (.infinite negative)
  else if cs = ['n', 'a', 'n'] then some .notNumber
  else none

/-! ### Dates and times -/

/-- The number of two digits. -/
def two? (a b : Char) : Option Nat :=
  match digit? a, digit? b with
  | some a, some b => some (a * 10 + b)
  | _, _ => none

/-- The number of days of a month. -/
def daysIn (year month : Nat) : Nat :=
  if month = 2 then
    if year % 4 = 0 ∧ (year % 100 ≠ 0 ∨ year % 400 = 0) then 29 else 28
  else if month = 4 ∨ month = 6 ∨ month = 9 ∨ month = 11 then 30
  else 31

/-- The run spells a day of the calendar. -/
def isDate : List Char → Bool
  | [a, b, c, d, '-', e, f, '-', g, h] =>
    match two? a b, two? c d, two? e f, two? g h with
    | some century, some year, some month, some day =>
      decide (1 ≤ month ∧ month ≤ 12 ∧ 1 ≤ day ∧ day ≤ daysIn (century * 100 + year) month)
    | _, _, _, _ => false
  | _ => false

/-- The fraction of a second at the start of a run in canonical spelling, which has at most nine digits
    and no trailing zeros, and the rest of the run. -/
def secondFraction? : List Char → Option (List Char × List Char)
  | '.' :: cs =>
    let ds := cs.takeWhile Char.isDigit
    let kept := ((ds.take 9).reverse.dropWhile (· = '0')).reverse
    if ds.isEmpty then none
    else some (if kept.isEmpty then [] else '.' :: kept, cs.dropWhile Char.isDigit)
  | cs => some ([], cs)

/-- The time of day at the start of a run in canonical spelling, and the rest of the run. -/
def time? : List Char → Option (List Char × List Char)
  | a :: b :: ':' :: c :: d :: ':' :: e :: f :: cs =>
    match two? a b, two? c d, two? e f, secondFraction? cs with
    | some hour, some minute, some second, some (fraction, rest) =>
      if hour ≤ 23 ∧ minute ≤ 59 ∧ second ≤ 60 then
        some ([a, b, ':', c, d, ':', e, f] ++ fraction, rest)
      else none
    | _, _, _, _ => none
  | _ => none

/-- The offset of a time in canonical spelling; the whole run spells it. -/
def offset? : List Char → Option (List Char)
  | [] => some []
  | ['Z'] | ['z'] => some ['Z']
  | [sign, a, b, ':', c, d] =>
    match two? a b, two? c d with
    | some hour, some minute =>
      if (sign = '+' ∨ sign = '-') ∧ hour ≤ 23 ∧ minute ≤ 59 then
        some ([if hour = 0 ∧ minute = 0 then '+' else sign, a, b, ':', c, d])
      else none
    | _, _ => none
  | _ => none

/-- A time of day with an optional offset, in canonical spelling. -/
def timeWithOffset? (cs : List Char) : Option (List Char) :=
  match time? cs with
  | some (time, rest) => (offset? rest).map (time ++ ·)
  | none => none

/-- A date, a time of day, or both with a letter between them, in canonical spelling. -/
def moment? (cs : List Char) : Option (List Char) :=
  let date := cs.take 10
  if isDate date then
    match cs.drop 10 with
    | [] => some date
    | c :: rest =>
      if c = 'T' ∨ c = 't' then (timeWithOffset? rest).map fun time => date ++ 'T' :: time
      else none
  else
    match time? cs with
    | some (time, []) => some time
    | _ => none

/-! ### Scalars -/

/-- The character may stand in a scalar. -/
def isScalarChar (c : Char) : Bool :=
  c.isAlphanum || c = '+' || c = '-' || c = '_' || c = '.' || c = ':'

/-- The first reading that exists. -/
def firstSome {α : Type} : List (Option α) → Option α
  | [] => none
  | some a :: _ => some a
  | none :: rest => firstSome rest

/-- The scalar that a run spells. -/
def Value.ofScalar? (run : List Char) : Option Value :=
  if run = ['t', 'r', 'u', 'e'] then some (.boolean true)
  else if run = ['f', 'a', 'l', 's', 'e'] then some (.boolean false)
  else
    firstSome
      [(moment? run).map fun cs => .moment (String.ofList cs), decimalInteger? run,
        basedInteger? run, (decimalReal? run).map .real, (namedReal? run).map .real]

/-- The scalar at the start of the input, and what follows it. A space may stand between a date and a
    time. -/
def scanScalar (s : List Char) : Option (Value × List Char) :=
  let run := s.takeWhile isScalarChar
  let rest := s.dropWhile isScalarChar
  match isDate run, rest with
  | true, ' ' :: c :: more =>
    if c.isDigit then
      let time := (c :: more).takeWhile isScalarChar
      (timeWithOffset? time).map fun time =>
        (.moment (String.ofList (run ++ 'T' :: time)), (c :: more).dropWhile isScalarChar)
    else some (.moment (String.ofList run), rest)
  | _, _ => (Value.ofScalar? run).map fun v => (v, rest)

end Immutability.Toml
