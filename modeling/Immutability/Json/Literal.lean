import Immutability.Text.Digits

/-! String literals of JSON.

    A literal is written with as few escapes as the format allows. One that is read may escape any
    character, and may spell a character beyond the first plane as two halves; halves without a
    partner spell no character, and only a reader that passes over the literal accepts them. -/

namespace Immutability.Json

/-- The lower-case digit of a number below sixteen. -/
def hexDigit (n : Nat) : Char := Nat.digitChar n

/-- A character inside a literal. -/
def escape (c : Char) : List Char :=
  match c with
  | '"' => ['\\', '"']
  | '\\' => ['\\', '\\']
  | '\x08' => ['\\', 'b']
  | '\t' => ['\\', 't']
  | '\n' => ['\\', 'n']
  | '\x0c' => ['\\', 'f']
  | '\r' => ['\\', 'r']
  | c =>
    if c.toNat < 0x20 then ['\\', 'u', '0', '0', hexDigit (c.toNat / 16), hexDigit (c.toNat % 16)]
    else [c]

/-- The literal of a text. -/
def literal (s : String) : List Char := '"' :: (s.toList.flatMap escape ++ ['"'])

/-! ### Reading -/

open Text (hexValue?)

/-- The number that four digits in base sixteen spell. -/
def codeUnit? (a b c d : Char) : Option Nat := do
  let a ← hexValue? a
  let b ← hexValue? b
  let c ← hexValue? c
  let d ← hexValue? d
  some (((a * 16 + b) * 16 + c) * 16 + d)

/-- What one character or escape of a literal stands for: a character, or one half of a pair. -/
inductive Piece where
  | whole (c : Char)
  | high (code : Nat)
  | low (code : Nat)
  deriving DecidableEq

/-- The piece of an escaped code unit. -/
def Piece.ofCode (code : Nat) : Piece :=
  if 0xD800 ≤ code ∧ code < 0xDC00 then .high code
  else if 0xDC00 ≤ code ∧ code < 0xE000 then .low code
  else .whole (Char.ofNat code)

/-- The character that a letter escapes. -/
def escaped? : Char → Option Char
  | '"' => some '"'
  | '\\' => some '\\'
  | '/' => some '/'
  | 'b' => some '\x08'
  | 'f' => some '\x0c'
  | 'n' => some '\n'
  | 'r' => some '\r'
  | 't' => some '\t'
  | _ => none

/-- The pieces of a literal whose opening quote has been read, and the text after its closing quote. -/
def pieces : List Char → Option (List Piece × List Char)
  | [] => none
  | '"' :: rest => some ([], rest)
  | '\\' :: 'u' :: a :: b :: c :: d :: rest =>
    match codeUnit? a b c d, pieces rest with
    | some code, some (ps, rest) => some (.ofCode code :: ps, rest)
    | _, _ => none
  | '\\' :: letter :: rest =>
    match escaped? letter, pieces rest with
    | some c, some (ps, rest) => some (.whole c :: ps, rest)
    | _, _ => none
  | c :: rest =>
    if c.toNat < 0x20 ∨ c = '\\' then none
    else
      match pieces rest with
      | some (ps, rest) => some (.whole c :: ps, rest)
      | none => none

/-- The characters of the pieces, if every half has its partner. -/
def assemble : List Piece → Option (List Char)
  | [] => some []
  | .whole c :: ps => (assemble ps).map (c :: ·)
  | .high h :: .low l :: ps =>
    (assemble ps).map (Char.ofNat (0x10000 + (h - 0xD800) * 0x400 + (l - 0xDC00)) :: ·)
  | _ :: _ => none

/-- A literal ends after the text in which it stands began. -/
theorem pieces_rest_lt {s rest : List Char} {ps : List Piece} (h : pieces s = some (ps, rest)) :
    rest.length < s.length := by
  fun_induction pieces s generalizing ps rest <;> simp_all <;> grind

end Immutability.Json
