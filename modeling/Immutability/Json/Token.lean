import Immutability.Json.Literal
import Immutability.Json.Numeral

/-! The tokens of a JSON text.

    White space separates tokens and is dropped. Where no token can be read the list ends with
    `Token.fault`, so that what stands before the fault keeps its meaning. -/

namespace Immutability.Json

/-- A token of a JSON text. -/
inductive Token where
  | openSequence
  | closeSequence
  | openTable
  | closeTable
  | colon
  | comma
  | null
  | boolean (value : Bool)
  | numeral (value : Numeral)
  | text (value : String)
  /-- A literal whose escapes leave half of a character without its partner. -/
  | unpaired
  /-- No token can be read here. -/
  | fault
  deriving DecidableEq

/-- The white space of JSON. -/
def isBlank (c : Char) : Bool := c = ' ' || c = '\t' || c = '\n' || c = '\r'

/-- The token of a literal with the given pieces. -/
def Token.ofPieces (ps : List Piece) : Token :=
  match assemble ps with
  | some cs => .text (String.ofList cs)
  | none => .unpaired

/-- The token that a single character spells. -/
def Token.ofMark? : Char → Option Token
  | '[' => some .openSequence
  | ']' => some .closeSequence
  | '\x7b' => some .openTable
  | '\x7d' => some .closeTable
  | ':' => some .colon
  | ',' => some .comma
  | _ => none

/-- The token that a word spells, for the words that a text can start with. -/
def scanWord : List Char → Option (Token × List Char)
  | 'n' :: 'u' :: 'l' :: 'l' :: rest => some (.null, rest)
  | 't' :: 'r' :: 'u' :: 'e' :: rest => some (.boolean true, rest)
  | 'f' :: 'a' :: 'l' :: 's' :: 'e' :: rest => some (.boolean false, rest)
  | _ => none

/-- The token at the start of a text that does not start with white space, and the text after it. -/
def scanToken : List Char → Option (Token × List Char)
  | [] => none
  | '"' :: rest => (pieces rest).map fun (ps, rest) => (.ofPieces ps, rest)
  | c :: rest =>
    match Token.ofMark? c with
    | some token => some (token, rest)
    | none =>
      if c = '-' ∨ ('0' ≤ c ∧ c ≤ '9') then
        (scanNumeral (c :: rest)).map fun (n, rest) => (.numeral n, rest)
      else scanWord (c :: rest)

theorem scanWord_rest_lt {s rest : List Char} {token : Token}
    (h : scanWord s = some (token, rest)) : rest.length < s.length := by
  unfold scanWord at h
  split at h <;> simp_all <;> grind

/-- A token has at least one character. -/
theorem scanToken_rest_lt {s rest : List Char} {token : Token}
    (h : scanToken s = some (token, rest)) : rest.length < s.length := by
  unfold scanToken at h
  split at h
  · simp at h
  · obtain ⟨⟨ps, rest'⟩, hp, h⟩ := Option.map_eq_some_iff.1 h
    have := pieces_rest_lt hp
    simp only [Prod.mk.injEq] at h
    simp only [List.length_cons, ← h.2]
    omega
  · split at h
    · simp_all
    · split at h
      · obtain ⟨⟨n, rest'⟩, hn, h⟩ := Option.map_eq_some_iff.1 h
        have := scanNumeral_rest_lt hn
        simp_all
      · exact scanWord_rest_lt h

/-- The tokens of a text. -/
def tokens (s : List Char) : List Token :=
  match s with
  | [] => []
  | c :: rest =>
    if isBlank c then tokens rest
    else
      match _h : scanToken (c :: rest) with
      | some (token, rest) => token :: tokens rest
      | none => [.fault]
termination_by s.length
decreasing_by
  · simp
  · exact scanToken_rest_lt (by assumption)

end Immutability.Json
