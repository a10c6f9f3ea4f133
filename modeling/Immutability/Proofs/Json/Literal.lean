import Immutability.Json.Token

/-! Reading string literals.

    A literal is read piece by piece as it is written (`PiecesText`), whatever follows it, so nothing
    of what stands after it is lost. The literal that is written for a text spells its characters, so
    it is read as the text it was written for. -/

namespace Immutability.Json

/-! ### How pieces are written -/

/-- A piece of a literal: a character as it is, an escaped letter, or an escaped code unit. -/
inductive PieceText : List Char → Piece → Prop
  | plain {c : Char} (hq : c ≠ '"') (hb : c ≠ '\\') (hc : 0x20 ≤ c.toNat) :
      PieceText [c] (.whole c)
  | letter {letter c : Char} (h : escaped? letter = some c) : PieceText ['\\', letter] (.whole c)
  | code {a b c d : Char} {n : Nat} (h : codeUnit? a b c d = some n) :
      PieceText ['\\', 'u', a, b, c, d] (.ofCode n)

/-- The pieces between the quotes of a literal. -/
inductive PiecesText : List Char → List Piece → Prop
  | nil : PiecesText [] []
  | cons {cs ds : List Char} {p : Piece} {ps : List Piece} (h : PieceText cs p)
      (hs : PiecesText ds ps) : PiecesText (cs ++ ds) (p :: ps)

/-- A character that needs no escape is read as it is. -/
theorem pieces_plain {c : Char} (hq : c ≠ '"') (hb : c ≠ '\\') (hc : 0x20 ≤ c.toNat)
    (rest : List Char) :
    pieces (c :: rest) = (pieces rest).map fun p => (.whole c :: p.1, p.2) := by
  rw [pieces.eq_def]
  split
  case h_5 h =>
    obtain ⟨rfl, rfl⟩ := List.cons.inj h
    rw [if_neg (not_or.2 ⟨by omega, hb⟩)]
    cases pieces rest <;> rfl
  all_goals simp_all

/-- A letter after a backslash is read as the character that it escapes. -/
theorem pieces_letter {letter c : Char} (h : escaped? letter = some c) (rest : List Char) :
    pieces ('\\' :: letter :: rest) = (pieces rest).map fun p => (.whole c :: p.1, p.2) := by
  rw [pieces.eq_def]
  split
  case h_4 _ _ he =>
    obtain ⟨rfl, rfl⟩ : letter = _ ∧ rest = _ := by simpa using he
    rw [h]
    cases pieces rest <;> rfl
  case h_3 he =>
    obtain ⟨rfl, -⟩ : letter = 'u' ∧ _ := by simpa using he
    cases h
  case h_5 hne he =>
    obtain ⟨rfl, rfl⟩ := List.cons.inj he
    exact (hne _ _ rfl rfl).elim
  all_goals simp_all

/-- A code unit is read as the piece that it stands for. -/
theorem pieces_code {a b c d : Char} {n : Nat} (h : codeUnit? a b c d = some n)
    (rest : List Char) :
    pieces ('\\' :: 'u' :: a :: b :: c :: d :: rest) =
      (pieces rest).map fun p => (.ofCode n :: p.1, p.2) := by
  rw [pieces, h]
  cases pieces rest <;> rfl

/-- A written piece is read, and what follows it is left. -/
theorem PieceText.pieces_append {cs : List Char} {p : Piece} (h : PieceText cs p)
    (rest : List Char) : pieces (cs ++ rest) = (pieces rest).map fun q => (p :: q.1, q.2) := by
  cases h with
  | plain hq hb hc => exact pieces_plain hq hb hc rest
  | letter h => exact pieces_letter h rest
  | code h => exact pieces_code h rest

/-- Written pieces are read up to the closing quote. -/
theorem PiecesText.pieces_append {cs : List Char} {ps : List Piece} (h : PiecesText cs ps)
    (rest : List Char) : pieces (cs ++ '"' :: rest) = some (ps, rest) := by
  induction h with
  | nil => simp [pieces]
  | cons hp hs ih =>
    rw [List.append_assoc, hp.pieces_append, ih]
    rfl

/-! ### The literal of a text -/

open Text (hexValue?)

theorem hexValue?_hexDigit : ∀ n < 16, hexValue? (hexDigit n) = some n := by decide

/-- The escape of a control character spells its code. -/
theorem codeUnit?_hexDigit {n : Nat} (h : n < 0x20) :
    codeUnit? '0' '0' (hexDigit (n / 16)) (hexDigit (n % 16)) = some n := by
  have hh := hexValue?_hexDigit (n / 16) (by omega)
  have hl := hexValue?_hexDigit (n % 16) (by omega)
  have hz : hexValue? '0' = some 0 := by decide
  simp only [codeUnit?, hh, hl, hz, Option.bind_eq_bind, Option.bind_some, Option.some.injEq]
  omega

/-- A character is written as one piece. -/
theorem pieceText_escape (c : Char) : PieceText (escape c) (.whole c) := by
  unfold escape
  split
  case h_8 hq hb _ _ _ _ _ =>
    split
    · rename_i hc
      have hp : Piece.ofCode c.toNat = .whole c := by
        unfold Piece.ofCode
        rw [if_neg (by omega), if_neg (by omega), Char.ofNat_toNat]
      rw [← hp]
      exact .code (codeUnit?_hexDigit hc)
    · rename_i hc
      exact .plain hq hb (by omega)
  all_goals exact .letter rfl

theorem piecesText_flatMap_escape (cs : List Char) :
    PiecesText (cs.flatMap escape) (cs.map .whole) := by
  induction cs with
  | nil => exact .nil
  | cons c cs ih => exact .cons (pieceText_escape c) ih

theorem assemble_map_whole (cs : List Char) : assemble (cs.map .whole) = some cs := by
  induction cs with
  | nil => rfl
  | cons c cs ih => rw [List.map_cons, assemble, ih]; rfl

/-- The characters of a text make up the text. -/
theorem ofPieces_map_whole (s : String) : Token.ofPieces (s.toList.map .whole) = .text s := by
  rw [Token.ofPieces, assemble_map_whole]
  simp only [String.ofList_toList]

end Immutability.Json
