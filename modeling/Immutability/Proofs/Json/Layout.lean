import Immutability.Proofs.Json.Literal
import Immutability.Proofs.Json.Numeral

/-! Texts laid out as tokens.

    White space may stand before every token and at the end, and tokens may stand side by side. The
    one exception is a numeral, which has to end before what follows it. However tokens are laid out,
    the scanner finds them again. -/

namespace Immutability.Json

/-- How a token is written. -/
inductive TokenText : List Char → Token → Prop
  | mark {c : Char} {token : Token} (h : Token.ofMark? c = some token) : TokenText [c] token
  | null : TokenText ['n', 'u', 'l', 'l'] .null
  | true : TokenText ['t', 'r', 'u', 'e'] (.boolean true)
  | false : TokenText ['f', 'a', 'l', 's', 'e'] (.boolean false)
  | numeral {cs : List Char} {n : Numeral} (h : NumeralText cs n) : TokenText cs (.numeral n)
  | literal {cs : List Char} {ps : List Piece} (h : PiecesText cs ps) :
      TokenText ('"' :: (cs ++ ['"'])) (.ofPieces ps)

/-- White space. -/
def Blank (cs : List Char) : Prop := ∀ c ∈ cs, isBlank c = true

/-- A text is laid out as tokens. -/
inductive Layout : List Char → List Token → Prop
  | done {blanks : List Char} (h : Blank blanks) : Layout blanks []
  | token {blanks cs rest : List Char} {token : Token} {ts : List Token} (hb : Blank blanks)
      (h : TokenText cs token) (he : ∀ n, token = .numeral n → EndsNumeral rest)
      (hs : Layout rest ts) : Layout (blanks ++ (cs ++ rest)) (token :: ts)

/-! ### Scanning -/

/-- A token starts with no white space, so it is taken where it stands. -/
theorem tokens_of_scanToken {s rest : List Char} {token : Token}
    (h : scanToken s = some (token, rest)) : tokens s = token :: tokens rest := by
  cases s with
  | nil => cases h
  | cons c s =>
    have hb : isBlank c = false := by
      rw [← Bool.not_eq_true]
      rintro hb
      obtain rfl | rfl | rfl | rfl : c = ' ' ∨ c = '\t' ∨ c = '\n' ∨ c = '\r' := by
        simpa [isBlank, or_assoc] using hb
      all_goals cases h
    rw [tokens]
    simp only [hb, Bool.false_eq_true, if_false]
    split
    · rename_i heq
      rw [h] at heq
      cases heq
      rfl
    · rename_i heq
      rw [h] at heq
      cases heq

/-- White space is dropped. -/
theorem tokens_blanks {blanks : List Char} (h : Blank blanks) (rest : List Char) :
    tokens (blanks ++ rest) = tokens rest := by
  induction blanks with
  | nil => rfl
  | cons c cs ih =>
    obtain ⟨hc, h⟩ := List.forall_mem_cons.1 h
    rw [List.cons_append, tokens, if_pos hc, ih h]

/-- A text that starts with a sign or a digit is read as a numeral. -/
theorem scanToken_of_sign {c : Char} (h : c = '-' ∨ c.isDigit = true) (rest : List Char) :
    scanToken (c :: rest) = (scanNumeral (c :: rest)).map fun (n, rest) => (.numeral n, rest) := by
  have hd : c = '-' ∨ ('0' ≤ c ∧ c ≤ '9') := by
    simpa [Char.isDigit, Char.le_def] using h
  have hq : c ≠ '"' := by
    rintro rfl
    revert h
    decide
  have hm : Token.ofMark? c = none := by
    rw [Token.ofMark?.eq_def]
    split <;> first | rfl | (revert h; decide)
  rw [scanToken, hm]
  · simp only [if_pos hd]
  · exact hq

/-- A written token is read, and what follows it is left. -/
theorem TokenText.scanToken_append {cs rest : List Char} {token : Token} (h : TokenText cs token)
    (he : ∀ n, token = .numeral n → EndsNumeral rest) :
    scanToken (cs ++ rest) = some (token, rest) := by
  cases h with
  | mark h =>
    rw [List.singleton_append, scanToken, h]
    rintro rfl
    cases h
  | null => rfl
  | true => rfl
  | false => rfl
  | @numeral cs n h =>
    -- the first character alone tells a numeral from all other tokens
    have hs := h.scanNumeral_append (he n rfl)
    obtain ⟨c, cs, rfl, hc⟩ := h.eq_cons
    rw [List.cons_append] at hs ⊢
    rw [scanToken_of_sign hc, hs]
    rfl
  | literal h =>
    rw [List.cons_append, List.append_assoc, List.singleton_append, scanToken, h.pieces_append]
    rfl

/-- However tokens are laid out, they are found again. -/
theorem Layout.tokens_eq {cs : List Char} {ts : List Token} (h : Layout cs ts) : tokens cs = ts := by
  induction h with
  | @done blanks h =>
    rw [← List.append_nil blanks, tokens_blanks h, tokens]
  | token hb h he hs ih => rw [tokens_blanks hb, tokens_of_scanToken (h.scanToken_append he), ih]

/-! ### Laying out tokens one by one -/

namespace Layout

variable {cs : List Char} {ts : List Token}

/-- More white space may stand before a text. -/
theorem blanks {bs : List Char} (hb : Blank bs) (h : Layout cs ts) : Layout (bs ++ cs) ts := by
  cases h with
  | done h => exact .done (List.forall_mem_append.2 ⟨hb, h⟩)
  | token hb' h he hs =>
    rw [← List.append_assoc]
    exact .token (List.forall_mem_append.2 ⟨hb, hb'⟩) h he hs

/-- A token may stand right before a text. -/
theorem cons {text : List Char} {token : Token} (ht : TokenText text token)
    (he : ∀ n, token = .numeral n → EndsNumeral cs) (h : Layout cs ts) :
    Layout (text ++ cs) (token :: ts) := by
  have hl : Layout ([] ++ (text ++ cs)) (token :: ts) := .token (List.forall_mem_nil _) ht he h
  exact hl

/-- A mark may stand before every text. -/
theorem mark {c : Char} {token : Token} (hc : Token.ofMark? c = some token) (h : Layout cs ts) :
    Layout (c :: cs) (token :: ts) := by
  refine h.cons (.mark hc) ?_
  rintro n rfl
  rw [Token.ofMark?.eq_def] at hc
  split at hc <;> cases hc

end Layout

end Immutability.Json
