import Immutability.Json.Printer
import Immutability.Proofs.Json.Building

/-! The layout of a printed value.

    Both printers lay out the tokens of the same tree and differ in white space only. Numbers have to
    be integers: how a decimal number is spelled is not considered here. -/

namespace Immutability.Json

mutual

/-- All numbers of the value are integers. -/
def integral : Json → Bool
  | .decimal _ => false
  | .sequence items => integralItems items
  | .table members => integralMembers members
  | _ => true

/-- All numbers of the items are integers. -/
def integralItems : List Json → Bool
  | [] => true
  | v :: vs => integral v && integralItems vs

/-- All numbers of the members are integers. -/
def integralMembers : List (String × Json) → Bool
  | [] => true
  | (_, v) :: members => integral v && integralMembers members

end

mutual

/-- The tree that a value is read as. A decimal number has none here. -/
def tree : Json → Tree
  | .null => .null
  | .boolean b => .boolean b
  | .integer i => .numeral (.ofInt i)
  | .decimal _ => .broken
  | .text s => .text s
  | .sequence items => .sequence (treeItems items) true
  | .table members => .table (treeMembers members) true

/-- The trees of the items of a sequence. -/
def treeItems : List Json → List Tree
  | [] => []
  | v :: vs => tree v :: treeItems vs

/-- The trees of the members of a table, with their keys. -/
def treeMembers : List (String × Json) → List (Option String × Tree)
  | [] => []
  | (key, v) :: members => (some key, tree v) :: treeMembers members

end

mutual

/-- The tree of a value has no fault, unless a decimal number is in it. -/
theorem intact_tree : ∀ v : Json, Read.intact v.tree = v.integral
  | .null => rfl
  | .boolean _ => rfl
  | .integer _ => rfl
  | .decimal _ => rfl
  | .text _ => rfl
  | .sequence items => by rw [tree, Read.intact, integral, Bool.true_and, intact_treeItems items]
  | .table members => by rw [tree, Read.intact, integral, Bool.true_and, intact_treeMembers members]

theorem intact_treeItems : ∀ vs : List Json, Read.intactItems (treeItems vs) = integralItems vs
  | [] => rfl
  | v :: vs => by rw [treeItems, Read.intactItems, integralItems, intact_tree v, intact_treeItems vs]

theorem intact_treeMembers : ∀ ms : List (String × Json),
    Read.intactMembers (treeMembers ms) = integralMembers ms
  | [] => rfl
  | (key, v) :: ms => by
    rw [treeMembers, Read.intactMembers, integralMembers, intact_tree v, intact_treeMembers ms]

end

/-! ### Single tokens -/

/-- The literal of a text is a token that may stand before every text. -/
theorem layout_literal {rest : List Char} {ts : List Token} (s : String) (h : Layout rest ts) :
    Layout (literal s ++ rest) (.text s :: ts) := by
  have hl := TokenText.literal (piecesText_flatMap_escape s.toList)
  rw [ofPieces_map_whole] at hl
  exact h.cons hl nofun

/-- A value other than a container is one token. -/
theorem layout_scalar {v : Json} (hv : v.integral = true) (hs : ∀ items, v ≠ .sequence items)
    (ht : ∀ members, v ≠ .table members) {rest : List Char} {ts : List Token}
    (hr : EndsNumeral rest) (h : Layout rest ts) :
    Layout (scalar v ++ rest) (v.tree.spelling ++ ts) := by
  cases v with
  | null => exact h.cons .null nofun
  | boolean b =>
    cases b with
    | false => exact h.cons .false nofun
    | true => exact h.cons .true nofun
  | integer i => exact h.cons (.numeral (numeralText_integerDigits i)) fun _ _ => hr
  | decimal x => cases hv
  | text s => exact layout_literal s h
  | sequence items => exact absurd rfl (hs items)
  | table members => exact absurd rfl (ht members)

/-! ### One line -/

mutual

/-- A value on one line is laid out as its tokens, whatever follows it. -/
theorem layout_compactChars : ∀ v : Json, v.integral = true → ∀ {rest : List Char}
    {ts : List Token}, EndsNumeral rest → Layout rest ts →
      Layout (compactChars v ++ rest) (v.tree.spelling ++ ts)
  | .sequence items, hv, rest, ts, _, h => by
    have hi := layout_compactItems items hv (.cons (by decide) rest) (h.mark (c := ']') rfl)
    simpa [compactChars, tree, Tree.spelling] using hi.mark (c := '[') rfl
  | .table members, hv, rest, ts, _, h => by
    have hm := layout_compactMembers members hv (.cons (by decide) rest) (h.mark (c := '\x7d') rfl)
    simpa [compactChars, tree, Tree.spelling] using hm.mark (c := '\x7b') rfl
  | .null, hv, _, _, hr, h => layout_scalar hv nofun nofun hr h
  | .boolean _, hv, _, _, hr, h => layout_scalar hv nofun nofun hr h
  | .integer _, hv, _, _, hr, h => layout_scalar hv nofun nofun hr h
  | .decimal _, hv, _, _, hr, h => layout_scalar hv nofun nofun hr h
  | .text _, hv, _, _, hr, h => layout_scalar hv nofun nofun hr h

theorem layout_compactItems : ∀ vs : List Json, integralItems vs = true → ∀ {rest : List Char}
    {ts : List Token}, EndsNumeral rest → Layout rest ts →
      Layout (compactItems vs ++ rest) (spellingItems (treeItems vs) ++ ts)
  | [], _, _, _, _, h => h
  | [v], hv, rest, ts, hr, h => by
    have hv : v.integral = true := by simpa [integralItems] using hv
    exact layout_compactChars v hv hr h
  | v :: w :: vs, hv, rest, ts, hr, h => by
    obtain ⟨hv, hvs⟩ : v.integral = true ∧ integralItems (w :: vs) = true := by
      simpa [integralItems] using hv
    have hi := layout_compactItems (w :: vs) hvs hr h
    have hs := layout_compactChars v hv (.cons (by decide) _) (hi.mark (c := ',') rfl)
    simpa [compactItems, treeItems, spellingItems] using hs

theorem layout_compactMembers : ∀ ms : List (String × Json), integralMembers ms = true →
    ∀ {rest : List Char} {ts : List Token}, EndsNumeral rest → Layout rest ts →
      Layout (compactMembers ms ++ rest) (spellingMembers (treeMembers ms) ++ ts)
  | [], _, _, _, _, h => h
  | [(key, v)], hv, rest, ts, hr, h => by
    have hv : v.integral = true := by simpa [integralMembers] using hv
    have hs := layout_compactChars v hv hr h
    have hk := layout_literal key (hs.mark (c := ':') rfl)
    simpa [compactMembers, treeMembers, spellingMembers, keyToken] using hk
  | (key, v) :: m :: ms, hv, rest, ts, hr, h => by
    obtain ⟨hv, hvs⟩ : v.integral = true ∧ integralMembers (m :: ms) = true := by
      simpa [integralMembers] using hv
    have hm := layout_compactMembers (m :: ms) hvs hr h
    have hs := layout_compactChars v hv (.cons (by decide) _) (hm.mark (c := ',') rfl)
    have hk := layout_literal key (hs.mark (c := ':') rfl)
    simpa [compactMembers, treeMembers, spellingMembers, keyToken] using hk

end

/-! ### Indented -/

theorem blank_newline (depth : Nat) : Blank (newline depth) := by
  rintro c hc
  rcases List.mem_cons.1 hc with rfl | hc
  · decide
  · rw [List.eq_of_mem_replicate hc]
    decide

theorem EndsNumeral.newline (depth : Nat) (rest : List Char) :
    EndsNumeral (Json.newline depth ++ rest) :=
  EndsNumeral.cons (by decide) _

/-- A colon and a space stand between a key and its value. -/
theorem layout_indentedKey {rest : List Char} {ts : List Token} (key : String)
    (h : Layout rest ts) :
    Layout (literal key ++ [':', ' '] ++ rest) (.text key :: .colon :: ts) := by
  have hb : Layout ([' '] ++ rest) ts := h.blanks (List.forall_mem_singleton.2 (by decide))
  simpa using layout_literal key (hb.mark (c := ':') rfl)

mutual

/-- A value on indented lines is laid out as the same tokens. -/
theorem layout_indentedChars : ∀ v : Json, v.integral = true → ∀ (depth : Nat) {rest : List Char}
    {ts : List Token}, EndsNumeral rest → Layout rest ts →
      Layout (indentedChars depth v ++ rest) (v.tree.spelling ++ ts)
  | .sequence [], _, _, _, _, _, h => (h.mark (c := ']') rfl).mark (c := '[') rfl
  | .sequence (v :: vs), hv, depth, rest, ts, _, h => by
    have he := (h.mark (c := ']') rfl).blanks (blank_newline depth)
    have hi := layout_indentedItems (v :: vs) hv (depth + 1) (.newline depth _) he
    have hs := (hi.blanks (blank_newline (depth + 1))).mark (c := '[') rfl
    simpa [indentedChars, tree, Tree.spelling] using hs
  | .table [], _, _, _, _, _, h => (h.mark (c := '\x7d') rfl).mark (c := '\x7b') rfl
  | .table (m :: ms), hv, depth, rest, ts, _, h => by
    have he := (h.mark (c := '\x7d') rfl).blanks (blank_newline depth)
    have hm := layout_indentedMembers (m :: ms) hv (depth + 1) (.newline depth _) he
    have hs := (hm.blanks (blank_newline (depth + 1))).mark (c := '\x7b') rfl
    simpa [indentedChars, tree, Tree.spelling] using hs
  | .null, hv, _, _, _, hr, h => layout_scalar hv nofun nofun hr h
  | .boolean _, hv, _, _, _, hr, h => layout_scalar hv nofun nofun hr h
  | .integer _, hv, _, _, _, hr, h => layout_scalar hv nofun nofun hr h
  | .decimal _, hv, _, _, _, hr, h => layout_scalar hv nofun nofun hr h
  | .text _, hv, _, _, _, hr, h => layout_scalar hv nofun nofun hr h

theorem layout_indentedItems : ∀ vs : List Json, integralItems vs = true → ∀ (depth : Nat)
    {rest : List Char} {ts : List Token}, EndsNumeral rest → Layout rest ts →
      Layout (indentedItems depth vs ++ rest) (spellingItems (treeItems vs) ++ ts)
  | [], _, _, _, _, _, h => h
  | [v], hv, depth, rest, ts, hr, h => by
    have hv : v.integral = true := by simpa [integralItems] using hv
    exact layout_indentedChars v hv depth hr h
  | v :: w :: vs, hv, depth, rest, ts, hr, h => by
    obtain ⟨hv, hvs⟩ : v.integral = true ∧ integralItems (w :: vs) = true := by
      simpa [integralItems] using hv
    have hi := (layout_indentedItems (w :: vs) hvs depth hr h).blanks (blank_newline depth)
    have hs := layout_indentedChars v hv depth (.cons (by decide) _) (hi.mark (c := ',') rfl)
    simpa [indentedItems, treeItems, spellingItems] using hs

theorem layout_indentedMembers : ∀ ms : List (String × Json), integralMembers ms = true →
    ∀ (depth : Nat) {rest : List Char} {ts : List Token}, EndsNumeral rest → Layout rest ts →
      Layout (indentedMembers depth ms ++ rest) (spellingMembers (treeMembers ms) ++ ts)
  | [], _, _, _, _, _, h => h
  | [(key, v)], hv, depth, rest, ts, hr, h => by
    have hv : v.integral = true := by simpa [integralMembers] using hv
    have hk := layout_indentedKey key (layout_indentedChars v hv depth hr h)
    simpa [indentedMembers, treeMembers, spellingMembers, keyToken] using hk
  | (key, v) :: m :: ms, hv, depth, rest, ts, hr, h => by
    obtain ⟨hv, hvs⟩ : v.integral = true ∧ integralMembers (m :: ms) = true := by
      simpa [integralMembers] using hv
    have hm := (layout_indentedMembers (m :: ms) hvs depth hr h).blanks (blank_newline depth)
    have hs := layout_indentedChars v hv depth (.cons (by decide) _) (hm.mark (c := ',') rfl)
    have hk := layout_indentedKey key hs
    simpa [indentedMembers, treeMembers, spellingMembers, keyToken] using hk

end

/-! ### Printed texts -/

/-- A value printed on one line is a text of its tree. -/
theorem written_compact {v : Json} (hv : v.integral = true) : Written v.compact v.tree := by
  refine ⟨?_, (intact_tree v).trans hv⟩
  simpa [compact] using layout_compactChars v hv .nil (.done (List.forall_mem_nil _))

/-- A value printed on indented lines is a text of the same tree. -/
theorem written_indented {v : Json} (hv : v.integral = true) : Written v.indented v.tree := by
  refine ⟨?_, (intact_tree v).trans hv⟩
  simpa [indented] using layout_indentedChars v hv 0 .nil (.done (List.forall_mem_nil _))

end Immutability.Json
