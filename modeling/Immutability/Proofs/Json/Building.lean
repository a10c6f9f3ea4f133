import Immutability.Json.Read
import Immutability.Proofs.Json.Layout

/-! The tree of a text.

    The tokens that spell a tree without a fault take the builder from where a value is due to where
    that value is complete, with the same containers around it. So a text that is laid out as these
    tokens is read as that one tree and nothing else. -/

namespace Immutability.Json

/-- The token of a key. -/
def keyToken : Option String → Token
  | some key => .text key
  | none => .unpaired

mutual

/-- The tokens that spell a tree. Where the text has its fault there are none. -/
def Tree.spelling : Tree → List Token
  | .null => [.null]
  | .boolean b => [.boolean b]
  | .numeral n => [.numeral n]
  | .text s => [.text s]
  | .unpaired => [.unpaired]
  | .sequence items _ => .openSequence :: (spellingItems items ++ [.closeSequence])
  | .table members _ => .openTable :: (spellingMembers members ++ [.closeTable])
  | .broken => []

/-- The tokens of the items of a sequence, with commas between them. -/
def spellingItems : List Tree → List Token
  | [] => []
  | [t] => t.spelling
  | t :: ts => t.spelling ++ .comma :: spellingItems ts

/-- The tokens of the members of a table, with commas between them. -/
def spellingMembers : List (Option String × Tree) → List Token
  | [] => []
  | [(key, t)] => keyToken key :: .colon :: t.spelling
  | (key, t) :: members =>
    keyToken key :: .colon :: (t.spelling ++ .comma :: spellingMembers members)

end

/-- The first token of a tree ends no sequence. -/
theorem spelling_eq_cons {t : Tree} (ht : Read.intact t = true) :
    ∃ token ts, t.spelling = token :: ts ∧ token ≠ .closeSequence := by
  cases t with
  | broken => cases ht
  | _ => exact ⟨_, _, rfl, nofun⟩

theorem step_opened {token : Token} (h : token ≠ .closeSequence) (stack : List Frame) :
    step (.opened stack) token = step (.value (.items [] :: stack)) token := by
  cases token with
  | closeSequence => exact absurd rfl h
  | _ => rfl

/-- Where the first item is due the tokens of a tree do what they do where any item is due. -/
theorem foldl_spelling_opened {t : Tree} (ht : Read.intact t = true) (ts : List Token)
    (stack : List Frame) :
    (t.spelling ++ ts).foldl step (.opened stack) =
      (t.spelling ++ ts).foldl step (.value (.items [] :: stack)) := by
  obtain ⟨token, ts', hs, ht⟩ := spelling_eq_cons ht
  rw [hs, List.cons_append, List.foldl_cons, List.foldl_cons, step_opened ht]

theorem spellingItems_cons_eq_append (t : Tree) (ts : List Tree) :
    ∃ more, spellingItems (t :: ts) = t.spelling ++ more := by
  cases ts with
  | nil => exact ⟨[], (List.append_nil _).symm⟩
  | cons u ts => exact ⟨_, rfl⟩

/-- A key and its colon lead to where the value of the key is due. -/
theorem foldl_key (key : Option String) (ts : List Token) (done : List (Option String × Tree))
    (stack : List Frame) :
    (keyToken key :: .colon :: ts : List Token).foldl step (.key done stack) =
      ts.foldl step (.value (.members done key :: stack)) := by
  cases key <;> rfl

mutual

/-- The tokens of a tree complete it, inside whatever containers it stands. -/
theorem foldl_spelling : ∀ t : Tree, Read.intact t = true → ∀ stack : List Frame,
    t.spelling.foldl step (.value stack) = .after t stack
  | .null, _, _ => rfl
  | .boolean _, _, _ => rfl
  | .numeral _, _, _ => rfl
  | .text _, _, _ => rfl
  | .unpaired, _, _ => rfl
  | .broken, ht, _ => by cases ht
  | .sequence items closed, ht, stack => by
    obtain ⟨rfl, hi⟩ : closed = true ∧ Read.intactItems items = true := by
      simpa [Read.intact] using ht
    cases items with
    | nil => rfl
    | cons t ts =>
      have ht : Read.intact t = true := by
        simp only [Read.intactItems, Bool.and_eq_true] at hi
        exact hi.1
      have hf := foldl_spellingItems (t :: ts) hi (List.cons_ne_nil t ts) [] stack
      obtain ⟨more, hm⟩ := spellingItems_cons_eq_append t ts
      have ho := foldl_spelling_opened ht (more ++ [.closeSequence]) stack
      rw [← List.append_assoc, ← hm, hf] at ho
      exact ho
  | .table members closed, ht, stack => by
    obtain ⟨rfl, hm⟩ : closed = true ∧ Read.intactMembers members = true := by
      simpa [Read.intact] using ht
    cases members with
    | nil => rfl
    | cons m ms => exact foldl_spellingMembers (m :: ms) hm (List.cons_ne_nil m ms) [] stack

/-- The tokens of items and the end of their sequence complete the sequence. -/
theorem foldl_spellingItems : ∀ ts : List Tree, Read.intactItems ts = true → ts ≠ [] →
    ∀ (done : List Tree) (stack : List Frame),
      (spellingItems ts ++ [Token.closeSequence]).foldl step (.value (.items done :: stack)) =
        .after (.sequence (done.reverse ++ ts) true) stack
  | [], _, hne, _, _ => absurd rfl hne
  | [t], ht, _, done, stack => by
    have ht : Read.intact t = true := by simpa [Read.intactItems] using ht
    have hs := foldl_spelling t ht (.items done :: stack)
    rw [spellingItems, List.foldl_append, hs]
    simp [step, resume]
  | t :: u :: ts, ht, _, done, stack => by
    obtain ⟨ht, hts⟩ : Read.intact t = true ∧ Read.intactItems (u :: ts) = true := by
      simpa [Read.intactItems] using ht
    have hs := foldl_spelling t ht (.items done :: stack)
    have hi := foldl_spellingItems (u :: ts) hts (List.cons_ne_nil u ts) (t :: done) stack
    rw [spellingItems, List.append_assoc, List.foldl_append, hs, List.cons_append, List.foldl_cons]
    · rw [step, resume, hi]
      simp
    · exact nofun

/-- The tokens of members and the end of their table complete the table. -/
theorem foldl_spellingMembers : ∀ ms : List (Option String × Tree), Read.intactMembers ms = true →
    ms ≠ [] → ∀ (done : List (Option String × Tree)) (stack : List Frame),
      (spellingMembers ms ++ [Token.closeTable]).foldl step (.key done stack) =
        .after (.table (done.reverse ++ ms) true) stack
  | [], _, hne, _, _ => absurd rfl hne
  | [(key, t)], ht, _, done, stack => by
    have ht : Read.intact t = true := by simpa [Read.intactMembers] using ht
    have hs := foldl_spelling t ht (.members done key :: stack)
    rw [spellingMembers, List.cons_append, List.cons_append, foldl_key, List.foldl_append, hs]
    simp [step, resume]
  | (key, t) :: m :: ms, ht, _, done, stack => by
    obtain ⟨ht, hts⟩ : Read.intact t = true ∧ Read.intactMembers (m :: ms) = true := by
      simpa [Read.intactMembers] using ht
    have hs := foldl_spelling t ht (.members done key :: stack)
    have hm := foldl_spellingMembers (m :: ms) hts (List.cons_ne_nil m ms)
      ((key, t) :: done) stack
    rw [spellingMembers, List.cons_append, List.cons_append, List.append_assoc, foldl_key,
      List.foldl_append, hs, List.cons_append, List.foldl_cons]
    · rw [step, resume, hm]
      simp
    · exact nofun

end

/-- The tokens of a tree make it up. -/
theorem ofTokens_spelling {t : Tree} (ht : Read.intact t = true) :
    Source.ofTokens t.spelling = ⟨t, true⟩ := by
  rw [Source.ofTokens, foldl_spelling t ht]
  rfl

/-- The text is laid out as the tokens of a tree that has no fault. -/
structure Written (s : String) (t : Tree) : Prop where
  layout : Layout s.toList t.spelling
  intact : Read.intact t = true

/-- A text is read as the tree that it was written for. -/
theorem Written.ofText_eq {s : String} {t : Tree} (h : Written s t) :
    Source.ofText s = ⟨t, true⟩ := by
  rw [Source.ofText, h.layout.tokens_eq, ofTokens_spelling h.intact]

end Immutability.Json
