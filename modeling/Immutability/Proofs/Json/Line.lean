import Immutability.Proofs.Json.Spelling

/-! Values printed on one line.

    The compact layout has no white space, and literals escape every control character, so no control
    character stands in the text of a value, whatever its texts hold. -/

namespace Immutability.Json

/-- No control character is among these characters. -/
def Printable (cs : List Char) : Prop := ∀ c ∈ cs, 0x20 ≤ c.toNat

namespace Printable

variable {cs ds : List Char}

theorem nil : Printable [] := nofun

theorem cons {c : Char} (hc : 0x20 ≤ c.toNat) (h : Printable cs) : Printable (c :: cs) :=
  List.forall_mem_cons.2 ⟨hc, h⟩

theorem append (h : Printable cs) (h' : Printable ds) : Printable (cs ++ ds) :=
  List.forall_mem_append.2 ⟨h, h'⟩

/-- A printable text has no line break. -/
theorem newline_notMem (h : Printable cs) : '\n' ∉ cs := fun hn => absurd (h _ hn) (by decide)

end Printable

theorem printable_hexDigit : ∀ n < 16, 0x20 ≤ (hexDigit n).toNat := by decide

/-- Control characters are escaped. -/
theorem printable_escape (c : Char) : Printable (escape c) := by
  unfold escape
  split
  case h_8 =>
    split
    · rename_i hc
      have hh := printable_hexDigit (c.toNat / 16) (by omega)
      have hl := printable_hexDigit (c.toNat % 16) (by omega)
      exact .cons (by decide) <| .cons (by decide) <| .cons (by decide) <| .cons (by decide) <|
        .cons hh <| .cons hl .nil
    · rename_i hc
      exact .cons (by omega) .nil
  all_goals exact .cons (by decide) <| .cons (by decide) .nil

theorem printable_literal (s : String) : Printable (literal s) := by
  refine .cons (by decide) (.append ?_ (.cons (by decide) .nil))
  intro c hc
  obtain ⟨d, -, hd⟩ := List.mem_flatMap.1 hc
  exact printable_escape d c hd

theorem printable_integerDigits (i : Int) : Printable (integerDigits i) := by
  refine .append ?_ ?_
  · split
    · exact .cons (by decide) .nil
    · exact .nil
  · intro c hc
    have hd : c.isDigit = true := isDigit_toDigits i.natAbs c hc
    have hc : '0' ≤ c ∧ c ≤ '9' := by simpa [Char.isDigit, Char.le_def] using hd
    have h0 : '0'.toNat ≤ c.toNat := hc.1
    exact Nat.le_trans (by decide) h0

theorem printable_scalar {v : Json} (hv : v.integral = true) : Printable (scalar v) := by
  cases v with
  | null => simp [scalar, Printable]
  | boolean b => cases b <;> simp [scalar, Printable]
  | integer i => exact printable_integerDigits i
  | decimal x => cases hv
  | text s => exact printable_literal s
  | sequence items => exact .nil
  | table members => exact .nil

mutual

/-- The text of a value on one line has no control character. -/
theorem printable_compactChars : ∀ v : Json, v.integral = true → Printable (compactChars v)
  | .sequence items, hv => by
    rw [compactChars]
    exact .cons (by decide) (.append (printable_compactItems items hv) (.cons (by decide) .nil))
  | .table members, hv => by
    rw [compactChars]
    exact .cons (by decide) (.append (printable_compactMembers members hv) (.cons (by decide) .nil))
  | .null, hv => printable_scalar hv
  | .boolean _, hv => printable_scalar hv
  | .integer _, hv => printable_scalar hv
  | .decimal _, hv => printable_scalar hv
  | .text _, hv => printable_scalar hv

theorem printable_compactItems : ∀ vs : List Json, integralItems vs = true →
    Printable (compactItems vs)
  | [], _ => .nil
  | [v], hv => by
    have hv : v.integral = true := by simpa [integralItems] using hv
    exact printable_compactChars v hv
  | v :: w :: vs, hv => by
    obtain ⟨hv, hvs⟩ : v.integral = true ∧ integralItems (w :: vs) = true := by
      simpa [integralItems] using hv
    exact .append (printable_compactChars v hv)
      (.cons (by decide) (printable_compactItems (w :: vs) hvs))

theorem printable_compactMembers : ∀ ms : List (String × Json), integralMembers ms = true →
    Printable (compactMembers ms)
  | [], _ => .nil
  | [(key, v)], hv => by
    have hv : v.integral = true := by simpa [integralMembers] using hv
    exact .append (printable_literal key) (.cons (by decide) (printable_compactChars v hv))
  | (key, v) :: m :: ms, hv => by
    obtain ⟨hv, hvs⟩ : v.integral = true ∧ integralMembers (m :: ms) = true := by
      simpa [integralMembers] using hv
    exact .append (printable_literal key) (.cons (by decide) (.append (printable_compactChars v hv)
      (.cons (by decide) (printable_compactMembers (m :: ms) hvs))))

end

end Immutability.Json
