import Immutability.Styled
import Mathlib.Logic.Function.Basic

/-! Looks of texts can be told apart.

    Two texts never become the same in one look, although a text may itself switch a terminal: after
    each switch back to plain stands the switch to the look, and nothing else has been added. -/

namespace Immutability

variable {code cs s : List Char} {c : Char}

/-- A character that begins no switch has not been added. -/
theorem eq_cons_of_resumed_eq_cons (hc : c ≠ '\x1b') :
    resumed code s = c :: cs → ∃ rest, s = c :: rest ∧ resumed code rest = cs := by
  fun_cases resumed code s with
  | case1 rest =>
    intro h
    exact absurd (List.cons.inj h).1.symm hc
  | case2 d rest _ =>
    intro h
    obtain ⟨rfl, hr⟩ := List.cons.inj h
    exact ⟨rest, rfl, hr⟩
  | case3 =>
    intro h
    cases h

/-- So what goes on like a switch back to plain did so before. -/
theorem eq_of_resumed_eq (h : resumed code s = '[' :: '0' :: 'm' :: cs) :
    ∃ rest, s = '[' :: '0' :: 'm' :: rest := by
  obtain ⟨s₁, rfl, h₁⟩ := eq_cons_of_resumed_eq_cons (by decide) h
  obtain ⟨s₂, rfl, h₂⟩ := eq_cons_of_resumed_eq_cons (by decide) h₁
  obtain ⟨rest, rfl, -⟩ := eq_cons_of_resumed_eq_cons (by decide) h₂
  exact ⟨rest, rfl⟩

theorem resumed_injective (code : List Char) : Function.Injective (resumed code) := by
  intro s
  fun_induction resumed code s with
  | case1 cs ih =>
    intro s'
    fun_cases resumed code s' with
    | case1 cs' =>
      intro h
      simp only [List.cons.injEq, true_and, List.append_cancel_left_eq] at h
      rw [ih h]
    | case2 c' cs' hc' =>
      intro h
      obtain ⟨rfl, hr⟩ := List.cons.inj h
      obtain ⟨rest, rfl⟩ := eq_of_resumed_eq hr.symm
      exact (hc' rest rfl rfl).elim
    | case3 =>
      intro h
      cases h
  | case2 c cs hc ih =>
    intro s'
    fun_cases resumed code s' with
    | case1 cs' =>
      intro h
      obtain ⟨rfl, hr⟩ := List.cons.inj h
      obtain ⟨rest, rfl⟩ := eq_of_resumed_eq hr
      exact (hc rest rfl rfl).elim
    | case2 c' cs' _ =>
      intro h
      obtain ⟨rfl, hr⟩ := List.cons.inj h
      rw [ih hr]
    | case3 =>
      intro h
      cases h
  | case3 =>
    intro s'
    fun_cases resumed code s' with
    | case3 => exact fun _ => rfl
    | _ =>
      intro h
      cases h

theorem styled_inj {color : Bool} {look : Look} {s s' : String} :
    styled color look s = styled color look s' ↔ s = s' := by
  constructor
  · intro h
    cases color with
    | false => exact h
    | true =>
      simp only [styled, if_true, String.append_left_inj, String.append_right_inj,
        String.ofList_inj] at h
      exact String.toList_inj.1 (resumed_injective _ h)
  · rintro rfl
    rfl

end Immutability
