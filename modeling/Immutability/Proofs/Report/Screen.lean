import Immutability.Proofs.Styled
import Immutability.Report.Screen

/-! What is shown on a terminal.

    Diagnostics are shown in order, each on a line with its severity, its code and its message
    (`DiagnosticLines`). The labels of severities differ before what follows them begins, so lines that
    show the same codes and messages show the same severities. -/

namespace Immutability

/-- Each severity is shown as a word in a look. -/
inductive Severity.Shown : Severity → Look → String → Prop
  | error : Shown .error .boldRed "ERROR"
  | warn : Shown .warn .boldYellow "WARN"
  | note : Shown .note .cyan "NOTE"

/-- The lines of diagnostics, after each of which stands what is said of its place. -/
inductive DiagnosticLines (color : Bool) (place : Diagnostic → String) :
    List Diagnostic → String → Prop
  | nil : DiagnosticLines color place [] ""
  | cons {d : Diagnostic} {ds : List Diagnostic} {look : Look} {word text : String}
      (hs : d.severity.Shown look word) (h : DiagnosticLines color place ds text) :
      DiagnosticLines color place (d :: ds)
        ("  [" ++ styled color look word ++ "] " ++ d.rule.code ++ ": " ++ d.message ++ "\n" ++
          place d ++ text)

theorem Severity.exists_shown (color : Bool) (s : Severity) :
    ∃ look word, s.Shown look word ∧ s.label color = styled color look word := by
  cases s with
  | error => exact ⟨_, _, .error, rfl⟩
  | warn => exact ⟨_, _, .warn, rfl⟩
  | note => exact ⟨_, _, .note, rfl⟩

theorem diagnosticLines_join (color : Bool) (place : Diagnostic → String) (ds : List Diagnostic) :
    DiagnosticLines color place ds (String.join (ds.map fun d => d.line color ++ place d)) := by
  induction ds with
  | nil => exact .nil
  | cons d ds ih =>
    obtain ⟨look, word, hs, hl⟩ := d.severity.exists_shown color
    have h := ih.cons hs
    rw [← hl] at h
    rwa [List.map_cons, String.join_cons]

/-- The label of a severity is not the beginning of the label of another one. -/
theorem Severity.eq_of_label_append {color : Bool} {s s' : Severity} {x x' : String}
    (h : s.label color ++ x = s'.label color ++ x') : s = s' := by
  -- the labels differ in their first letters, or in the codes of their looks
  have hc := congrArg (fun x => x.toList.take 6) h
  cases color <;> cases s <;> cases s' <;>
    first
    | rfl
    | simp [label, styled, Look.codes, String.toList_append] at hc

/-- Lines that show the same but for the severities show the same severities. -/
theorem eq_of_join_lines {α : Type} {color : Bool} {f f' : α → Diagnostic} {as : List α}
    (hf : ∀ a, (f a).rule = (f' a).rule ∧ (f a).message = (f' a).message)
    (h : String.join ((as.map f).map (Diagnostic.line color)) =
      String.join ((as.map f').map (Diagnostic.line color))) :
    ∀ a ∈ as, (f a).severity = (f' a).severity := by
  induction as with
  | nil => exact List.forall_mem_nil _
  | cons a as ih =>
    obtain ⟨hr, hm⟩ := hf a
    simp only [List.map_cons, String.join_cons, Diagnostic.line, hr, hm, String.append_assoc,
      String.append_right_inj] at h
    have hs := Severity.eq_of_label_append h
    rw [hs] at h
    simp only [String.append_right_inj] at h
    exact List.forall_mem_cons.2 ⟨hs, ih h⟩

namespace Report

/-- What is said of the place of a diagnostic. -/
def placeLine (d : Diagnostic) : String :=
  match d.location with
  | some l => "    at " ++ l.text ++ "\n"
  | none => ""

/-- A report is shown under its heading, with its summary and with each of its diagnostics, or with a
    line that there are none. -/
theorem screen_shows (color : Bool) (r : Report) : ∃ ending,
    r.screen color = "\n" ++ ruler color ++ "\n" ++
      styled color .boldBrightBlue "Immutability Check Report" ++ "\n" ++ ruler color ++ "\n\n" ++
      r.screenSummary color ++ "\n" ++ ending ++ "\n" ++ ruler color ++ "\n" ∧
    (r.diagnostics = [] → ending = styled color .boldGreen "✓ No issues found!" ++ "\n") ∧
    (r.diagnostics ≠ [] → ∃ lines, DiagnosticLines color placeLine r.diagnostics lines ∧
      ending = styled color .bold "Diagnostics:" ++ "\n" ++ lines) := by
  refine ⟨screenDiagnostics color r.diagnostics, rfl, ?_, ?_⟩
  · intro h
    rw [h]
    rfl
  · intro h
    refine ⟨_, diagnosticLines_join color placeLine r.diagnostics, ?_⟩
    obtain ⟨d, ds, hd⟩ := List.exists_cons_of_ne_nil h
    rw [hd]
    rfl

/-- What is shown of a report is not nothing. -/
theorem screen_ne_empty (color : Bool) (r : Report) : r.screen color ≠ "" := by
  obtain ⟨ending, h, -⟩ := r.screen_shows color
  rw [h]
  simp

end Report

end Immutability
