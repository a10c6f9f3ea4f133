import Immutability.Command.Run

/-! What a report counts.

    Diagnostics are counted one by one as they are added, and the list is not looked at again. Each
    step in the making of a report keeps the counts and the list together (`Tallies`), so they never
    drift apart, and the report of a run tells of errors exactly if the run has some. -/

namespace Immutability

namespace Report

/-- A report as it is begun, with nothing or with diagnostics. -/
def begun (timestamp : String) : Option (List Diagnostic) → Report
  | none => empty timestamp
  | some ds => ofDiagnostics timestamp ds

/-- A step in the making of a report. -/
inductive Step where
  | add (d : Diagnostic)
  | withCounts (elementsChecked classesVerified : Nat)
  | withMetadata (metadata : Json)

/-- The report after a step. -/
def Step.apply (r : Report) : Step → Report
  | add d => r.add d
  | withCounts elementsChecked classesVerified => r.withCounts elementsChecked classesVerified
  | withMetadata metadata => r.withMetadata metadata

/-- The diagnostics that a step adds. -/
def Step.added : Step → List Diagnostic
  | add d => [d]
  | withCounts _ _ | withMetadata _ => []

/-- The report lists these diagnostics, and counts each of them once in all and once under its
    severity. -/
structure Tallies (r : Report) (ds : List Diagnostic) : Prop where
  diagnostics : r.diagnostics = ds
  total : r.summary.total = ds.length
  errors : r.summary.errors = ds.countP (·.severity = .error)
  warnings : r.summary.warnings = ds.countP (·.severity = .warn)
  notes : r.summary.notes = ds.countP (·.severity = .note)

theorem tallies_empty (timestamp : String) : (empty timestamp).Tallies [] :=
  ⟨rfl, rfl, rfl, rfl, rfl⟩

namespace Tallies

variable {r : Report} {ds : List Diagnostic}

/-- A step keeps the counts and the list together. -/
theorem apply (h : r.Tallies ds) (s : Step) : (s.apply r).Tallies (ds ++ s.added) := by
  cases s with
  | add d =>
    obtain ⟨rfl, ht, he, hw, hn⟩ := h
    cases hd : d.severity <;> constructor <;>
      simp [Step.apply, Step.added, Report.add, Summary.count, List.countP_append, hd, ht, he, hw, hn]
  | withCounts m n =>
    rw [Step.added, List.append_nil]
    exact ⟨h.diagnostics, h.total, h.errors, h.warnings, h.notes⟩
  | withMetadata v =>
    rw [Step.added, List.append_nil]
    exact ⟨h.diagnostics, h.total, h.errors, h.warnings, h.notes⟩

/-- So do any steps, one after the other. -/
theorem foldl_apply (h : r.Tallies ds) (steps : List Step) :
    (steps.foldl Step.apply r).Tallies (ds ++ steps.flatMap Step.added) := by
  induction steps generalizing r ds with
  | nil => simpa using h
  | cons s steps ih =>
    rw [List.foldl_cons, List.flatMap_cons, ← List.append_assoc]
    exact ih (h.apply s)

/-- Every diagnostic has one of the three severities. -/
theorem total_eq (h : r.Tallies ds) :
    r.summary.total = r.summary.errors + r.summary.warnings + r.summary.notes := by
  rw [h.total, h.errors, h.warnings, h.notes]
  clear h
  induction ds with
  | nil => rfl
  | cons d ds ih => cases hd : d.severity <;> simp [hd, ih] <;> omega

theorem hasErrors_eq (h : r.Tallies ds) : r.hasErrors = ds.any (·.severity = .error) := by
  rw [Report.hasErrors, h.errors, Bool.eq_iff_iff, decide_eq_true_iff, List.countP_pos_iff,
    List.any_eq_true]

theorem hasErrors_iff (h : r.Tallies ds) :
    r.hasErrors = true ↔ ∃ d ∈ ds, d.severity = .error := by
  simp [h.hasErrors_eq]

end Tallies

/-- A report of diagnostics is made by adding them one by one. -/
theorem tallies_ofDiagnostics (timestamp : String) (ds : List Diagnostic) :
    (ofDiagnostics timestamp ds).Tallies ds := by
  have h := (tallies_empty timestamp).foldl_apply (ds.map .add)
  have hd : (ds.map Step.add).flatMap Step.added = ds := by simp [List.flatMap_map, Step.added]
  rwa [List.foldl_map, hd, List.nil_append] at h

theorem tallies_begun (timestamp : String) (start : Option (List Diagnostic)) :
    (begun timestamp start).Tallies (start.getD []) := by
  cases start with
  | none => exact tallies_empty timestamp
  | some ds => exact tallies_ofDiagnostics timestamp ds

/-- The report of a run counts the diagnostics of the run. -/
theorem tallies_toReport (v : Verification) (timestamp : String) :
    (v.toReport timestamp).Tallies v.diagnostics := by
  have h := (tallies_ofDiagnostics timestamp v.diagnostics).apply
    (.withCounts v.elementsChecked v.classesVerified)
  rwa [Step.added, List.append_nil] at h

/-- A report that is made in any steps, from nothing or from diagnostics, lists the diagnostics in the
    order in which they came. In all it counts as many as it lists, which are its errors, its warnings
    and its notes together; of each severity it counts as many as it lists, and by its counts it has
    errors exactly if one of the diagnostics is an error. The report of a run lists the diagnostics of
    the run and counts what a search through them counts. -/
theorem counts_of_steps :
    (∀ (timestamp : String) (start : Option (List Diagnostic)) (steps : List Step),
      let r := steps.foldl Step.apply (begun timestamp start)
      r.diagnostics = start.getD [] ++ steps.flatMap Step.added ∧
      r.summary.total = r.diagnostics.length ∧
      r.summary.total = r.summary.errors + r.summary.warnings + r.summary.notes ∧
      r.summary.errors = r.diagnostics.countP (·.severity = .error) ∧
      r.summary.warnings = r.diagnostics.countP (·.severity = .warn) ∧
      r.summary.notes = r.diagnostics.countP (·.severity = .note) ∧
      (r.hasErrors = true ↔ ∃ d ∈ r.diagnostics, d.severity = .error)) ∧
    ∀ (v : Verification) (timestamp : String),
      let r := v.toReport timestamp
      r.diagnostics = v.diagnostics ∧
      r.summary.errors = v.errorCount ∧
      r.summary.warnings = v.warningCount ∧
      r.hasErrors = v.hasErrors ∧
      r.summary.elementsChecked = v.elementsChecked ∧
      r.summary.classesVerified = v.classesVerified := by
  constructor
  · intro timestamp start steps r
    have h : r.Tallies (start.getD [] ++ steps.flatMap Step.added) :=
      (tallies_begun timestamp start).foldl_apply steps
    rw [h.diagnostics]
    exact ⟨rfl, h.total, h.total_eq, h.errors, h.warnings, h.notes, h.hasErrors_iff⟩
  · intro v timestamp r
    have h : r.Tallies v.diagnostics := tallies_toReport v timestamp
    exact ⟨h.diagnostics, h.errors, h.warnings, h.hasErrors_eq, rfl, rfl⟩

end Report

/-- The report of a run holds the diagnostics of the run. -/
theorem diagnostics_runReport (now : String) (g : TypeGraph) (o : Verification) :
    (runReport now g o).diagnostics = o.diagnostics :=
  (Report.tallies_toReport o now).diagnostics

/-- The report of a run tells of errors if the run has some. -/
theorem hasErrors_runReport (now : String) (g : TypeGraph) (o : Verification) :
    (runReport now g o).hasErrors = o.hasErrors :=
  (Report.tallies_toReport o now).hasErrors_eq

end Immutability
