import Immutability.Explanation
import Immutability.Proofs.Classification
import Immutability.Proofs.Report.Screen

/-! What a page on a type shows.

    After the declaration of the type stands a line for each field, which ends in a label
    (`FieldsText`), and then, if the type is marked, that it satisfies the rules or the lines of its
    diagnostics (`EndingText`). No label is the beginning of another one that the same field could
    have. So a page tells how each field is classified and which diagnostics there are: pages on one
    type that tell different things are different texts. -/

namespace Immutability

/-! ### Texts of a page -/

/-- Each class of a field is shown as words in a look. -/
inductive FieldClass.Shown : FieldClass → Look → String → Prop
  | primitive : Shown .primitive .green "primitive"
  | knownImmutable : Shown .knownImmutable .green "known immutable"
  | markedType : Shown .markedType .green "annotated type"
  | enumeration : Shown .enumeration .green "enum"
  | override : Shown .override .green "field override"
  | invalid (typeName : String) :
      Shown (.invalid typeName) .boldRed ("invalid (" ++ typeName ++ ")")

/-- The lines of fields, each with its modifiers, its type, its name and a label. -/
inductive FieldLines (label : FieldDeclaration → String) : List FieldDeclaration → String → Prop
  | nil : FieldLines label [] ""
  | cons {f : FieldDeclaration} {fs : List FieldDeclaration} {text : String}
      (h : FieldLines label fs text) :
      FieldLines label (f :: fs) ("  " ++ f.modifiers.text ++ " " ++ f.type.identifier ++ " " ++
        f.name ++ ": " ++ label f ++ "\n" ++ text)

/-- The fields of a type, if there are any. -/
inductive FieldsText (color : Bool) (label : FieldDeclaration → String) :
    List FieldDeclaration → String → Prop
  | none : FieldsText color label [] "No fields declared.\n"
  | some {f : FieldDeclaration} {fs : List FieldDeclaration} {lines : String}
      (h : FieldLines label (f :: fs) lines) :
      FieldsText color label (f :: fs) (styled color .bold "Fields:" ++ "\n" ++ lines)

/-- What a page tells of a type with these diagnostics: nothing if the type is not marked. -/
inductive EndingText (color : Bool) : Bool → List Diagnostic → String → Prop
  | unmarked : EndingText color false [] ""
  | satisfied : EndingText color true []
      ("\n" ++ styled color .boldGreen "✓ Satisfies the immutability rules" ++ "\n")
  | broken {d : Diagnostic} {ds : List Diagnostic} {lines : String}
      (h : DiagnosticLines color (fun _ => "") (d :: ds) lines) :
      EndingText color true (d :: ds) ("\n" ++ styled color .bold "Diagnostics:" ++ "\n" ++ lines)

/-- A page says that the type satisfies the rules exactly if it is marked and nothing is reported. -/
theorem EndingText.satisfied_iff {color marked : Bool} {ds : List Diagnostic} {ending : String}
    (h : EndingText color marked ds ending) :
    ending = "\n" ++ styled color .boldGreen "✓ Satisfies the immutability rules" ++ "\n" ↔
      marked = true ∧ ds = [] := by
  cases h with
  | unmarked =>
    refine ⟨fun he => ?_, fun hm => by cases hm.1⟩
    simpa [String.toList_append] using congrArg String.toList he
  | satisfied => simp
  | broken h =>
    refine ⟨fun he => ?_, fun hm => by cases hm.2⟩
    -- the texts differ in the mark, or in the look they are switched to
    have hc := congrArg (fun s => s.toList.take 5) he
    cases color <;> simp [styled, Look.codes, String.toList_append] at hc

/-! ### Labels -/

/-- The label of a class. -/
def FieldClass.shown (color : Bool) (c : FieldClass) : String :=
  styled color (if c.isOk then .green else .boldRed) c.text

theorem FieldClass.exists_shown (color : Bool) (c : FieldClass) :
    ∃ look word, c.Shown look word ∧ c.shown color = styled color look word := by
  cases c with
  | primitive => exact ⟨_, _, .primitive, rfl⟩
  | knownImmutable => exact ⟨_, _, .knownImmutable, rfl⟩
  | markedType => exact ⟨_, _, .markedType, rfl⟩
  | enumeration => exact ⟨_, _, .enumeration, rfl⟩
  | override => exact ⟨_, _, .override, rfl⟩
  | invalid typeName => exact ⟨_, _, .invalid typeName, rfl⟩

/-- The label of a class is not the beginning of the label of another one, unless both are invalid. -/
theorem FieldClass.eq_of_shown_append {color : Bool} {c c' : FieldClass} {s s' : String}
    (hn : ∀ name name', c = .invalid name → c' = .invalid name' → name = name')
    (h : c.shown color ++ s = c'.shown color ++ s') : c = c' := by
  -- the labels differ in their first letters, or in the codes of their looks
  have hc := congrArg (fun x => x.toList.take 6) h
  cases c <;> cases c' <;>
    first
    | rfl
    | rw [hn _ _ rfl rfl]
    | cases color <;>
        simp [shown, isOk, text, label, styled, Look.codes, resumed, String.toList_append] at hc

/-- Only an invalid class is labelled as invalid. -/
theorem FieldClass.shown_eq_invalid_iff {color : Bool} {c : FieldClass} {name : String} :
    c.shown color = styled color .boldRed ("invalid (" ++ name ++ ")") ↔ c = .invalid name := by
  constructor
  · intro h
    cases c with
    | invalid name' =>
      have hn := styled_inj.1 h
      rw [text, String.append_left_inj, String.append_right_inj] at hn
      rw [hn]
    | _ =>
      -- the other labels begin otherwise
      have hc := congrArg (fun s => s.toList.take 3) h
      cases color <;> simp [shown, isOk, text, label, styled, Look.codes, String.toList_append] at hc
  · rintro rfl
    rfl

/-! ### What is printed -/

/-- The diagnostics that a page tells of: those of a marked type. -/
def Verifier.told (v : Verifier) (g : TypeGraph) (t : TypeDeclaration) : List Diagnostic :=
  if t.marked then v.verifyElement g (.type t) else []

section

variable {color : Bool} {v v' : Verifier} {g g' : TypeGraph} {t : TypeDeclaration}
  {fs : List FieldDeclaration}

theorem fieldLines_join (fs : List FieldDeclaration) :
    FieldLines (fun f => (v.classify g f).shown color) fs
      (String.join (fs.map (explainField color v g))) := by
  induction fs with
  | nil => exact .nil
  | cons f fs ih =>
    rw [List.map_cons, String.join_cons]
    exact ih.cons

theorem fieldsText_explainFields (t : TypeDeclaration) :
    FieldsText color (fun f => (v.classify g f).shown color) t.fields (explainFields color v g t) := by
  have h : FieldLines (fun f => (v.classify g f).shown color) t.fields _ := fieldLines_join t.fields
  rw [explainFields]
  cases hf : t.fields with
  | nil => exact .none
  | cons f fs =>
    rw [hf] at h
    exact .some h

theorem verdict_cons (d : Diagnostic) (ds : List Diagnostic) :
    verdict color (d :: ds) = styled color .bold "Diagnostics:" ++ "\n" ++
      String.join ((d :: ds).map (Diagnostic.line color)) := rfl

theorem endingText_verdict (ds : List Diagnostic) :
    EndingText color true ds ("\n" ++ verdict color ds) := by
  cases ds with
  | nil =>
    rw [verdict, ← String.append_assoc]
    exact .satisfied
  | cons d ds =>
    have h := diagnosticLines_join color (fun _ => "") (d :: ds)
    simp only [String.append_empty] at h
    simpa only [verdict_cons, String.append_assoc] using EndingText.broken h

theorem endingText_explainVerdict (t : TypeDeclaration) :
    EndingText color t.marked (v.told g t) (explainVerdict color v g t) := by
  rw [explainVerdict, Verifier.told]
  cases t.marked with
  | false => exact .unmarked
  | true => exact endingText_verdict _

/-- Fields whose lines begin two texts alike are classified alike. -/
theorem eq_of_fieldLines_append {s s' : String}
    (h : String.join (fs.map (explainField color v g)) ++ s =
      String.join (fs.map (explainField color v' g')) ++ s') :
    (∀ f ∈ fs, v.classify g f = v'.classify g' f) ∧ s = s' := by
  induction fs with
  | nil => exact ⟨List.forall_mem_nil _, by simpa using h⟩
  | cons f fs ih =>
    rw [List.map_cons, List.map_cons, String.join_cons, String.join_cons, explainField,
      explainField] at h
    simp only [String.append_assoc, String.append_right_inj] at h
    have hc : v.classify g f = v'.classify g' f := by
      refine FieldClass.eq_of_shown_append ?_ h
      intro name name' hn hn'
      have ht := type_of_classify_eq_invalid hn
      rw [type_of_classify_eq_invalid hn'] at ht
      cases ht
      rfl
    rw [hc] at h
    simp only [String.append_right_inj] at h
    obtain ⟨hcs, hs⟩ := ih h
    exact ⟨List.forall_mem_cons.2 ⟨hc, hcs⟩, hs⟩

/-- What a type breaks depends on how its fields are classified, and on nothing else of the graph. -/
theorem typeViolations_congr {r r' : Registry}
    (h : ∀ f ∈ t.fields, classify g r f = classify g' r' f) :
    typeViolations g r t = typeViolations g' r' t := by
  have hf : t.fields.flatMap (fieldViolations g r t) = t.fields.flatMap (fieldViolations g' r' t) := by
    refine List.flatMap_congr fun f hf => ?_
    rw [fieldViolations, fieldViolations, h f hf]
  rw [typeViolations, typeViolations, classViolations, classViolations, hf]

theorem explainFields_congr (h : ∀ f ∈ t.fields, v.classify g f = v'.classify g' f) :
    explainFields color v g t = explainFields color v' g' t := by
  have hf : t.fields.map (explainField color v g) = t.fields.map (explainField color v' g') := by
    refine List.map_congr_left fun f hf => ?_
    rw [explainField, explainField, h f hf]
  rw [explainFields, explainFields, hf]

theorem eq_of_explainFields_append {s s' : String}
    (h : explainFields color v g t ++ s = explainFields color v' g' t ++ s') :
    (∀ f ∈ t.fields, v.classify g f = v'.classify g' f) ∧ s = s' := by
  rw [explainFields, explainFields] at h
  split at h
  · rename_i he
    rw [List.isEmpty_iff.1 he]
    exact ⟨List.forall_mem_nil _, (String.append_right_inj _).1 h⟩
  · simp only [String.append_assoc, String.append_right_inj] at h
    exact eq_of_fieldLines_append h

/-- Where the same is broken, the verdict tells how much it weighs. -/
theorem eq_of_verdict {xs : List Violation} {table table' : Severities}
    (h : verdict color (xs.map (·.diagnose table)) = verdict color (xs.map (·.diagnose table'))) :
    xs.map (·.diagnose table) = xs.map (·.diagnose table') := by
  cases xs with
  | nil => rfl
  | cons x xs =>
    rw [List.map_cons, List.map_cons, verdict_cons, verdict_cons, String.append_right_inj] at h
    have hs : ∀ y ∈ x :: xs, (y.diagnose table).severity = (y.diagnose table').severity :=
      eq_of_join_lines (fun _ => ⟨rfl, rfl⟩) h
    refine List.map_congr_left fun y hy => ?_
    have hy : y.rule.severity table y.rule.defaultSeverity = _ := hs y hy
    rw [Violation.diagnose, hy]
    rfl

/-- Where the fields are classified alike, pages that end alike tell of the same diagnostics. -/
theorem told_eq_of_explainVerdict (hc : ∀ f ∈ t.fields, v.classify g f = v'.classify g' f)
    (h : explainVerdict color v g t = explainVerdict color v' g' t) : v.told g t = v'.told g' t := by
  rw [explainVerdict, explainVerdict] at h
  rw [Verifier.told, Verifier.told]
  cases hm : t.marked with
  | false => rfl
  | true =>
    simp only [hm, if_true, String.append_right_inj, Verifier.verifyElement, elementViolations,
      typeViolations_congr hc] at h ⊢
    exact eq_of_verdict h

theorem explainVerdict_congr (h : v.told g t = v'.told g' t) :
    explainVerdict color v g t = explainVerdict color v' g' t := by
  rw [Verifier.told, Verifier.told] at h
  rw [explainVerdict, explainVerdict]
  split
  · rename_i hm
    rw [if_pos hm, if_pos hm] at h
    rw [h]
  · rfl

end

/-- Pages on one type are the same exactly if they label its fields alike and tell of the same
    diagnostics. -/
theorem explain_eq_iff (color : Bool) (c c' : Config) (g g' : TypeGraph) (t : TypeDeclaration) :
    explain color c g t = explain color c' g' t ↔
      (∀ f ∈ t.fields, (Verifier.ofConfig c).classify g f = (Verifier.ofConfig c').classify g' f) ∧
      (Verifier.ofConfig c).told g t = (Verifier.ofConfig c').told g' t := by
  rw [explain, explain]
  constructor
  · intro h
    simp only [String.append_assoc, String.append_right_inj] at h
    obtain ⟨hc, hv⟩ := eq_of_explainFields_append h
    simp only [← String.append_assoc, String.append_left_inj] at hv
    exact ⟨hc, told_eq_of_explainVerdict hc hv⟩
  · rintro ⟨hc, hd⟩
    rw [explainFields_congr hc, explainVerdict_congr hd]

end Immutability
