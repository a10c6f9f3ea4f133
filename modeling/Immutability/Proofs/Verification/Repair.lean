import Immutability.Proofs.Graph.Union
import Immutability.Proofs.Verification.Counts
import Immutability.Proofs.Verification.Exactness
import Immutability.Proofs.Verification.Settling

/-! Putting one thing right in a type.

    Every rule is checked for every field, whatever else is wrong there, so one repair takes away one
    violation: the one about what has been repaired (`Repair.subject`). The others stay in their
    order. They are about the type as it is now, which shows in nothing but the modifiers that are
    given as evidence. -/

namespace Immutability

/-! ### What a violation is about -/

/-- What a violation is about: a type, one of its fields if the rule is one for fields, and the
    rule. -/
structure Subject where
  type : String
  field : Option String
  rule : Rule
  deriving DecidableEq

namespace Violation

/-- The field that breaks the rule, if the rule is one for fields. -/
def field? : Violation → Option FieldDeclaration
  | wrongKind _ | notFinal _ => none
  | fieldNotFinal _ f | fieldNotPrivate _ f | fieldInvalidType _ f _ => some f

/-- What the violation is about. -/
def subject (x : Violation) : Subject := ⟨x.owner.name, x.field?.map (·.name), x.rule⟩

/-- The same violation of a type as it is now, with its fields as they are now. -/
def revised (t : TypeDeclaration) (now : FieldDeclaration → FieldDeclaration) :
    Violation → Violation
  | wrongKind _ => wrongKind t
  | notFinal _ => notFinal t
  | fieldNotFinal _ f => fieldNotFinal t (now f)
  | fieldNotPrivate _ f => fieldNotPrivate t (now f)
  | fieldInvalidType _ f name => fieldInvalidType t (now f) name

/-- In a well-formed graph violations that hold are told apart by what they are about. -/
theorem eq_of_subject_eq {g : TypeGraph} (h : g.WellFormed) {r : Registry} {x y : Violation}
    (hxt : x.owner ∈ g.types) (hyt : y.owner ∈ g.types) (hx : x.Holds g r) (hy : y.Holds g r)
    (he : x.subject = y.subject) : x = y := by
  have hn : x.owner.name = y.owner.name := congrArg Subject.type he
  have hf : x.field?.map (·.name) = y.field?.map (·.name) := congrArg Subject.field he
  have hr : x.rule = y.rule := congrArg Subject.rule he
  cases x <;> cases y <;> cases hr
  case wrongKind.wrongKind t u => exact congrArg _ (h.eq_of_name_eq hxt hyt hn)
  case notFinal.notFinal t u => exact congrArg _ (h.eq_of_name_eq hxt hyt hn)
  case fieldNotFinal.fieldNotFinal t f u f' =>
    obtain ⟨rfl, rfl⟩ := h.eq_of_names_eq hxt hyt hx.2.1 hy.2.1 hn (Option.some.inj hf)
    rfl
  case fieldNotPrivate.fieldNotPrivate t f u f' =>
    obtain ⟨rfl, rfl⟩ := h.eq_of_names_eq hxt hyt hx.2.1 hy.2.1 hn (Option.some.inj hf)
    rfl
  case fieldInvalidType.fieldInvalidType t f name u f' name' =>
    obtain ⟨rfl, rfl⟩ := h.eq_of_names_eq hxt hyt hx.2.1 hy.2.1 hn (Option.some.inj hf)
    -- the name of the type is that of the field's type
    have hty : TypeRef.named name = .named name' := hx.2.2.2.1.symm.trans hy.2.2.2.1
    cases hty
    rfl

end Violation

theorem FieldClass.violations_eq_nil {c : FieldClass} (h : ∀ name, c ≠ .invalid name)
    {t : TypeDeclaration} {f : FieldDeclaration} : c.violations t f = [] := by
  cases c with
  | invalid name => exact absurd rfl (h name)
  | _ => rfl

/-! ### Repairs -/

/-- What can be put right in a field. -/
inductive FieldRepair where | makeFinal | makePrivate | mark
  deriving DecidableEq

namespace FieldRepair

/-- The rule that the field keeps from now on. -/
def rule : FieldRepair → Rule
  | makeFinal => .fieldNotFinal
  | makePrivate => .fieldNotPrivate
  | mark => .fieldInvalidType

/-- The field put right. -/
def apply : FieldRepair → FieldDeclaration → FieldDeclaration
  | makeFinal, f => { f with modifiers := f.modifiers.insert .final }
  | makePrivate, f => { f with modifiers := f.modifiers.insert .privateAccess }
  | mark, f => { f with marked := true }

variable (m : FieldRepair) (f : FieldDeclaration)

@[simp] theorem name_apply : (m.apply f).name = f.name := by cases m <;> rfl

@[simp] theorem owner_apply : (m.apply f).owner = f.owner := by cases m <;> rfl

@[simp] theorem type_apply : (m.apply f).type = f.type := by cases m <;> rfl

@[simp] theorem line_apply : (m.apply f).line = f.line := by cases m <;> rfl

end FieldRepair

/-- One thing put right in a type: a class becomes final, or something in one of the fields is put
    right. -/
inductive Repair (t : TypeDeclaration) where
  | makeFinal (hk : t.kind = .classKind)
  | field (f : FieldDeclaration) (hf : f ∈ t.fields) (m : FieldRepair)

namespace Repair

variable {t : TypeDeclaration} (r : Repair t)

/-- What the type does not break from now on. -/
def subject : Subject :=
  match r with
  | makeFinal _ => ⟨t.name, none, .notFinal⟩
  | field f _ m => ⟨t.name, some f.name, m.rule⟩

/-- A field after the repair. -/
def onField (f : FieldDeclaration) : FieldDeclaration :=
  match r with
  | makeFinal _ => f
  | field f' _ m => if f.name = f'.name then m.apply f else f

/-- The modifiers of the type after the repair. -/
def modifiers : Modifiers :=
  match r with
  | makeFinal _ => t.modifiers.insert .final
  | field _ _ _ => t.modifiers

/-- The type after the repair. -/
def result : TypeDeclaration :=
  { t with modifiers := r.modifiers, fields := t.fields.map r.onField }

/-- A field stays as it is or is put right. -/
theorem onField_eq (f : FieldDeclaration) :
    r.onField f = f ∨ ∃ m : FieldRepair, r.onField f = m.apply f := by
  cases r with
  | makeFinal hk => exact Or.inl rfl
  | field f' hf m =>
    by_cases hn : f.name = f'.name
    · exact Or.inr ⟨m, if_pos hn⟩
    · exact Or.inl (if_neg hn)

@[simp] theorem name_onField (f : FieldDeclaration) : (r.onField f).name = f.name := by
  rcases r.onField_eq f with h | ⟨m, h⟩ <;> simp [h]

@[simp] theorem owner_onField (f : FieldDeclaration) : (r.onField f).owner = f.owner := by
  rcases r.onField_eq f with h | ⟨m, h⟩ <;> simp [h]

@[simp] theorem type_onField (f : FieldDeclaration) : (r.onField f).type = f.type := by
  rcases r.onField_eq f with h | ⟨m, h⟩ <;> simp [h]

@[simp] theorem line_onField (f : FieldDeclaration) : (r.onField f).line = f.line := by
  rcases r.onField_eq f with h | ⟨m, h⟩ <;> simp [h]

/-- A field of another name stays as it is. -/
theorem onField_of_ne {f : FieldDeclaration} (h : r.subject.field ≠ some f.name) :
    r.onField f = f := by
  cases r with
  | makeFinal _ => rfl
  | field f' hf m => exact if_neg fun he => h (congrArg some he.symm)

theorem map_name_fields_result : r.result.fields.map (·.name) = t.fields.map (·.name) := by
  simp [result, Function.comp_def]

/-- A repaired type owns its fields. -/
theorem owned_result (h : t.Owned) : r.result.Owned := by
  refine ⟨?_, ?_⟩
  · rw [map_name_fields_result]
    exact h.distinct
  · intro f hf
    obtain ⟨f', hf', rfl⟩ := List.mem_map.1 hf
    rw [owner_onField]
    exact h.owner_eq f' hf'

/-! ### What a repair changes in a field -/

theorem isFinal_onField (f : FieldDeclaration) : (r.onField f).isFinal =
    (f.isFinal || decide (r.subject = ⟨t.name, some f.name, .fieldNotFinal⟩)) := by
  cases r with
  | makeFinal hk => simp [onField, subject]
  | field f' hf m =>
    by_cases hn : f.name = f'.name
    · cases m <;> simp [onField, subject, hn, FieldRepair.apply, FieldRepair.rule,
        FieldDeclaration.isFinal, Modifiers.insert]
    · simp [onField, subject, hn, Ne.symm hn]

theorem isPrivate_onField (f : FieldDeclaration) : (r.onField f).isPrivate =
    (f.isPrivate || decide (r.subject = ⟨t.name, some f.name, .fieldNotPrivate⟩)) := by
  cases r with
  | makeFinal hk => simp [onField, subject]
  | field f' hf m =>
    by_cases hn : f.name = f'.name
    · cases m <;> simp [onField, subject, hn, FieldRepair.apply, FieldRepair.rule,
        FieldDeclaration.isPrivate, Modifiers.insert]
    · simp [onField, subject, hn, Ne.symm hn]

theorem marked_onField (f : FieldDeclaration) : (r.onField f).marked =
    (f.marked || decide (r.subject = ⟨t.name, some f.name, .fieldInvalidType⟩)) := by
  cases r with
  | makeFinal hk => simp [onField, subject]
  | field f' hf m =>
    by_cases hn : f.name = f'.name
    · cases m <;> simp [onField, subject, hn, FieldRepair.apply, FieldRepair.rule]
    · simp [onField, subject, hn, Ne.symm hn]

/-- A field is invalid if it was invalid before and has not been given the marker. -/
theorem classify_onField {g : TypeGraph} (h : g.WellFormed) (reg : Registry)
    (f : FieldDeclaration) (name : String) :
    classify g reg (r.onField f) = .invalid name ↔
      classify g reg f = .invalid name ∧ r.subject ≠ ⟨t.name, some f.name, .fieldInvalidType⟩ := by
  rw [h.classify_eq_invalid, h.classify_eq_invalid, marked_onField, type_onField,
    Bool.or_eq_false_iff, decide_eq_false_iff_not]
  tauto

/-! ### What is left of the violations -/

/-- The violations that stay, as they are after the repair. -/
def rest (xs : List Violation) : List Violation :=
  (xs.filter fun x => x.subject != r.subject).map (Violation.revised r.result r.onField)

theorem rest_append (xs ys : List Violation) : r.rest (xs ++ ys) = r.rest xs ++ r.rest ys := by
  rw [rest, List.filter_append, List.map_append]
  rfl

theorem rest_singleton (x : Violation) :
    r.rest [x] = if r.subject = x.subject then [] else [x.revised r.result r.onField] := by
  rw [rest, List.filter_singleton]
  by_cases h : r.subject = x.subject
  · rw [if_pos h, h, bne_self_eq_false]
    rfl
  · rw [if_neg h, bne_iff_ne.2 (Ne.symm h)]
    rfl

theorem rest_flatMap {α : Type} (f : α → List Violation) (l : List α) :
    r.rest (l.flatMap f) = l.flatMap fun a => r.rest (f a) := by
  rw [rest, List.filter_flatMap, List.map_flatMap]
  rfl

theorem violations_classify_onField {g : TypeGraph} (h : g.WellFormed) (reg : Registry)
    (f : FieldDeclaration) :
    (classify g reg (r.onField f)).violations r.result (r.onField f) =
      r.rest ((classify g reg f).violations t f) := by
  have hi := r.classify_onField h reg f
  cases hc : classify g reg f with
  | invalid name =>
    simp only [FieldClass.violations, rest_singleton]
    by_cases hs : r.subject = (Violation.fieldInvalidType t f name).subject
    · rw [if_pos hs]
      refine FieldClass.violations_eq_nil ?_
      intro n hn
      exact ((hi n).1 hn).2 hs
    · rw [if_neg hs, (hi name).2 ⟨hc, hs⟩]
      rfl
  | _ =>
    refine FieldClass.violations_eq_nil ?_
    intro n hn
    have hn := ((hi n).1 hn).1
    rw [hc] at hn
    cases hn

/-- The rules are checked one by one, so a field loses the violation that is repaired in it. -/
theorem fieldViolations_onField {g : TypeGraph} (h : g.WellFormed) (reg : Registry)
    (f : FieldDeclaration) :
    fieldViolations g reg r.result (r.onField f) = r.rest (fieldViolations g reg t f) := by
  rw [fieldViolations_eq, fieldViolations_eq, rest_append, rest_append,
    violations_classify_onField r h, isFinal_onField, isPrivate_onField]
  congr 2
  · cases f.isFinal with
    | true => rfl
    | false =>
      simp only [Bool.false_or, decide_eq_true_eq, Bool.false_eq_true, if_false, rest_singleton]
      rfl
  · cases f.isPrivate with
    | true => rfl
    | false =>
      simp only [Bool.false_or, decide_eq_true_eq, Bool.false_eq_true, if_false, rest_singleton]
      rfl

theorem isFinal_result : r.result.isFinal =
    (t.isFinal || decide (r.subject = ⟨t.name, none, .notFinal⟩)) := by
  cases r with
  | makeFinal hk => simp [result, modifiers, subject, TypeDeclaration.isFinal, Modifiers.insert]
  | field f hf m => simp [result, modifiers, subject, TypeDeclaration.isFinal]

theorem classViolations_result {g : TypeGraph} (h : g.WellFormed) (reg : Registry) :
    classViolations g reg r.result = r.rest (classViolations g reg t) := by
  rw [classViolations, classViolations, rest_append, rest_flatMap, isFinal_result]
  congr 1
  · cases t.isFinal with
    | true => rfl
    | false =>
      simp only [Bool.false_or, decide_eq_true_eq, Bool.false_eq_true, if_false, rest_singleton]
      rfl
  · simp only [result, List.flatMap_map]
    refine List.flatMap_congr ?_
    intro f _
    exact r.fieldViolations_onField h reg f

/-- A type loses the violation that is repaired in it. -/
theorem typeViolations_result {g : TypeGraph} (h : g.WellFormed) (reg : Registry) :
    typeViolations g reg r.result = r.rest (typeViolations g reg t) := by
  have hk : r.result.kind = t.kind := rfl
  have hw : r.rest [.wrongKind t] = [.wrongKind r.result] := by
    rw [rest_singleton, if_neg]
    · rfl
    · cases r with
      | makeFinal hk => simp [subject, Violation.subject, Violation.rule]
      | field f hf m => simp [subject, Violation.subject, Violation.field?]
  unfold typeViolations
  rw [hk]
  cases t.kind with
  | classKind => exact r.classViolations_result h reg
  | fieldKind => rfl
  | _ => exact hw.symm

/-! ### What a violation that stays looks like -/

/-- It is about the same. -/
theorem subject_revised {x : Violation} (hx : x.owner = t) :
    (x.revised r.result r.onField).subject = x.subject := by
  cases x <;> simp only [Violation.owner] at hx <;> subst hx <;>
    simp [Violation.revised, Violation.subject, Violation.owner, Violation.field?, Violation.rule,
      result]

/-- It is reported as before, except for the evidence. -/
theorem diagnose_revised {x : Violation} (hx : x.owner = t) (s : Severities) :
    (x.revised r.result r.onField).diagnose s =
      { x.diagnose s with actual := some (x.revised r.result r.onField).actual } := by
  cases x <;> simp only [Violation.owner] at hx <;> subst hx <;>
    simp [Violation.revised, Violation.diagnose, Violation.rule, Violation.message,
      Violation.location, Violation.fieldLocation, Element.location, Violation.expected, result]

/-- The evidence is the same, too, unless it consists of the modifiers of the repaired field. -/
theorem actual_revised {x : Violation} (hx : x.owner = t) (hs : x.subject ≠ r.subject) :
    (x.revised r.result r.onField).actual = x.actual ∨
      x.subject.field = r.subject.field ∧ (x.rule = .fieldNotFinal ∨ x.rule = .fieldNotPrivate) := by
  subst hx
  cases x with
  | wrongKind t => exact Or.inl rfl
  | notFinal t =>
    cases r with
    | makeFinal hk => exact absurd rfl hs
    | field f hf m => exact Or.inl rfl
  | fieldNotFinal t f =>
    by_cases hf : r.subject.field = some f.name
    · exact Or.inr ⟨hf.symm, Or.inl rfl⟩
    · rw [Violation.revised, r.onField_of_ne hf]
      exact Or.inl rfl
  | fieldNotPrivate t f =>
    by_cases hf : r.subject.field = some f.name
    · exact Or.inr ⟨hf.symm, Or.inr rfl⟩
    · rw [Violation.revised, r.onField_of_ne hf]
      exact Or.inl rfl
  | fieldInvalidType t f name => exact Or.inl rfl

theorem map_subject_rest {xs : List Violation} (hx : ∀ x ∈ xs, x.owner = t) :
    (r.rest xs).map (·.subject) = (xs.map (·.subject)).filter (· != r.subject) := by
  rw [rest, List.map_map, List.filter_map]
  refine List.map_congr_left ?_
  intro x hm
  exact r.subject_revised (hx x (List.mem_filter.1 hm).1)

/-! ### Marked fields -/

/-- The field that gets the marker and has been without it. -/
def newlyMarked : Option FieldDeclaration :=
  match r with
  | field f _ .mark => if f.marked then none else some f
  | _ => none

theorem newlyMarked_eq_some {f : FieldDeclaration} (h : r.newlyMarked = some f) :
    ∃ hf, r = field f hf .mark ∧ f.marked = false := by
  unfold newlyMarked at h
  split at h
  · split at h
    · cases h
    · rename_i hm
      cases h
      exact ⟨_, rfl, Bool.eq_false_iff.2 hm⟩
  · cases h

theorem marked_onField_of_newlyMarked (hn : (t.fields.map (·.name)).Nodup)
    (h : r.newlyMarked = none) {f : FieldDeclaration} (hf : f ∈ t.fields) :
    (r.onField f).marked = f.marked := by
  rw [marked_onField]
  by_cases hs : r.subject = ⟨t.name, some f.name, .fieldInvalidType⟩
  · -- the repair is to mark this field, which has been marked before
    have hm : f.marked = true := by
      cases r with
      | makeFinal hk => cases congrArg Subject.field hs
      | field f' hf' m =>
        cases m with
        | mark =>
          have hname : f'.name = f.name := Option.some.inj (congrArg Subject.field hs)
          obtain rfl := List.inj_on_of_nodup_map hn hf' hf hname
          simpa [newlyMarked] using h
        | makeFinal => cases congrArg Subject.rule hs
        | makePrivate => cases congrArg Subject.rule hs
    rw [hm, Bool.true_or]
  · rw [decide_eq_false hs, Bool.or_false]

theorem map_qualifiedName_onField (fs : List FieldDeclaration) :
    (fs.map r.onField).map (·.qualifiedName) = fs.map (·.qualifiedName) := by
  simp [FieldDeclaration.qualifiedName, Function.comp_def]

theorem map_qualifiedName_markedFields : r.result.markedFields.map (·.qualifiedName) =
    (t.fields.filter fun f => (r.onField f).marked).map (·.qualifiedName) := by
  rw [TypeDeclaration.markedFields, result, List.filter_map, map_qualifiedName_onField]
  rfl

/-- Marking a field adds its name at its place. -/
theorem map_qualifiedName_mark (hn : (t.fields.map (·.name)).Nodup) {f : FieldDeclaration}
    {hf : f ∈ t.fields} (hm : f.marked = false) :
    ∃ xs ys, t.markedFields.map (·.qualifiedName) = xs ++ ys ∧
      (field f hf .mark).result.markedFields.map (·.qualifiedName) =
        xs ++ f.qualifiedName :: ys := by
  obtain ⟨fs, gs, ht⟩ := List.append_of_mem hf
  refine ⟨(fs.filter (·.marked)).map (·.qualifiedName),
    (gs.filter (·.marked)).map (·.qualifiedName), ?_, ?_⟩
  · rw [TypeDeclaration.markedFields, ht, List.filter_append, List.filter_cons, hm]
    simp
  · -- no other field has the name
    rw [ht, List.map_append, List.map_cons, List.nodup_middle, ← List.map_append] at hn
    have hne : ∀ f' ∈ fs ++ gs, ((field f hf .mark).onField f').marked = f'.marked := by
      intro f' hf'
      refine congrArg _ (onField_of_ne _ ?_)
      intro he
      exact (List.nodup_cons.1 hn).1 (List.mem_map.2 ⟨f', hf', (Option.some.inj he).symm⟩)
    have hs : ((field f hf .mark).onField f).marked = true := by simp [onField, FieldRepair.apply]
    rw [map_qualifiedName_markedFields, ht, List.filter_append, List.filter_cons, hs,
      List.filter_congr fun f' hf' => hne f' (List.mem_append_left _ hf'),
      List.filter_congr fun f' hf' => hne f' (List.mem_append_right _ hf')]
    simp

/-- The marked elements are the same as before and the field that has been marked. -/
theorem names_result (hn : (t.fields.map (·.name)).Nodup) :
    ∃ xs ys, t.markedElements.map Element.name = xs ++ ys ∧
      r.result.markedElements.map Element.name =
        xs ++ r.newlyMarked.toList.map (·.qualifiedName) ++ ys := by
  have hm : r.result.marked = t.marked := rfl
  have hr : r.result.name = t.name := rfl
  rw [Verifier.names_markedElements, Verifier.names_markedElements, hm, hr]
  cases hf : r.newlyMarked with
  | none =>
    refine ⟨_, [], (List.append_nil _).symm, ?_⟩
    rw [map_qualifiedName_markedFields, TypeDeclaration.markedFields,
      List.filter_congr fun f => r.marked_onField_of_newlyMarked hn hf]
    simp
  | some f =>
    obtain ⟨_, rfl, hfm⟩ := r.newlyMarked_eq_some hf
    obtain ⟨xs, ys, h, h'⟩ := map_qualifiedName_mark hn hfm
    refine ⟨(if t.marked then [t.name] else []) ++ xs, ys, ?_, ?_⟩
    · rw [h, List.append_assoc]
    · rw [h']
      simp

end Repair

end Immutability
