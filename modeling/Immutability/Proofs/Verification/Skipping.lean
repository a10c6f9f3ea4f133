import Immutability.Proofs.Graph.Union
import Immutability.Proofs.Verification.Counts
import Immutability.Proofs.Verification.Exactness

/-! Verifying without some types.

    The patterns of a verifier say which types it leaves out. They are asked for the owner of an
    element, so the marked elements of a type are all checked or all skipped. What is left out is
    counted all the same, and its declarations still speak for the types of fields: the patterns
    filter the diagnostics of a run that leaves out nothing, and change nothing else. -/

namespace Immutability

/-- More patterns match more names. -/
theorem skipped_of_subset {patterns more : List String} (h : patterns ⊆ more) {name : String}
    (hs : skipped patterns name = true) : skipped more name = true := by
  rw [skipped, List.any_eq_true] at hs ⊢
  obtain ⟨pattern, hp, hm⟩ := hs
  exact ⟨pattern, h hp, hm⟩

namespace Verifier

variable (v : Verifier) (g : TypeGraph)

/-- The verifier that leaves out no type. -/
def thorough : Verifier := { v with skipTypes := [] }

theorem checks_eq (t : TypeDeclaration) :
    v.checks t = (v.thorough.checks t && !v.skips t.name) := by
  have ht : v.thorough.checks t = (t.marked && !false) := rfl
  rw [ht, checks, Bool.not_false, Bool.and_true]

/-- A type that is not skipped reports what it would report if no type were left out. -/
theorem violationsIn_eq (t : TypeDeclaration) :
    v.violationsIn g t = if v.skips t.name then [] else v.thorough.violationsIn g t := by
  rw [violationsIn, checks_eq, violationsIn]
  cases v.skips t.name with
  | true => simp
  | false =>
    rw [Bool.not_false, Bool.and_true]
    rfl

/-- The patterns filter the violations by the names of their types. -/
theorem violations_eq_filter :
    v.violations g = (v.thorough.violations g).filter fun x => !v.skips x.owner.name := by
  rw [violations_eq_flatMap, violations_eq_flatMap, List.filter_flatMap]
  refine List.flatMap_congr ?_
  intro t _
  rw [violationsIn_eq]
  cases hs : v.skips t.name with
  | true =>
    refine (List.filter_eq_nil_iff.2 ?_).symm
    intro x hx
    simp [owner_of_mem_violationsIn hx, hs]
  | false =>
    refine (List.filter_eq_self.2 ?_).symm
    intro x hx
    simp [owner_of_mem_violationsIn hx, hs]

/-- More patterns take away violations and add none. -/
theorem violations_sublist {more : List String} (h : v.skipTypes ⊆ more) :
    ({ v with skipTypes := more }.violations g).Sublist (v.violations g) := by
  rw [violations_eq_filter, v.violations_eq_filter]
  refine List.monotone_filter_right _ ?_
  intro x hx
  rw [Bool.not_eq_true', ← Bool.not_eq_true] at hx ⊢
  exact fun hs => hx (skipped_of_subset h hs)

theorem flatMap_noted (es : List Element) :
    es.flatMap v.noted = (es.filter fun e => v.skips e.owner.name).map Element.name := by
  induction es with
  | nil => rfl
  | cons e es ih =>
    rw [List.flatMap_cons, ih, noted, List.filter_cons]
    split <;> rfl

/-- Skipped or not, an element is counted. -/
theorem verify_elementsChecked_eq :
    (v.verify g).elementsChecked = g.types.toList.countP (·.marked) +
      (g.types.toList.map fun t => t.markedFields.length).sum := by
  rw [verify_elementsChecked]
  simp only [length_markedElements, List.sum_map_add, List.sum_map_ite]
  simp [List.countP_eq_length_filter]

end Verifier

theorem TypeGraph.vouches_of_mem {g : TypeGraph} {t : TypeDeclaration} (ht : t ∈ g.types)
    (hs : t.marked = true ∨ t.kind = .enumKind) : g.vouches t.name = true :=
  vouches_iff.2 ⟨t, ht, rfl, hs⟩

/-- A declaration that speaks for its type does so whether it is left out or not. -/
theorem TypeGraph.WellFormed.classify_isOk {g : TypeGraph} (h : g.WellFormed) (r : Registry)
    {t : TypeDeclaration} (ht : t ∈ g.types) (hs : t.marked = true ∨ t.kind = .enumKind)
    {f : FieldDeclaration} (hf : f.type = .named t.name) : (classify g r f).isOk = true := by
  cases hc : classify g r f with
  | invalid name =>
    obtain ⟨-, hn, -, hv⟩ := (h.classify_eq_invalid r f name).1 hc
    rw [hf] at hn
    cases hn
    rw [TypeGraph.vouches_of_mem ht hs] at hv
    cases hv
  | _ => rfl

/-- After every history of a graph, a verifier reports in the same order and unchanged what it would
    report if it left out no type, less what belongs to the types that its patterns match. It notes
    the marked elements of these types, of each either all or none. Every marked type and every marked
    field is counted, and of the types that no pattern matches the marked classes with their fields.
    More patterns never add a diagnostic. A declaration that is marked or an enumeration speaks for
    the types of fields even if a pattern matches it. -/
theorem verify_skipping (history : List Operation) (v : Verifier) :
    let g := TypeGraph.run history
    let all : Verifier := { v with skipTypes := [] }
    let matched (t : TypeDeclaration) : Bool := skipped v.skipTypes t.name
    -- diagnostics
    (all.verify g).diagnostics = (all.violations g).map (·.diagnose v.severities) ∧
    (v.verify g).diagnostics =
      ((all.violations g).filter fun x => !matched x.owner).map (·.diagnose v.severities) ∧
    -- what is skipped
    (all.verify g).skipped = [] ∧
    (v.verify g).skipped = (g.markedElements.filter fun e => matched e.owner).map Element.name ∧
    (v.verify g).skipped = (g.types.toList.flatMap fun t =>
      if matched t then t.markedElements.map Element.name else []) ∧
    -- counts
    (v.verify g).elementsChecked = (all.verify g).elementsChecked ∧
    (v.verify g).elementsChecked = g.types.toList.countP (·.marked) +
      (g.types.toList.map fun t => t.markedFields.length).sum ∧
    (v.verify g).classesVerified = g.types.toList.countP (fun t =>
      t.marked && !matched t && decide (t.kind = .classKind)) ∧
    (v.verify g).fieldsClassified = ((g.types.toList.filter fun t =>
      t.marked && !matched t && decide (t.kind = .classKind)).map fun t => t.fields.length).sum ∧
    -- more patterns
    (∀ more, v.skipTypes ⊆ more →
      ({ v with skipTypes := more }.verify g).diagnostics.Sublist (v.verify g).diagnostics) ∧
    -- trust
    ∀ t ∈ g.types, t.marked = true ∨ t.kind = .enumKind → ∀ f : FieldDeclaration,
      f.type = .named t.name → (v.classify g f).isOk = true ∧
        ∀ u name, .fieldInvalidType u f name ∉ v.violations g := by
  intro g all matched
  have h : g.WellFormed := TypeGraph.wellFormed_run history
  refine ⟨all.verify_diagnostics_eq_map g, ?_, ?_, ?_, ?_, ?_, ?_, ?_, ?_, ?_, ?_⟩
  · rw [v.verify_diagnostics_eq_map g, v.violations_eq_filter g]
    rfl
  · rw [all.verify_skipped g, List.flatMap_eq_nil_iff]
    intro t _
    rfl
  · rw [v.verify_eq_total g]
    exact v.flatMap_noted g.markedElements
  · exact v.verify_skipped g
  · rw [v.verify_elementsChecked, all.verify_elementsChecked]
  · exact v.verify_elementsChecked_eq g
  · exact v.verify_classesVerified g
  · exact v.verify_fieldsClassified g
  · intro more hm
    rw [v.verify_diagnostics_eq_map g, Verifier.verify_diagnostics_eq_map]
    exact (v.violations_sublist g hm).map _
  · intro t ht hs f hf
    refine ⟨h.classify_isOk v.registry ht hs hf, ?_⟩
    intro u name hx
    obtain ⟨-, -, -, -, -, hn, -, hv⟩ := (mem_violations h).1 hx
    rw [hf] at hn
    cases hn
    rw [TypeGraph.vouches_of_mem ht hs] at hv
    cases hv

/-- A class that holds a skipped one: the skipped class is noted with its marked field, and the field
    of its type is trusted all the same. -/
theorem verify_skipping_node :
    let holder : TypeDeclaration :=
      { name := "a.Holder", kind := .classKind, marked := true
        fields := [{ name := "node", type := .named "a.Node" }] }
    let node : TypeDeclaration :=
      { name := "a.Node", kind := .classKind, marked := true
        fields := [{ name := "next", type := .primitive "int", marked := true }] }
    let g := TypeGraph.run [.declarations [holder, node]]
    let v : Verifier := ⟨.empty, .empty, ["a.Node"]⟩
    g.types.toList = [holder.stamped, node.stamped] ∧
      (v.verify g).skipped = ["a.Node", "a.Node.next"] ∧ (v.verify g).elementsChecked = 3 ∧
      (v.verify g).classesVerified = 1 ∧ (v.verify g).fieldsClassified = 1 ∧
      ({ v with skipTypes := ["a.Node", "a.H*"] }.verify g).diagnostics.Sublist
        (v.verify g).diagnostics ∧
      ∀ f : FieldDeclaration, f.type = .named "a.Node" → (v.classify g f).isOk = true := by
  intro holder node g v
  have ha : holder.Acceptable ∧ node.Acceptable := by decide +revert
  have hg : g.types.toList = [holder.stamped, node.stamped] :=
    TypeGraph.toList_types_run_declarations (by simpa using ha) (by simp [holder, node])
  have hn : node.stamped ∈ g.types := Array.mem_toList_iff.1 (by simp [hg])
  obtain ⟨-, -, -, -, hs, -, he, hc, hf, hm, ht⟩ :=
    verify_skipping [.declarations [holder, node]] v
  refine ⟨hg, ?_, ?_, ?_, ?_, hm _ (by simp [v]), fun f hf => (ht _ hn (Or.inl rfl) f hf).1⟩
  · rw [hs, hg]
    rfl
  · rw [he, hg]
    rfl
  · rw [hc, hg]
    rfl
  · rw [hf, hg]
    rfl

end Immutability
