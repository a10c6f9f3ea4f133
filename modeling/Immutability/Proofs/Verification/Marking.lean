import Immutability.Proofs.Graph.Grouping
import Immutability.Proofs.Graph.Marking
import Immutability.Proofs.Verification.Counts
import Immutability.Proofs.Verification.Settling

/-! Verifying with one more marked type.

    The marker of a type acts in two ways: the type is visited, and the fields that refer to it are
    trusted, its own included. Skipping the type takes away the first effect and not the second. -/

namespace Immutability

namespace Verifier

variable {v : Verifier} {g : TypeGraph} {t : TypeDeclaration} {before after : List TypeDeclaration}

/-! ### What the marker adds -/

theorem block_of_unmarked (hm : t.marked = false) : v.block g t = [] := by
  simp [block, checks, hm]

theorem block_mark (v : Verifier) (g : TypeGraph) (t : TypeDeclaration) :
    v.block g t.mark = if v.skips t.name then [] else v.verifyElement g (.type t.mark) := by
  have hc : v.checks t.mark = !v.skips t.name := rfl
  rw [block, hc]
  cases v.skips t.name <;> rfl

theorem skippedIn_of_unmarked (hm : t.marked = false) :
    v.skippedIn t = if v.skips t.name then t.markedFields.map (·.qualifiedName) else [] := by
  rw [skippedIn, names_markedElements, hm]
  rfl

theorem skippedIn_mark (v : Verifier) (t : TypeDeclaration) :
    v.skippedIn t.mark =
      if v.skips t.name then t.name :: t.markedFields.map (·.qualifiedName) else [] := by
  rw [skippedIn, names_markedElements]
  rfl

theorem counted_mark (v : Verifier) (t : TypeDeclaration) :
    v.counted (.type t.mark) =
      if t.kind = .classKind ∧ v.skips t.name = false then (1, t.fields.length) else (0, 0) := by
  have hv : v.verifies t.mark = (!v.skips t.name && decide (t.kind = .classKind)) := rfl
  rw [v.counted_type rfl, hv]
  by_cases hk : t.kind = .classKind
  · cases v.skips t.name <;> simp [hk, TypeDeclaration.mark]
  · simp [hk]

/-- Marking a type adds it to the elements, and what it counts to the counts. -/
theorem counts_mark (v : Verifier) {g' : TypeGraph} (ht : g.types.toList = before ++ t :: after)
    (ht' : g'.types.toList = before ++ t.mark :: after) (hm : t.marked = false) :
    (v.verify g').elementsChecked = (v.verify g).elementsChecked + 1 ∧
    (v.verify g').classesVerified =
      (v.verify g).classesVerified + (v.counted (.type t.mark)).1 ∧
    (v.verify g').fieldsClassified =
      (v.verify g).fieldsClassified + (v.counted (.type t.mark)).2 := by
  have hv : v.verifies t = false := by simp [verifies, checks, hm]
  refine ⟨?_, ?_, ?_⟩
  · refine v.elementsChecked_replacing ht ht' 1 ?_
    have hf : t.mark.markedFields.length = t.markedFields.length := rfl
    have hm' : t.mark.marked = true := rfl
    rw [length_markedElements, length_markedElements, hm, hm', hf]
    simp [Nat.add_comm]
  · rw [v.verify_classesVerified, v.verify_classesVerified, ht, ht', v.counted_type rfl]
    simp only [List.countP_append, List.countP_cons, hv]
    split <;> simp
    omega
  · rw [v.verify_fieldsClassified, v.verify_fieldsClassified, ht, ht', v.counted_type rfl]
    simp only [List.filter_append, List.filter_cons, hv]
    split <;> simp [TypeDeclaration.mark]
    omega

end Verifier

/-- Let one more type of a graph with any history carry the marker; this is a graph with a history,
    too. Then the other types report in their places what they reported before, less the invalid
    types that are of the marked one. Unless the type is skipped, it reports at its place what it
    breaks in the marked graph, where it reported nothing before. One element more is checked, and
    if the type is a class that is not skipped, one class and its fields are added to the counts. If
    it is skipped, its name is noted before those of its marked fields. Skipped or not, the fields of
    its type are trusted, and other fields are classified as before. -/
theorem verify_marking (history : List Operation) (v : Verifier) {t : TypeDeclaration}
    {before after : List TypeDeclaration}
    (ht : (TypeGraph.run history).types.toList = before ++ t :: after) (hm : t.marked = false) :
    let g := TypeGraph.run history
    let g' := g.marking t.name
    -- the marked graph
    g'.types.toList = before ++ t.mark :: after ∧
    (∃ history', (TypeGraph.run history').Agrees g') ∧
    (∀ history', (TypeGraph.run history').types = g'.types →
      v.verify (TypeGraph.run history') = v.verify g') ∧
    -- diagnostics
    (v.verify g).diagnostics = before.flatMap (v.block g) ++ after.flatMap (v.block g) ∧
    (v.verify g').diagnostics = before.flatMap (v.block g') ++
      (if v.skips t.name then [] else v.verifyElement g' (.type t.mark)) ++
      after.flatMap (v.block g') ∧
    (∀ u ∈ before ++ after, v.block g' u = (v.block g u).filter fun d =>
      !(d.rule = .fieldInvalidType && d.actual.any fun name => decide (name = t.name))) ∧
    -- counts
    (v.verify g').elementsChecked = (v.verify g).elementsChecked + 1 ∧
    (v.verify g').classesVerified = (v.verify g).classesVerified +
      (if t.kind = .classKind ∧ v.skips t.name = false then 1 else 0) ∧
    (v.verify g').fieldsClassified = (v.verify g).fieldsClassified +
      (if t.kind = .classKind ∧ v.skips t.name = false then t.fields.length else 0) ∧
    -- what is skipped
    (v.verify g).skipped = before.flatMap v.skippedIn ++
      (if v.skips t.name then t.markedFields.map (·.qualifiedName) else []) ++
      after.flatMap v.skippedIn ∧
    (v.verify g').skipped = before.flatMap v.skippedIn ++
      (if v.skips t.name then t.name :: t.markedFields.map (·.qualifiedName) else []) ++
      after.flatMap v.skippedIn ∧
    -- trust
    (∀ f : FieldDeclaration, f.type = .named t.name →
      v.classify g' f = if v.registry.contains t.name then .knownImmutable else .markedType) ∧
    ∀ f : FieldDeclaration, f.type ≠ .named t.name → v.classify g' f = v.classify g f := by
  intro g g'
  have hg : g.WellFormed := TypeGraph.wellFormed_run history
  have hg' : g'.WellFormed := hg.marking t.name
  have htm : t ∈ g.types := by
    rw [← Array.mem_toList_iff, ht]
    simp
  have ht' : g'.types.toList = before ++ t.mark :: after := hg.toList_types_marking ht
  have hs : Settles (fun name => decide (name = t.name)) g v.registry g' v.registry :=
    hg.settles_of_spoken hg' fun name => by rw [TypeGraph.vouches_marking htm, Bool.or_assoc]
  obtain ⟨he, hc, hf⟩ := v.counts_mark ht ht' hm
  refine ⟨ht', hg'.exists_history, ?_, ?_, ?_, ?_, ?_, ?_, ?_, ?_, ?_, ?_, ?_⟩
  · intro history' htypes
    exact (TypeGraph.wellFormed_run history').verify_eq_of_types hg' htypes v
  · rw [v.verify_diagnostics_around ht, Verifier.block_of_unmarked hm, List.append_nil]
  · rw [v.verify_diagnostics_around ht', Verifier.block_mark]
  · intro u _
    exact Verifier.block_settled hs rfl rfl u
  · exact he
  · rw [hc, Verifier.counted_mark]
    split <;> rfl
  · rw [hf, Verifier.counted_mark]
    split <;> rfl
  · rw [v.verify_skipped_around ht, Verifier.skippedIn_of_unmarked hm]
  · rw [v.verify_skipped_around ht', Verifier.skippedIn_mark]
  · intro f hf
    exact hg.classify_marking htm v.registry hf
  · intro f hf
    exact hg.classify_marking_of_ne t.name v.registry hf

/-- A skipped list that points to itself, and a class that holds it. -/
theorem verify_marking_node :
    let holder : TypeDeclaration :=
      { name := "a.Holder", kind := .classKind, marked := true
        fields := [{ name := "node", type := .named "a.Node" }] }
    let node : TypeDeclaration :=
      { name := "a.Node", kind := .classKind
        fields := [{ name := "next", type := .named "a.Node", marked := true }] }
    let g := TypeGraph.run [.declarations [holder, node]]
    let g' := g.marking "a.Node"
    let v : Verifier := ⟨.empty, .empty, ["a.Node"]⟩
    g.types.toList = [holder.stamped] ++ node.stamped :: [] ∧ node.stamped.marked = false ∧
      (v.verify g').elementsChecked = (v.verify g).elementsChecked + 1 ∧
      (v.verify g).skipped = ["a.Node.next"] ∧
      (v.verify g').skipped = ["a.Node", "a.Node.next"] ∧
      ∀ f : FieldDeclaration, f.type = .named "a.Node" → v.classify g' f = .markedType := by
  intro holder node g g' v
  have ha : holder.Acceptable ∧ node.Acceptable := by decide +revert
  have hg : g.types.toList = [holder.stamped] ++ node.stamped :: [] :=
    TypeGraph.toList_types_run_declarations (by simpa using ha) (by simp [holder, node])
  obtain ⟨-, -, -, -, -, -, he, -, -, hs, hs', hf, -⟩ :=
    verify_marking [.declarations [holder, node]] v hg rfl
  exact ⟨hg, rfl, he, hs.trans rfl, hs'.trans rfl, hf⟩

end Immutability
