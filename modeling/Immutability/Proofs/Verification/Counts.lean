import Immutability.Proofs.Verification.Outcome
import Mathlib.Algebra.BigOperators.Group.List.Lemmas

/-! What a run counts, said of the declarations.

    The counts are kept while the marked elements are visited, each at its own point of the step.
    Added up over the elements of one type they say how many of them are marked, and whether the type
    is a class that is checked; marked fields add nothing of their own. -/

namespace Immutability

/-- Adding up over lists that are put together. -/
theorem sum_map_flatMap {α β : Type} (f : α → List β) (size : β → Nat) (l : List α) :
    ((l.flatMap f).map size).sum = (l.map fun a => ((f a).map size).sum).sum := by
  rw [List.map_flatMap, List.flatMap_def, List.sum_flatten, List.map_map]
  rfl

namespace Verifier

variable (v : Verifier) (g : TypeGraph)

/-- The type is a class that is checked. -/
def verifies (t : TypeDeclaration) : Bool := v.checks t && decide (t.kind = .classKind)

/-- Marked fields add no class and no fields to the counts. -/
theorem counted_field (t : TypeDeclaration) (f : FieldDeclaration) :
    v.counted (.field t f) = (0, 0) := by
  unfold counted
  split <;> rfl

theorem counted_type {t : TypeDeclaration} (hm : t.marked = true) :
    v.counted (.type t) = if v.verifies t then (1, t.fields.length) else (0, 0) := by
  rw [counted, verifies, checks, hm]
  cases hs : v.skips t.name with
  | true => simp [Element.owner, hs]
  | false => simp [Element.owner, hs, workload]

/-- The elements of a type add what the type itself adds if it is marked. -/
theorem sum_counted_markedElements (size : Nat × Nat → Nat) (h0 : size (0, 0) = 0)
    (t : TypeDeclaration) :
    (t.markedElements.map fun e => size (v.counted e)).sum =
      if v.verifies t then size (1, t.fields.length) else 0 := by
  have hf : (t.markedFields.map fun f => size (v.counted (.field t f))).sum = 0 := by
    simp [counted_field, h0]
  rw [TypeDeclaration.markedElements, List.map_append, List.sum_append, List.map_map]
  simp only [Function.comp_def, hf, Nat.add_zero]
  cases hm : t.marked with
  | false => simp [verifies, checks, hm]
  | true =>
    rw [if_pos rfl, List.map_singleton, List.sum_singleton, counted_type v hm]
    split
    · rfl
    · exact h0

/-- A run visits the marked types and the marked fields. -/
theorem verify_elementsChecked :
    (v.verify g).elementsChecked = (g.types.toList.map fun t => t.markedElements.length).sum := by
  rw [verify_eq_total, total, TypeGraph.markedElements, List.length_flatMap]

theorem verify_classesVerified :
    (v.verify g).classesVerified = g.types.toList.countP v.verifies := by
  rw [verify_eq_total, total, TypeGraph.markedElements,
    sum_map_flatMap _ fun e => (v.counted e).1]
  simp only [v.sum_counted_markedElements Prod.fst rfl, List.sum_map_ite]
  simp [List.countP_eq_length_filter]

theorem verify_fieldsClassified :
    (v.verify g).fieldsClassified =
      ((g.types.toList.filter v.verifies).map fun t => t.fields.length).sum := by
  rw [verify_eq_total, total, TypeGraph.markedElements,
    sum_map_flatMap _ fun e => (v.counted e).2]
  simp only [v.sum_counted_markedElements Prod.snd rfl, List.sum_map_ite]
  simp

theorem length_markedElements (t : TypeDeclaration) :
    t.markedElements.length = (if t.marked then 1 else 0) + t.markedFields.length := by
  rw [TypeDeclaration.markedElements, List.length_append, List.length_map]
  split <;> rfl

/-! ### One type in place of another -/

section Replacing

variable {g} {g' : TypeGraph} {t u : TypeDeclaration} {before after : List TypeDeclaration}

theorem elementsChecked_replacing (ht : g.types.toList = before ++ t :: after)
    (hu : g'.types.toList = before ++ u :: after) (n : Nat)
    (hn : u.markedElements.length = t.markedElements.length + n) :
    (v.verify g').elementsChecked = (v.verify g).elementsChecked + n := by
  rw [v.verify_elementsChecked, v.verify_elementsChecked, ht, hu]
  simp only [List.map_append, List.map_cons, List.sum_append, List.sum_cons, hn]
  omega

theorem classesVerified_replacing (ht : g.types.toList = before ++ t :: after)
    (hu : g'.types.toList = before ++ u :: after) (hv : v.verifies u = v.verifies t) :
    (v.verify g').classesVerified = (v.verify g).classesVerified := by
  rw [v.verify_classesVerified, v.verify_classesVerified, ht, hu]
  simp only [List.countP_append, List.countP_cons, hv]

theorem fieldsClassified_replacing (ht : g.types.toList = before ++ t :: after)
    (hu : g'.types.toList = before ++ u :: after) (hv : v.verifies u = v.verifies t)
    (hn : u.fields.length = t.fields.length) :
    (v.verify g').fieldsClassified = (v.verify g).fieldsClassified := by
  rw [v.verify_fieldsClassified, v.verify_fieldsClassified, ht, hu]
  simp only [List.filter_append, List.filter_cons, hv]
  split <;> simp [hn]

end Replacing

end Verifier

end Immutability
