import Immutability.Proofs.Graph.Union
import Immutability.Proofs.Verification.Settling

/-! Verifying graphs that have been put together.

    Merging a graph into another one adds declarations that may speak for the types of fields, in
    both directions. It does nothing else to a run: the outcome over the union is the outcome over
    the one graph followed by that over the other, each less the invalid types that the other graph
    speaks for. -/

namespace Immutability

namespace TypeGraph

variable {g h m : TypeGraph}

/-- The union speaks for what one of its parts speaks for. -/
theorem vouches_of_toList_types (ht : m.types.toList = g.types.toList ++ h.types.toList)
    (name : String) : m.vouches name = (g.vouches name || h.vouches name) := by
  simp only [vouches, ← Array.any_toList, ht, List.any_append]

theorem markedElements_of_toList_types (ht : m.types.toList = g.types.toList ++ h.types.toList) :
    m.markedElements = g.markedElements ++ h.markedElements := by
  simp only [markedElements, ht, List.flatMap_append]

/-- More declarations settle the types that they speak for. -/
theorem WellFormed.settles (hg : g.WellFormed) (hm : m.WellFormed) (r : Registry)
    (hv : ∀ name, m.vouches name = (g.vouches name || h.vouches name)) :
    Settles h.vouches g r m r :=
  hg.settles_of_spoken hm fun name => by rw [hv, Bool.or_assoc]

end TypeGraph

/-- Graphs without a common name are merged completely, and a run over the union reports what a run
    over the first graph reports, less the invalid types that the second graph speaks for, followed
    by what a run over the second graph reports, less those that the first graph speaks for. The
    counts add up, and what is skipped is put together. So merging never adds a diagnostic to a type
    or changes one. -/
theorem verify_merge (history history' : List Operation) (v : Verifier)
    (hd : (TypeGraph.run history).Disjoint (TypeGraph.run history')) :
    let g := TypeGraph.run history
    let h := TypeGraph.run history'
    let m := (g.merge h).1
    (g.merge h).2 = none ∧
    (v.verify m).diagnostics =
      ((v.verify g).diagnostics.filter fun d =>
        !(d.rule = .fieldInvalidType && d.actual.any h.vouches)) ++
      ((v.verify h).diagnostics.filter fun d =>
        !(d.rule = .fieldInvalidType && d.actual.any g.vouches)) ∧
    (v.verify m).elementsChecked = (v.verify g).elementsChecked + (v.verify h).elementsChecked ∧
    (v.verify m).classesVerified = (v.verify g).classesVerified + (v.verify h).classesVerified ∧
    (v.verify m).fieldsClassified =
      (v.verify g).fieldsClassified + (v.verify h).fieldsClassified ∧
    (v.verify m).skipped = (v.verify g).skipped ++ (v.verify h).skipped ∧
    ∀ e, (v.verifyElement m e).Sublist (v.verifyElement g e) := by
  intro g h m
  have hg : g.WellFormed := TypeGraph.wellFormed_run history
  have hh : h.WellFormed := TypeGraph.wellFormed_run history'
  have hm : m.WellFormed := hg.merge h
  obtain ⟨m', hmerge, -, ht⟩ := hg.merge_of_disjoint hh hd
  obtain rfl : m = m' := congrArg Prod.fst hmerge
  have hgm : Settles h.vouches g v.registry m v.registry :=
    hg.settles hm v.registry (TypeGraph.vouches_of_toList_types ht)
  have hhm : Settles g.vouches h v.registry m v.registry :=
    hh.settles hm v.registry fun name => by
      rw [TypeGraph.vouches_of_toList_types ht, Bool.or_comm]
  have htotal : v.verify m =
      (v.total m g.markedElements).followedBy (v.total m h.markedElements) := by
    rw [v.verify_eq_total, TypeGraph.markedElements_of_toList_types ht, v.total_append]
  rw [htotal, v.verify_eq_total g, v.verify_eq_total h]
  -- counts and skipped names do not depend on the graph, so they are those of the two parts
  refine ⟨congrArg Prod.snd hmerge, ?_, rfl, rfl, rfl, rfl, ?_⟩
  · exact congrArg₂ _ (Verifier.total_diagnostics_settled hgm rfl rfl _)
      (Verifier.total_diagnostics_settled hhm rfl rfl _)
  · intro e
    rw [Verifier.verifyElement_settled hgm rfl]
    exact List.filter_sublist

/-- A class that holds a point, and the class of points in another graph. -/
theorem verify_merge_holder_point :
    let holder : TypeDeclaration :=
      { name := "a.Holder", kind := .classKind, marked := true
        fields := [{ name := "point", type := .named "b.Point" }] }
    let point : TypeDeclaration := { name := "b.Point", kind := .classKind, marked := true }
    let g := TypeGraph.run [.declarations [holder]]
    let h := TypeGraph.run [.declarations [point]]
    let v : Verifier := ⟨.empty, .empty, []⟩
    g.Disjoint h ∧ (g.merge h).2 = none ∧
      (v.verify (g.merge h).1).diagnostics =
        ((v.verify g).diagnostics.filter fun d =>
          !(d.rule = .fieldInvalidType && d.actual.any h.vouches)) ++
        ((v.verify h).diagnostics.filter fun d =>
          !(d.rule = .fieldInvalidType && d.actual.any g.vouches)) := by
  intro holder point g h v
  have hg : g.types.toList = [holder.stamped] :=
    TypeGraph.toList_types_run_declarations (by decide +revert) (by simp)
  have hh : h.types.toList = [point.stamped] :=
    TypeGraph.toList_types_run_declarations (by decide +revert) (by simp)
  have hd : g.Disjoint h := by
    intro t ht u hu
    rw [← Array.mem_toList_iff, hg, List.mem_singleton] at ht
    rw [← Array.mem_toList_iff, hh, List.mem_singleton] at hu
    rw [ht, hu]
    decide
  have hm := verify_merge [.declarations [holder]] [.declarations [point]] v hd
  exact ⟨hd, hm.1, hm.2.1⟩

end Immutability
