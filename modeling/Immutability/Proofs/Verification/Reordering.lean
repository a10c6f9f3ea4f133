import Immutability.Proofs.Graph.Union
import Immutability.Proofs.Verification.Settling
import Mathlib.Algebra.BigOperators.Group.List.Basic

/-! Verifying the same declarations in another order.

    What speaks for a name is the set of the declarations and not their order, so every element
    reports the same. The order of the declarations is only the order in which the run visits
    them. -/

namespace Immutability

/-- The outcomes differ in nothing but the order of what they list. -/
structure Verification.Reorders (a b : Verification) : Prop where
  diagnostics : a.diagnostics.Perm b.diagnostics
  elementsChecked : a.elementsChecked = b.elementsChecked
  classesVerified : a.classesVerified = b.classesVerified
  fieldsClassified : a.fieldsClassified = b.fieldsClassified
  skipped : a.skipped.Perm b.skipped

namespace TypeGraph

variable {g h : TypeGraph}

theorem vouches_eq_of_perm (hp : g.types.toList.Perm h.types.toList) : g.vouches = h.vouches := by
  funext name
  rw [vouches, vouches, ← Array.any_toList, ← Array.any_toList]
  exact hp.any_eq

theorem markedElements_perm (hp : g.types.toList.Perm h.types.toList) :
    g.markedElements.Perm h.markedElements :=
  hp.flatMap_right _

end TypeGraph

namespace Verifier

variable {v : Verifier} {g h : TypeGraph}

/-- Visiting elements in another order reorders the outcome. -/
theorem total_reorders (hr : v.verifyElement g = v.verifyElement h) {es fs : List Element}
    (hp : es.Perm fs) : (v.total g es).Reorders (v.total h fs) where
  diagnostics := by
    have hr : v.reported g = v.reported h := by
      funext e
      rw [reported, reported, hr]
    rw [total, total, hr]
    exact hp.flatMap_right _
  elementsChecked := hp.length_eq
  classesVerified := (hp.map _).sum_eq
  fieldsClassified := (hp.map _).sum_eq
  skipped := hp.flatMap_right _

end Verifier

/-- Runs over graphs with the same declarations in different orders differ in nothing but the order
    of their diagnostics and of the names they skip: they agree in all counts and in whether there
    are errors. Every element reports the same in both graphs, whether what its fields refer to is
    declared before it or after it. -/
theorem verify_perm (history history' : List Operation) (v : Verifier)
    (hp : (TypeGraph.run history).types.toList.Perm (TypeGraph.run history').types.toList) :
    let g := TypeGraph.run history
    let h := TypeGraph.run history'
    (v.verify g).Reorders (v.verify h) ∧
    (v.verify g).errorCount = (v.verify h).errorCount ∧
    (v.verify g).warningCount = (v.verify h).warningCount ∧
    (v.verify g).hasErrors = (v.verify h).hasErrors ∧
    ∀ e, v.verifyElement g e = v.verifyElement h e := by
  intro g h
  have hg : g.WellFormed := TypeGraph.wellFormed_run history
  have hh : h.WellFormed := TypeGraph.wellFormed_run history'
  have he : v.verifyElement g = v.verifyElement h :=
    Verifier.verifyElement_eq_of_vouches hh hg (TypeGraph.vouches_eq_of_perm hp)
  have hr : (v.verify g).Reorders (v.verify h) := by
    rw [v.verify_eq_total, v.verify_eq_total]
    exact Verifier.total_reorders he (TypeGraph.markedElements_perm hp)
  refine ⟨hr, ?_, ?_, ?_, congrFun he⟩
  · exact hr.diagnostics.countP_eq _
  · exact hr.diagnostics.countP_eq _
  · exact hr.diagnostics.any_eq

/-- Two classes that refer to each other, one of them without its modifiers. -/
theorem verify_perm_cycle :
    let node : TypeDeclaration :=
      { name := "a.Node", kind := .classKind, marked := true
        fields := [{ name := "peer", type := .named "a.Peer" }] }
    let peer : TypeDeclaration :=
      { name := "a.Peer", kind := .classKind, marked := true, modifiers := .ofList [.final]
        fields := [{ name := "node", type := .named "a.Node" }] }
    let g := TypeGraph.run [.declarations [node, peer]]
    let h := TypeGraph.run [.declarations [peer, node]]
    let v : Verifier := ⟨.empty, .empty, []⟩
    g.types.toList.Perm h.types.toList ∧ (v.verify g).Reorders (v.verify h) ∧
      v.verifyElement g (.type node.stamped) = v.verifyElement h (.type node.stamped) := by
  intro node peer g h v
  have ha : node.Acceptable ∧ peer.Acceptable := by decide +revert
  have hg : g.types.toList = [node.stamped, peer.stamped] :=
    TypeGraph.toList_types_run_declarations (by simpa using ha) (by simp [node, peer])
  have hh : h.types.toList = [peer.stamped, node.stamped] :=
    TypeGraph.toList_types_run_declarations (by simpa using ha.symm) (by simp [node, peer])
  have hp : g.types.toList.Perm h.types.toList := by
    rw [hg, hh]
    exact .swap ..
  obtain ⟨hr, -, -, -, he⟩ :=
    verify_perm [.declarations [node, peer]] [.declarations [peer, node]] v hp
  exact ⟨hp, hr, he _⟩

end Immutability
