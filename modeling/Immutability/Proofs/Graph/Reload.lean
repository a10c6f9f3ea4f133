import Immutability.Graph.Fingerprint
import Immutability.Proofs.Document.Json
import Immutability.Proofs.Graph.Union

/-! Graphs loaded again from what they hold.

    The document of a graph makes up the same graph again: its names are distinct, and its fields name
    the owner that they are given. So nothing is lost by writing a graph down, in either layout. -/

namespace Immutability

namespace TypeGraph

/-- The fingerprint depends on the declarations only. -/
theorem fingerprint_eq_of_types {g h : TypeGraph} (ht : g.types = h.types) :
    g.fingerprint = h.fingerprint := by
  rw [fingerprint, fingerprint, canonicalText, canonicalText, ht]

/-- A text of a graph's document is loaded as that graph. -/
theorem WellFormed.ofText_of_document {g : TypeGraph} (h : g.WellFormed) {s : String}
    (hs : Document.ofText s = .ok g.toDocument) :
    ∃ g', TypeGraph.ofText s = .ok g' ∧ g'.metadata = g.metadata ∧ g'.types = g.types ∧
      g'.fingerprint = g.fingerprint := by
  obtain ⟨g', hd, hm, ht⟩ := h.ofDocument_eq g.metadata
  refine ⟨g', ?_, hm, ht, fingerprint_eq_of_types ht⟩
  rw [TypeGraph.ofText, hs]
  simp only [toDocument, hd]

/-- After every history the graph can be written as a document, in either layout, and loaded again
    with the same metadata, the same declarations in their order and the same fingerprint. It can
    also be rebuilt from its declarations alone. -/
theorem run_reload (history : List Operation) :
    let g := run history
    (∃ g', ofText g.toDocument.toJson.compact = .ok g' ∧ g'.metadata = g.metadata ∧
      g'.types = g.types ∧ g'.fingerprint = g.fingerprint) ∧
    (∃ g', ofText g.toDocument.toJson.indented = .ok g' ∧ g'.metadata = g.metadata ∧
      g'.types = g.types ∧ g'.fingerprint = g.fingerprint) ∧
    ∃ g', ofDeclarations g.types.toList = .ok g' ∧ g'.types = g.types ∧
      g'.fingerprint = g.fingerprint := by
  intro g
  have h : g.WellFormed := wellFormed_run history
  obtain ⟨hc, hi⟩ := g.toDocument.ofText_toJson
  obtain ⟨g', hd, -, ht⟩ := h.ofDocument_eq {}
  exact ⟨h.ofText_of_document hc, h.ofText_of_document hi, g', hd, ht, fingerprint_eq_of_types ht⟩

end TypeGraph

end Immutability
