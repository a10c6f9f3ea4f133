import Immutability.Document
import Immutability.Proofs.Declaration.Json

/-! Documents read as they were written.

    A document comes back from its JSON with its metadata and its declarations, in either layout. -/

namespace Immutability

open Json

theorem Metadata.readAs (m : Metadata) : m.toJson.ReadAs Metadata.ofTree m := by
  have hw : Writes Metadata.members
      [("producer", ofText? m.producer), ("generated_at", ofText? m.generatedAt)]
      (m.producer, m.generatedAt, ()) :=
    .also (readAs_ofText? m.producer) <| .also (readAs_ofText? m.generatedAt) .done
  exact (hw.readAs (by decide) "GraphMetadata").map

theorem Document.readAs (d : Document) : d.toJson.ReadAs Document.ofTree d := by
  have hw : Writes Document.members
      [("metadata", d.metadata.toJson), ("types", .sequence (d.types.map TypeDeclaration.toJson))]
      (d.metadata, d.types, ()) :=
    .also d.metadata.readAs <| .also (.list fun t _ => t.readAs) .done
  exact (hw.readAs (by decide) "TypeGraphDocument").map

/-- A document is read from either layout of its text. -/
theorem Document.ofText_toJson (d : Document) :
    Document.ofText d.toJson.compact = .ok d ∧ Document.ofText d.toJson.indented = .ok d :=
  ⟨d.readAs.read_compact, d.readAs.read_indented⟩

end Immutability
