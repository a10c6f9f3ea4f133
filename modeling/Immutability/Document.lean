import Immutability.Declaration.Json

/-! Documents: the declarations of a front end together with its name and the time of its run. -/

namespace Immutability

open Json

/-- Who produced a document, and when. -/
structure Metadata where
  producer : Option String := none
  generatedAt : Option String := none
  deriving DecidableEq

namespace Metadata

/-- What is missing is taken from other metadata. -/
def orElse (m other : Metadata) : Metadata :=
  ⟨m.producer.or other.producer, m.generatedAt.or other.generatedAt⟩

/-- Metadata as JSON. -/
def toJson (m : Metadata) : Json :=
  .table [("producer", ofText? m.producer), ("generated_at", ofText? m.generatedAt)]

/-- The members of metadata. -/
def members : Members Tree [Option String, Option String] :=
  .also (.defaulted "producer" (Read.option Read.text) none) <|
  .also (.defaulted "generated_at" (Read.option Read.text) none) .none

/-- The metadata of the values of its members. -/
def ofValues : Values [Option String, Option String] → Metadata
  | (producer, generatedAt, ()) => { producer, generatedAt }

/-- Reads metadata. -/
def ofTree (t : Tree) : Except Fault Metadata :=
  (Read.record "GraphMetadata" members t).map ofValues

end Metadata

/-- The declarations of a front end. -/
structure Document where
  metadata : Metadata := {}
  types : List TypeDeclaration := []
  deriving DecidableEq

namespace Document

/-- A document as JSON. -/
def toJson (d : Document) : Json :=
  .table [("metadata", d.metadata.toJson),
    ("types", .sequence (d.types.map TypeDeclaration.toJson))]

/-- The members of a document. -/
def members : Members Tree [Metadata, List TypeDeclaration] :=
  .also (.defaulted "metadata" Metadata.ofTree {}) <|
  .also (.defaulted "types" (Read.list TypeDeclaration.ofTree) []) .none

/-- The document of the values of its members. -/
def ofValues : Values [Metadata, List TypeDeclaration] → Document
  | (metadata, types, ()) => { metadata, types }

/-- Reads a document. -/
def ofTree (t : Tree) : Except Fault Document :=
  (Read.record "TypeGraphDocument" members t).map ofValues

/-- Reads the text of a document. -/
def ofText (s : String) : Except Fault Document := (Source.ofText s).read ofTree

end Document

end Immutability
