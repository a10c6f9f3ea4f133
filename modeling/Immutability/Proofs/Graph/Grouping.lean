import Immutability.Proofs.Graph.Collision

/-! What many graphs are together.

    Merging a row of graphs gives their declarations one after the other and of each metadata entry
    the first that is present (`Collects`). So it does not matter how brackets are put around the row
    (`Grouping`), and the empty graph adds nothing. If two graphs of the row share a name, the merge
    that brings them together fails, wherever the brackets are. -/

namespace Immutability

namespace Document

/-- A declaration of the document has the name. -/
def declares (d : Document) (name : String) : Bool := d.types.any fun t => t.name = name

/-- No type has a name that the other document declares, too. -/
def Disjoint (d e : Document) : Prop := ∀ t ∈ d.types, ∀ u ∈ e.types, t.name ≠ u.name

theorem declares_iff {d : Document} {name : String} :
    d.declares name = true ↔ ∃ t ∈ d.types, t.name = name := by
  simp [declares]

end Document

namespace TypeGraph

/-- The graph holds what the documents hold together: their declarations, stamped, in the order of
    the documents, and of each metadata entry the first that is present. -/
structure Collects (g : TypeGraph) (ds : List Document) : Prop where
  wellFormed : g.WellFormed
  types : g.types.toList = ds.flatMap fun d => d.types.map TypeDeclaration.stamped
  producer : g.metadata.producer = ds.findSome? (·.metadata.producer)
  generatedAt : g.metadata.generatedAt = ds.findSome? (·.metadata.generatedAt)

/-- The graphs cannot be told apart by their metadata, their declarations or what they look up. -/
structure Agrees (g h : TypeGraph) : Prop where
  metadata : g.metadata = h.metadata
  types : g.types = h.types
  get? : g.get? = h.get?

theorem WellFormed.agrees {g h : TypeGraph} (hg : g.WellFormed) (hh : h.WellFormed)
    (hm : g.metadata = h.metadata) (ht : g.types = h.types) : g.Agrees h :=
  ⟨hm, ht, hg.get?_eq_of_types hh ht⟩

/-- What a well-formed graph holds is what some history leads to. -/
theorem WellFormed.exists_history {g : TypeGraph} (hg : g.WellFormed) :
    ∃ history, (run history).Agrees g := by
  obtain ⟨g', hd, hm, ht⟩ := hg.ofDocument_eq g.metadata
  have hr : run [.document g.toDocument] = g' := by
    simp only [run, Operation.applyAll, Operation.apply, toDocument, hd, Except.toOption,
      Option.getD_some]
  exact ⟨_, (wellFormed_run _).agrees hg (by rw [hr, hm]) (by rw [hr, ht])⟩

namespace Collects

variable {g h : TypeGraph} {ds es : List Document}

theorem nil : empty.Collects [] where
  wellFormed := .init {}
  types := rfl
  producer := rfl
  generatedAt := rfl

/-- A graph collects its own document. -/
theorem ofWellFormed (hg : g.WellFormed) : g.Collects [g.toDocument] where
  wellFormed := hg
  types := by rw [List.flatMap_singleton, toDocument, hg.map_stamped]
  producer := by rw [List.findSome?_singleton, toDocument]
  generatedAt := by rw [List.findSome?_singleton, toDocument]

/-- The graph declares the names that the documents declare. -/
theorem declares_eq (hg : g.Collects ds) (name : String) :
    g.declares name = ds.any fun d => d.declares name := by
  rw [declares, ← Array.any_toList, hg.types, List.any_flatMap]
  simp only [List.any_map]
  rfl

/-- Graphs share no name exactly if the documents of the one share none with those of the other. -/
theorem disjoint_iff (hg : g.Collects ds) (hh : h.Collects es) :
    g.Disjoint h ↔ ∀ d ∈ ds, ∀ e ∈ es, d.Disjoint e := by
  have hmem : ∀ u, u ∈ h.types ↔ ∃ e ∈ es, ∃ t ∈ e.types, t.stamped = u := by
    intro u
    rw [← Array.mem_toList_iff, hh.types]
    simp only [List.mem_flatMap, List.mem_map]
  rw [TypeGraph.disjoint_iff]
  constructor
  · intro hf d hd e he t ht u hu hn
    have hfree := hf u.stamped ((hmem _).2 ⟨e, he, u, hu, rfl⟩)
    rw [hg.declares_eq, ← Bool.not_eq_true] at hfree
    exact hfree (List.any_eq_true.2 ⟨d, hd, Document.declares_iff.2 ⟨t, ht, hn⟩⟩)
  · intro hf v hv
    obtain ⟨e, he, u, hu, rfl⟩ := (hmem v).1 hv
    rw [hg.declares_eq, ← Bool.not_eq_true]
    rintro hd
    obtain ⟨d, hd, hdu⟩ := List.any_eq_true.1 hd
    obtain ⟨t, ht, hn⟩ := Document.declares_iff.1 hdu
    exact hf d hd e he t ht u hu hn

/-- Merging graphs without a common name collects the documents of both. -/
theorem mergeNew (hg : g.Collects ds) (hh : h.Collects es)
    (hd : ∀ d ∈ ds, ∀ e ∈ es, d.Disjoint e) :
    ∃ m, g.mergeNew h = .ok m ∧ m.Collects (ds ++ es) := by
  obtain ⟨m, hm, hw, hmeta, ht⟩ :=
    hg.wellFormed.mergeNew_of_disjoint hh.wellFormed ((hg.disjoint_iff hh).2 hd)
  refine ⟨m, hm, hw, ?_, ?_, ?_⟩
  · rw [ht, hg.types, hh.types, List.flatMap_append]
  · rw [hmeta, Metadata.orElse, hg.producer, hh.producer, List.findSome?_append]
  · rw [hmeta, Metadata.orElse, hg.generatedAt, hh.generatedAt, List.findSome?_append]

/-- Graphs that collect the same documents agree. -/
theorem agrees (hg : g.Collects ds) (hh : h.Collects ds) : g.Agrees h := by
  refine hg.wellFormed.agrees hh.wellFormed (congrArg₂ Metadata.mk ?_ ?_) (Array.toList_inj.1 ?_)
  · exact hg.producer.trans hh.producer.symm
  · exact hg.generatedAt.trans hh.generatedAt.symm
  · exact hg.types.trans hh.types.symm

end Collects

end TypeGraph

/-! ### The empty graph -/

theorem TypeGraph.merge_empty (g : TypeGraph) : g.merge empty = (g, none) := by
  have hm : g.metadata.orElse {} = g.metadata := by simp [Metadata.orElse]
  rw [merge, empty, hm]
  rfl

/-- The empty graph takes every graph over as it is. -/
theorem TypeGraph.WellFormed.empty_merge {g : TypeGraph} (hg : g.WellFormed) :
    ∃ m, empty.merge g = (m, none) ∧ m.Agrees g := by
  have he : empty.WellFormed := .init {}
  have hd : empty.Disjoint g := fun t ht => by simp [empty] at ht
  obtain ⟨m, hm, hmeta, ht⟩ := he.merge_of_disjoint hg hd
  have hw : m.WellFormed := by simpa [hm] using he.merge g
  refine ⟨m, hm, hw.agrees hg ?_ (Array.toList_inj.1 ?_)⟩
  · rw [hmeta]
    rfl
  · rw [ht]
    rfl

/-! ### Brackets -/

/-- A row of graphs, each with a history of its own, and brackets that say in which order they are
    merged. -/
inductive Grouping where
  | single (history : List Operation)
  | join (left right : Grouping)

namespace Grouping

/-- The graphs of the row. -/
def graphs : Grouping → List TypeGraph
  | single history => [TypeGraph.run history]
  | join left right => left.graphs ++ right.graphs

/-- The graph to which the row is merged. It fails if one of the merges fails. -/
def merged : Grouping → Except LoadError TypeGraph
  | single history => .ok (TypeGraph.run history)
  | join left right => left.merged.bind fun g => right.merged.bind fun h => g.mergeNew h

/-- The documents of the graphs of two rows share no name exactly if the graphs do not. -/
theorem disjoint_documents_iff {gs hs : List TypeGraph} :
    (∀ d ∈ gs.map TypeGraph.toDocument, ∀ e ∈ hs.map TypeGraph.toDocument, d.Disjoint e) ↔
      ∀ g ∈ gs, ∀ h ∈ hs, g.Disjoint h := by
  simp only [List.forall_mem_map, Document.Disjoint, TypeGraph.Disjoint, TypeGraph.toDocument,
    Array.mem_toList_iff]

theorem merged_join_eq_ok {left right : Grouping} {m : TypeGraph} :
    (join left right).merged = .ok m ↔
      ∃ g h, left.merged = .ok g ∧ right.merged = .ok h ∧ g.mergeNew h = .ok m := by
  rw [merged]
  cases left.merged with
  | error e => simp [Except.bind]
  | ok g => cases right.merged <;> simp [Except.bind]

/-- A row that has been merged had distinct names, and the result collects its graphs. -/
theorem collects_of_merged {p : Grouping} {m : TypeGraph} (hm : p.merged = .ok m) :
    p.graphs.Pairwise TypeGraph.Disjoint ∧ m.Collects (p.graphs.map TypeGraph.toDocument) := by
  induction p generalizing m with
  | single history =>
    cases hm
    exact ⟨List.pairwise_singleton _ _, .ofWellFormed (TypeGraph.wellFormed_run history)⟩
  | join left right ihl ihr =>
    obtain ⟨g, h, hg, hh, hgh⟩ := merged_join_eq_ok.1 hm
    obtain ⟨hl, hgc⟩ := ihl hg
    obtain ⟨hr, hhc⟩ := ihr hh
    have hd := (hgc.disjoint_iff hhc).1 (hgc.wellFormed.disjoint_of_mergeNew hhc.wellFormed hgh)
    obtain ⟨m', hm', hmc⟩ := hgc.mergeNew hhc hd
    rw [hgh] at hm'
    cases hm'
    refine ⟨List.pairwise_append.2 ⟨hl, hr, disjoint_documents_iff.1 hd⟩, ?_⟩
    rw [graphs, List.map_append]
    exact hmc

/-- A row with distinct names is merged. -/
theorem merged_of_disjoint (p : Grouping) (hd : p.graphs.Pairwise TypeGraph.Disjoint) :
    ∃ m, p.merged = .ok m := by
  induction p with
  | single history => exact ⟨_, rfl⟩
  | join left right ihl ihr =>
    obtain ⟨hl, hr, hlr⟩ := List.pairwise_append.1 hd
    obtain ⟨g, hg⟩ := ihl hl
    obtain ⟨h, hh⟩ := ihr hr
    obtain ⟨m, hm, -⟩ := (collects_of_merged hg).2.mergeNew (collects_of_merged hh).2
      (disjoint_documents_iff.2 hlr)
    exact ⟨m, merged_join_eq_ok.2 ⟨g, h, hg, hh, hm⟩⟩

/-- Brackets make no difference. -/
theorem merged_agrees {p q : Grouping} (hr : p.graphs = q.graphs)
    (hd : p.graphs.Pairwise TypeGraph.Disjoint) :
    ∃ m n, p.merged = .ok m ∧ q.merged = .ok n ∧ m.Agrees n := by
  obtain ⟨m, hm⟩ := p.merged_of_disjoint hd
  obtain ⟨n, hn⟩ := q.merged_of_disjoint (hr ▸ hd)
  have hmc := (collects_of_merged hm).2
  have hnc := (collects_of_merged hn).2
  rw [← hr] at hnc
  exact ⟨m, n, hm, hn, hmc.agrees hnc⟩

/-- A row in which a name occurs twice is not merged. -/
theorem merged_of_not_disjoint (p : Grouping) (hd : ¬ p.graphs.Pairwise TypeGraph.Disjoint) :
    ∃ e, p.merged = .error e := by
  cases hm : p.merged with
  | error e => exact ⟨e, rfl⟩
  | ok m => exact absurd (collects_of_merged hm).1 hd

end Grouping

end Immutability
