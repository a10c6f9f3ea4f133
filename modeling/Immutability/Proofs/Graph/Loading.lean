import Immutability.Proofs.Document.Json
import Immutability.Proofs.Graph.Grouping
import Mathlib.Data.List.Induction
import Mathlib.Data.List.Forall2

/-! Loading documents one after the other.

    Every document has to make up a graph by itself before it is merged with those before it, so the
    first document that fails decides on the error, even if a later one repeats an earlier name. If
    none fails, it does not matter how the declarations are divided into documents. -/

namespace Immutability

namespace Finding

/-- What was found is the text of the document, and the document is valid by itself. -/
structure Holds (f : Finding) (d : Document) : Prop where
  text : ∃ s, f.content = .ok s ∧ Document.ofText s = .ok d
  acceptable : ∀ t ∈ d.types, t.Acceptable
  distinct : (d.types.map (·.name)).Nodup

/-- Why a document cannot be loaded after others: it cannot be read, parsed or validated by itself,
    or it is valid and repeats a name of the others; then its first type with such a name is
    blamed. -/
inductive Fails (f : Finding) (earlier : List Document) : LoadError → Prop
  | unreadable {cause : FileError} (hc : f.content = .error cause) :
    f.Fails earlier (.unreadable f.path cause)
  | unparsable {s : String} {fault : Fault} (hs : f.content = .ok s)
    (hf : Document.ofText s = .error fault) : f.Fails earlier (.unparsable fault)
  | invalid {s : String} {d : Document} {e : GraphError} (hs : f.content = .ok s)
    (hd : Document.ofText s = .ok d) (he : TypeGraph.ofDocument d = .error e) :
    f.Fails earlier (.invalid e)
  | repeated {d : Document} {t : TypeDeclaration} (hd : f.Holds d)
    (ht : (d.types.find? fun t => earlier.any fun e => e.declares t.name) = some t) :
    f.Fails earlier (.invalid (.duplicateType t.name))

/-- A document that is valid by itself makes up a graph, which holds it. -/
theorem Holds.graph {f : Finding} {d : Document} (h : f.Holds d) :
    ∃ g, f.graph = .ok g ∧ g.Collects [d] := by
  obtain ⟨s, hs, hd⟩ := h.text
  obtain ⟨g, hg, hm, ht⟩ := TypeGraph.ofDocument_of_acceptable h.acceptable h.distinct
  refine ⟨g, ?_, .ofDocument hg, ?_, ?_, ?_⟩
  · simp only [Finding.graph, hs, TypeGraph.ofText, hd, hg]
  · rw [ht, List.flatMap_singleton]
  · rw [hm, List.findSome?_singleton]
  · rw [hm, List.findSome?_singleton]

/-- A document can be loaded after others, or there is a reason why not. -/
theorem holds_or_fails (f : Finding) (earlier : List Document) :
    (∃ d, f.Holds d ∧ ∀ e ∈ earlier, e.Disjoint d) ∨ ∃ e, f.Fails earlier e := by
  cases hc : f.content with
  | error cause => exact Or.inr ⟨_, .unreadable hc⟩
  | ok s =>
    cases hd : Document.ofText s with
    | error fault => exact Or.inr ⟨_, .unparsable hc hd⟩
    | ok d =>
      cases hg : TypeGraph.ofDocument d with
      | error e => exact Or.inr ⟨_, .invalid hc hd hg⟩
      | ok g =>
        obtain ⟨ha, hn, -⟩ := TypeGraph.acceptable_of_ofDocument hg
        have hf : f.Holds d := ⟨⟨s, hc, hd⟩, ha, hn⟩
        cases ht : d.types.find? fun t => earlier.any fun e => e.declares t.name with
        | some t => exact Or.inr ⟨_, .repeated hf ht⟩
        | none =>
          refine Or.inl ⟨d, hf, ?_⟩
          intro e he t hte u hu hn
          exact List.find?_eq_none.1 ht u hu
            (List.any_eq_true.2 ⟨e, he, Document.declares_iff.2 ⟨t, hte, hn⟩⟩)

end Finding

theorem Finding.acceptable_of_holds {fs : List Finding} {ds : List Document}
    (h : List.Forall₂ Finding.Holds fs ds) : ∀ d ∈ ds, ∀ t ∈ d.types, t.Acceptable := by
  induction h with
  | nil => exact nofun
  | cons hf _ ih => exact List.forall_mem_cons.2 ⟨hf.acceptable, ih⟩

/-- The findings are documents that are valid by themselves, and no name occurs in two of them. -/
structure Compatible (fs : List Finding) (ds : List Document) : Prop where
  holds : List.Forall₂ Finding.Holds fs ds
  disjoint : ds.Pairwise Document.Disjoint

/-- The first finding that cannot be loaded after those before it, and why. -/
def FailsFirst (fs : List Finding) (e : LoadError) : Prop :=
  ∃ before f after ds, fs = before ++ f :: after ∧ Compatible before ds ∧ f.Fails ds e

theorem compatible_or_failsFirst (fs : List Finding) :
    (∃ ds, Compatible fs ds) ∨ ∃ e, FailsFirst fs e := by
  induction fs using List.reverseRecOn with
  | nil => exact Or.inl ⟨[], .nil, .nil⟩
  | append_singleton fs f ih =>
    rcases ih with ⟨ds, hds⟩ | ⟨e, before, f', after, ds, rfl, hds, hf⟩
    · rcases f.holds_or_fails ds with ⟨d, hd, hdis⟩ | ⟨e, hf⟩
      · refine Or.inl ⟨ds ++ [d], ?_, ?_⟩
        · exact List.rel_append hds.holds (.cons hd .nil)
        · refine List.pairwise_append.2 ⟨hds.disjoint, List.pairwise_singleton _ _, ?_⟩
          intro e he d' hd'
          rw [List.mem_singleton.1 hd']
          exact hdis e he
      · exact Or.inr ⟨e, fs, f, [], ds, rfl, hds, hf⟩
    · exact Or.inr ⟨e, before, f', after ++ [f], ds, by simp, hds, hf⟩

namespace TypeGraph

variable {g : TypeGraph} {ds : List Document}

/-- Documents that can be loaded after others are loaded, and what follows is loaded into the graph
    that holds them, too. -/
theorem Collects.load_append {fs : List Finding} {es : List Document} (hg : g.Collects ds)
    (hf : List.Forall₂ Finding.Holds fs es) (hd : (ds ++ es).Pairwise Document.Disjoint)
    (rest : List Finding) : ∃ m : TypeGraph, m.Collects (ds ++ es) ∧ g.load (fs ++ rest) = m.load rest := by
  induction hf generalizing g ds with
  | nil => exact ⟨g, by simpa using hg, rfl⟩
  | @cons f d fs es hf hfs ih =>
    obtain ⟨h, hh, hhc⟩ := hf.graph
    have hde : ∀ e ∈ ds, ∀ d' ∈ [d], e.Disjoint d' := by
      intro e he d' hd'
      refine (List.pairwise_append.1 hd).2.2 e he d' ?_
      rw [List.mem_singleton.1 hd']
      exact List.mem_cons_self ..
    obtain ⟨m, hm, hmc⟩ := hg.mergeNew hhc hde
    obtain ⟨m', hmc', hl⟩ := ih hmc (by simpa using hd)
    refine ⟨m', by simpa using hmc', ?_⟩
    rw [List.cons_append, load, hh]
    simp only [hm]
    exact hl

/-- A document that cannot be loaded ends the loading. -/
theorem Collects.load_of_fails {f : Finding} {e : LoadError} (hg : g.Collects ds)
    (hf : f.Fails ds e) (rest : List Finding) : g.load (f :: rest) = .error e := by
  rw [load]
  cases hf with
  | unreadable hc => simp only [Finding.graph, hc]
  | unparsable hs hf => simp only [Finding.graph, hs, ofText, hf]
  | invalid hs hd he => simp only [Finding.graph, hs, ofText, hd, he]
  | @repeated d t hd ht =>
    obtain ⟨h, hh, hhc⟩ := hd.graph
    -- stamping keeps the names, so the first shared name is the same
    have ht' : (h.types.toList.find? fun u => g.declares u.name) = some t.stamped := by
      rw [hhc.types, List.flatMap_singleton, List.find?_map]
      simp only [hg.declares_eq, Function.comp_def, TypeDeclaration.name_stamped, ht,
        Option.map_some]
    simp only [hh, hg.wellFormed.mergeNew_of_taken hhc.wellFormed ht',
      TypeDeclaration.name_stamped]

/-- Compatible documents are loaded. -/
theorem load_of_compatible {fs : List Finding} (h : Compatible fs ds) :
    ∃ g, empty.load fs = .ok g ∧ g.Collects ds := by
  obtain ⟨m, hm, hl⟩ := Collects.nil.load_append h.holds h.disjoint []
  rw [List.append_nil] at hl
  exact ⟨m, hl, hm⟩

theorem load_of_failsFirst {fs : List Finding} {e : LoadError} (h : FailsFirst fs e) :
    empty.load fs = .error e := by
  obtain ⟨before, f, after, ds, rfl, hds, hf⟩ := h
  obtain ⟨m, hm, hl⟩ := Collects.nil.load_append hds.holds hds.disjoint (f :: after)
  rw [hl]
  exact hm.load_of_fails hf after

theorem exists_load_iff {fs : List Finding} :
    (∃ g, empty.load fs = .ok g) ↔ ∃ ds, Compatible fs ds := by
  constructor
  · rintro ⟨g, hg⟩
    rcases compatible_or_failsFirst fs with hds | ⟨e, he⟩
    · exact hds
    · rw [load_of_failsFirst he] at hg
      cases hg
  · rintro ⟨ds, hds⟩
    obtain ⟨g, hg, -⟩ := load_of_compatible hds
    exact ⟨g, hg⟩

/-- A graph that has been loaded is well formed. -/
theorem WellFormed.load {fs : List Finding} (hg : empty.load fs = .ok g) : g.WellFormed := by
  obtain ⟨ds, hds⟩ := exists_load_iff.1 ⟨g, hg⟩
  obtain ⟨g', hg', hc⟩ := load_of_compatible hds
  rw [hg] at hg'
  cases hg'
  exact hc.wellFormed

theorem load_eq_error_iff {fs : List Finding} {e : LoadError} :
    empty.load fs = .error e ↔ FailsFirst fs e := by
  refine ⟨?_, load_of_failsFirst⟩
  intro he
  rcases compatible_or_failsFirst fs with ⟨ds, hds⟩ | ⟨e', he'⟩
  · obtain ⟨g, hg, -⟩ := load_of_compatible hds
    rw [hg] at he
    cases he
  · rw [load_of_failsFirst he'] at he
    cases he
    exact he'

/-- The documents that a graph holds make up the same declarations as one document. -/
theorem Collects.ofDocument_flatMap (hg : g.Collects ds)
    (ha : ∀ d ∈ ds, ∀ t ∈ d.types, t.Acceptable) (m : Metadata) :
    ∃ g', ofDocument ⟨m, ds.flatMap (·.types)⟩ = .ok g' ∧ g'.types = g.types := by
  have hn : ((ds.flatMap (·.types)).map (·.name)).Nodup := by
    have hn := hg.wellFormed.names_nodup
    rw [hg.types, List.map_flatMap] at hn
    rw [List.map_flatMap]
    simpa [Function.comp_def] using hn
  obtain ⟨g', hd, -, ht⟩ := ofDocument_of_acceptable (d := ⟨m, ds.flatMap (·.types)⟩)
    (by simpa [List.mem_flatMap] using fun t d hd => ha d hd t) hn
  refine ⟨g', hd, Array.toList_inj.1 ?_⟩
  rw [ht, hg.types, List.map_flatMap]

/-- Loading documents in their order succeeds exactly if each is valid by itself and no name occurs
    in two of them. The graph then holds their declarations one after the other, as one document of
    all declarations would, and of each metadata entry the first that is present. Otherwise the error
    is that of the first document that fails by itself or repeats a name of those before it.

    Merging is associative: graphs in a row give the same graph wherever the brackets are, if no two
    share a name, and otherwise no graph. The empty graph is its identity. -/
theorem load_documents :
    (∀ fs : List Finding,
      ((∃ g, empty.load fs = .ok g) ↔ ∃ ds, Compatible fs ds) ∧
      (∀ ds, Compatible fs ds → ∃ g, empty.load fs = .ok g ∧ g.Collects ds ∧
        ∀ m, ∃ g', ofDocument ⟨m, ds.flatMap (·.types)⟩ = .ok g' ∧ g'.types = g.types) ∧
      ∀ e, empty.load fs = .error e ↔ FailsFirst fs e) ∧
    (∀ p q : Grouping, p.graphs = q.graphs →
      (p.graphs.Pairwise Disjoint →
        ∃ m n, p.merged = .ok m ∧ q.merged = .ok n ∧ m.Agrees n) ∧
      (¬ p.graphs.Pairwise Disjoint → ∃ e e', p.merged = .error e ∧ q.merged = .error e')) ∧
    ∀ history, (run history).merge empty = (run history, none) ∧
      ∃ g, empty.merge (run history) = (g, none) ∧ g.Agrees (run history) := by
  refine ⟨?_, ?_, ?_⟩
  · intro fs
    refine ⟨exists_load_iff, ?_, fun e => load_eq_error_iff⟩
    intro ds hds
    obtain ⟨g, hg, hgc⟩ := load_of_compatible hds
    exact ⟨g, hg, hgc, hgc.ofDocument_flatMap (Finding.acceptable_of_holds hds.holds)⟩
  · intro p q hr
    refine ⟨Grouping.merged_agrees hr, ?_⟩
    intro hd
    obtain ⟨e, he⟩ := p.merged_of_not_disjoint hd
    obtain ⟨e', he'⟩ := q.merged_of_not_disjoint (hr ▸ hd)
    exact ⟨e, e', he, he'⟩
  · intro history
    exact ⟨merge_empty _, (wellFormed_run history).empty_merge⟩

/-- Two documents, and a third one that repeats the first. -/
theorem load_documents_repeated :
    let holder : TypeDeclaration := { name := "a.Holder", kind := .classKind }
    let point : TypeDeclaration := { name := "b.Point", kind := .classKind }
    let first : Document := ⟨{ producer := some "front end" }, [holder]⟩
    let second : Document := ⟨{ generatedAt := some "today" }, [point]⟩
    let finding (path : String) (d : Document) : Finding := ⟨path, .ok d.toJson.compact⟩
    let both := [finding "a.json" first, finding "b.json" second]
    (∃ g, empty.load both = .ok g ∧ g.Collects [first, second]) ∧
      empty.load (both ++ [finding "c.json" first]) =
        .error (.invalid (.duplicateType "a.Holder")) := by
  intro holder point first second finding both
  have hf : ∀ path, (finding path first).Holds first := fun path =>
    ⟨⟨_, rfl, first.ofText_toJson.1⟩, List.forall_mem_singleton.2 ⟨.nil, nofun⟩,
      List.nodup_singleton _⟩
  have hs : (finding "b.json" second).Holds second :=
    ⟨⟨_, rfl, second.ofText_toJson.1⟩, List.forall_mem_singleton.2 ⟨.nil, nofun⟩,
      List.nodup_singleton _⟩
  have hd : first.Disjoint second := by
    simp [Document.Disjoint, first, second, holder, point]
  have hb : Compatible both [first, second] :=
    ⟨.cons (hf _) (.cons hs .nil), by simpa using hd⟩
  have hr : FailsFirst (both ++ [finding "c.json" first]) (.invalid (.duplicateType holder.name)) :=
    ⟨both, _, [], _, rfl, hb, .repeated (hf _) rfl⟩
  obtain ⟨-, hload, -⟩ := load_documents.1 both
  obtain ⟨g, hg, hgc, -⟩ := hload _ hb
  obtain ⟨-, -, herror⟩ := load_documents.1 (both ++ [finding "c.json" first])
  exact ⟨⟨g, hg, hgc⟩, (herror _).2 hr⟩

end TypeGraph

end Immutability
